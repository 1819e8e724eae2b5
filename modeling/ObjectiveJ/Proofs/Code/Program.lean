import ObjectiveJ.Proofs.Code.Walk
import ObjectiveJ.Proofs.Compile

/-!
# What a unit writes

The walk through a program starts with empty buffers. When it is done, the buffer of the unit holds
the code of the program, divided into the code of its nodes (`Compiler.outcome_writes`).
-/

namespace ObjectiveJ

open Gen Text

theorem Symbols.lt_of_class? {symbols : Symbols} {id : ClassId} {d : ClassDef}
    (h : symbols.class? id = some d) : id < symbols.store.size := by
  obtain ⟨x, hx, _⟩ := Option.bind_eq_some_iff.1 h
  exact (Array.getElem?_eq_some_iff.1 hx).1

namespace Compiler

variable {A : Account} {c : Compiler} {symbols : Symbols} {source : Option String} {program : Value}

section Writes

variable (hsource : A.clear → source = none) (hinline : c.options.inlineMsgSend = A.isInline)
  (hknown : A.known = symbols.store.size)

include hsource hinline hknown

theorem start_ready : (c.start symbols source).Ready A where
  sane :=
    { numbers := ⟨nofun, fun p ⟨_, _, hf, _⟩ => by cases hf⟩
      seen := nofun
      faces := fun _ _ _ hface => by cases hface
      symbols := fun _ => ⟨Nat.le_of_eq hknown, fun id d hid hd =>
        absurd (Symbols.lt_of_class? hd) (Nat.not_lt.2 (hknown ▸ hid))⟩
      source := fun hclear => by rw [start, hsource hclear]; rfl }
  isInline := hinline
  refs _ _ hf := by cases hf
  fresh _ _ := rfl
  apart := List.nodup_nil
  methods := nofun

/-- The state in which the walk enters the program: a frame is open for what is global. -/
def opened (c : Compiler) (symbols : Symbols) (source : Option String) : GenState :=
  { c.start symbols source with frames := (Frames.new {} { kind := .global }).2 }

theorem opened_ready :
    (c.opened symbols source).Ready A ∧ (c.opened symbols source).At ⟨0, 0, false⟩ := by
  have hready : (c.start symbols source).Ready A := start_ready hsource hinline hknown
  have hface : A.clear → ({ kind := .global } : Frame).face.Nests A.known := fun _ =>
    ⟨.of_residue rfl, .of_residue rfl, nofun⟩
  obtain ⟨⟨hsane, hheld⟩, hid⟩ := wp_newFrame (A := A) hready.sane rfl hface
  refine ⟨hready.held hsane hheld (hready.refs.new rfl) rfl, Nat.one_pos,
    fun _ hx => ?_, _, hid, ?_⟩
  · cases hx
  · rintro (h | h)
    · cases h
    · cases h

/-- At the end of the walk the code of the program stands in the buffer of the unit. -/
theorem generate_writes (hprogram : Fits A program) :
    wp (generate program) (fun _ t => ∃ code : Code, t.contents 0 = code.flatten ∧ code.Faithful ∧
        (A.clear → SameBrackets code.chars []) ∧
        (A.once → t.diagnostics.hasErrors = false → code.tally A = program.tally A false))
      (fun _ _ => True) (c.start symbols source) := by
  obtain ⟨hready, hat⟩ := opened_ready hsource hinline hknown
  have hwalk : Puts A (Site.spot { frame := 0 } false)
    (walk program.height .plain program { frame := 0 }) [] _ :=
    (writes_walk program.height).plain hprogram
  have hbody : Puts A ⟨0, 0, false⟩ (do
      walk program.height .plain program { frame := 0 }
      Gen.closeFrame 0 0) [] (program.tally A false) :=
    .start <| .seq hwalk <| .last (.closeFrame 0) rfl (by simp)
  have hrun : wp (do
      walk program.height .plain program { frame := 0 }
      Gen.closeFrame 0 0
      Gen.modifyFrames (·.setParked 0 [])) (fun _ t => ∃ d, Fills A 0 [] (program.tally A false)
        (c.opened symbols source) t d) (fun _ _ => True) (c.opened symbols source) := by
    rw [← bind_assoc, wp_bind]
    exact (hbody _ hready hat).imp fun _ t ht => by
      obtain ⟨d, hd⟩ := ht.2.code
      exact ⟨d, hd.contents, hd.faithful, hd.elsewhere, hd.brackets, hd.tally⟩
  refine wp.mono (m := generate program) hrun (fun _ t ht => ?_) fun _ _ h => h
  obtain ⟨d, hd⟩ := ht
  have htally : ∑ r ∈ Finset.range (c.opened symbols source).buffers, (d r).tally A =
      (d 0).tally A :=
    Finset.sum_range_one _
  exact ⟨d 0, hd.contents 0 Nat.one_pos, hd.faithful 0, fun hclear => (hd.brackets hclear).1,
    fun honce herrors => htally.symm.trans (hd.tally honce herrors)⟩

theorem outcome_writes {u : CompileUnit}
    (hprogram : Fits A (u.program.numbered.run symbols.nodes).1)
    (hok : (c.outcome symbols u source none).1 = .ok ()) :
    ∃ code : Code, (c.outcome symbols u source none).2.contents 0 = code.flatten ∧ code.Faithful ∧
      (A.clear → SameBrackets code.chars []) ∧
      (A.once → (c.outcome symbols u source none).2.diagnostics.hasErrors = false →
        code.tally A = (u.program.numbered.run symbols.nodes).1.tally A false) := by
  let known : Symbols := { symbols with nodes := (u.program.numbered.run symbols.nodes).2 }
  have hknown' : A.known = known.store.size := hknown
  have hrun : (generate (u.program.numbered.run symbols.nodes).1).run.run (c.start known source) =
      (.ok (), (c.outcome symbols u source none).2) := Prod.ext hok rfl
  exact (generate_writes hsource hinline hknown' hprogram).ok hrun

end Writes

end Compiler

end ObjectiveJ
