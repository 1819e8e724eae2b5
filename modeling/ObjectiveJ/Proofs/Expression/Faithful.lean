import ObjectiveJ.Proofs.Expression.Writing
import ObjectiveJ.Proofs.SourceMap.Exact

/-!
# Operators are printed faithfully

A program that consists of one expression is compiled to JavaScript code that is read as the same
expression, by the grammar of JavaScript and in no other way
(`Compiler.compile_expression_faithful`). Parentheses are not kept from the source: they are written
where the grammar needs them.

The code is laid out by one of the bundled formats, with no scope for the file. What the rest of the
session has declared does not matter, but an expression that assigns to the name of a class,
protocol or type definition is an error.
-/

namespace ObjectiveJ

open Script Gen

variable {A : Alphabet}

/-- A program whose only statement is an expression. -/
def IsProgramOf (A : Alphabet) (v : Value) (e : Expr) : Prop :=
  ∃ program statement expression, v = .tree program ∧ program.type = .program ∧
    program.get? "body" = some (.list [.tree statement]) ∧ statement.type = .expressionStatement ∧
    statement.get? "expression" = some expression ∧ Denotes A expression e

/-- A text that is read as a statement of an expression. -/
def IsStatementOf (A : Alphabet) (code : String) (e : Expr) : Prop :=
  ∃ ts, lex A code.toList = some (ts ++ [.mark ";"]) ∧ Derives 15 ts e

theorem IsStatementOf.unique {code : String} {e e' : Expr} (h : IsStatementOf A code e)
    (h' : IsStatementOf A code e') : e = e' := by
  obtain ⟨ts, hlex, hts⟩ := h
  obtain ⟨ts', hlex', hts'⟩ := h'
  rw [hlex] at hlex'
  obtain rfl := List.append_cancel_right (Option.some.inj hlex')
  exact hts.unique hts'

/-! ### The end of a program -/

theorem Diagnostics.hasErrors_withdraw {d : Diagnostics} (h : d.hasErrors = false) (id : Nat) :
    (d.withdraw id).hasErrors = false := by
  unfold withdraw
  split
  · exact h
  · simp only [hasErrors, list, List.any_eq_false, List.mem_map] at h ⊢
    rintro i ⟨⟨k, i⟩, hi, rfl⟩
    exact h _ ⟨_, (List.mem_filter.1 hi).1, rfl⟩

theorem Diagnostics.settleAll_root (symbols : Symbols) {fs : Frames} {f : Frame}
    (hstore : fs.store = #[f]) (hf : f.IsRoot) (d : Diagnostics) (parked : List Parked)
    (hparked : ∀ p ∈ parked, p.name.isSome = true) :
    (∃ f' : Frame, (settleAll symbols 0 fs d parked).1.store = #[f'] ∧ f'.IsRoot) ∧
      (settleAll symbols 0 fs d parked).2.2 = true ∧
      (d.hasErrors = false → (settleAll symbols 0 fs d parked).2.1.hasErrors = false) := by
  induction parked generalizing fs f d with
  | nil => exact ⟨⟨f, hstore, hf⟩, rfl, id⟩
  | cons p rest ih =>
    have hrest : ∀ q ∈ rest, q.name.isSome = true := fun q hq => hparked q (by simp [hq])
    obtain ⟨name, hname⟩ := Option.isSome_iff_exists.1 (hparked p (by simp))
    simp only [settleAll, hname]
    split
    · exact ih hstore hf d hrest
    · split
      · have hothers : ((fs.setParked 0 ((fs.parked 0).filter (·.issue ≠ p.issue)))).store =
            #[{ f with parked := f.parked.filter (·.issue ≠ p.issue) }] := by
          simp [Frames.setParked, Frames.root_root hstore hf, Frames.modify_root hstore,
            Frames.parked, Frames.frame?, hstore]
        obtain ⟨hroot, hall, herrors⟩ := ih hothers
          ⟨hf.kind, hf.parent, hf.maxLevel, fun q hq => hf.parked q (List.mem_filter.1 hq).1⟩
          (d.withdraw p.issue) hrest
        exact ⟨hroot, hall, fun h => herrors (hasErrors_withdraw h _)⟩
      · exact ih hstore hf d hrest

namespace Gen

variable {symbols : Symbols}

theorem Quiet.settle : Quiet symbols (settle 0) := by
  intro s hs
  obtain ⟨f, hstore, hf⟩ := hs.frames
  have hparked : s.frames.parked 0 = f.parked := by
    simp [Frames.parked, Frames.root_root hstore hf, Frames.frame?, hstore]
  obtain ⟨hroot, hall, herrors⟩ :=
    Diagnostics.settleAll_root s.symbols hstore hf s.diagnostics f.parked hf.parked
  unfold Gen.settle
  simp only [wp_bind, wp_get, Diagnostics.settle, hparked, wp_set, hall]
  exact ⟨⟨hs.stop, fun h => herrors (hs.errors h), hs.symbols, hroot⟩, rfl⟩

theorem Quiet.closeFrame : Quiet symbols (closeFrame 0 0) := by
  intro s hs
  obtain ⟨f, hstore, hf⟩ := hs.frames
  unfold Gen.closeFrame
  simp only [wp_bind, wp_get, Frames.frame?, hstore]
  simp [hf.maxLevel, hs]

/-! ### The code of a program -/

section Program

variable {f : Format} {s : GenState} {cs ds : List Char}

theorem WritesFrom.ancestry_bind {g : Ancestry → Ancestry} {k : PUnit → Gen Unit}
    (h : WritesFrom symbols f { s with ancestry := g s.ancestry } (k ⟨⟩) cs) :
    WritesFrom symbols f s ((modify fun s => { s with ancestry := g s.ancestry }) >>= k) cs := by
  unfold WritesFrom
  rwa [wp_bind, wp_modify]

theorem WritesFrom.hook_bind {type key : String} {k : Unit → Gen Unit}
    (hstop : s.settings.stop = none)
    (htext : (Instr.hook 0 type (.plain key) s.ancestry).plainText? f = some [])
    (h : ∀ trace, WritesFrom symbols f { s with trace } (k ()) cs) :
    WritesFrom symbols f s (hook 0 type key >>= k) cs := by
  let i := Instr.hook 0 type (.plain key) s.ancestry
  have hrun : (hook 0 type key).run.run s = (.ok (), { s with trace := s.trace.push i }) :=
    run_emit i hstop
  unfold WritesFrom
  rw [wp_bind, wp, hrun]
  refine (h (s.trace.push i)).imp fun _ t ht => ?_
  obtain ⟨ht, is, htrace, hcs, hplaced⟩ := ht
  refine ⟨ht, i :: is, by simp [htrace], by simp [plainTexts?, i, htext, hcs], ?_⟩
  intro j hj
  rcases List.mem_cons.1 hj with rfl | hj
  · trivial
  · exact hplaced j hj

variable (hf : f = Format.bundled "cappuccino" ∨ f = Format.bundled "compact") {t : Tree}
  {expression : Value} {n : Nat} {site : Site}

include hf

theorem writesFrom_statement (hs : AtFileLevel symbols s)
    (hancestry : s.ancestry = ({} : Ancestry).push "Program" .other)
    (htype : t.type = .expressionStatement) (hexpression : t.get? "expression" = some expression)
    (hsite : site.AtTop)
    (h : ∀ site : Site, site.AtTop → Writes symbols f (walk n .plain expression site) cs) :
    WritesFrom symbols f s (walk (n + 1) .plain (.tree t) site) (cs ++ [';']) := by
  have hrole : roleOf t = .assignment ∨ roleOf t = .other := by
    simp only [roleOf, htype]
    split
    · exact .inl rfl
    · exact .inr rfl
  have hname : layoutType t .plain = "ExpressionStatement" := by
    rw [layoutType, htype]
    rfl
  have hbody : ∀ site : Site, site.AtTop →
      Writes symbols f (compileAs (walk n) t .plain site) cs := by
    intro site hsite
    simp only [compileAs, compileForm, htype, Statement.expression, field_eq hexpression, pure_bind]
    exact h site hsite
  have hafter : Writes symbols f (hook 0 "ExpressionStatement" "after") [';'] := fun s hs =>
    Writes.emit (Format.plainText?_after_statement hf s.ancestry) trivial s hs
  have hpop : Quiet symbols (modify fun s =>
      { s with ancestry := s.ancestry.pop "ExpressionStatement" }) := fun _ hs =>
    ⟨⟨hs.stop, hs.errors, hs.symbols, hs.frames⟩, rfl⟩
  have hbefore := Format.plainText?_before_firstStatement hf hrole
  simp only [walk, step, enclose, within, hname, hsite.buffer]
  refine WritesFrom.ancestry_bind ?_
  rw [← List.append_nil (cs ++ [';'])]
  refine WritesFrom.bind (WritesFrom.hook_bind hs.stop ?_ fun trace => ?_) (Writes.ofQuiet hpop)
  · simpa only [hancestry, Format.firstStatement] using hbefore
  · have hcode := (hbody { site with buffer := 0, type := "ExpressionStatement" }
      ⟨hsite.frame, rfl⟩).bind (k := fun _ => _) hafter
    exact hcode _ ⟨hs.stop, hs.errors, hs.symbols, hs.frames⟩

theorem writesFrom_program {statement : Tree} (hs : AtFileLevel symbols s)
    (hancestry : s.ancestry = {}) (hscope : s.settings.objjScope = false)
    (htype : t.type = .program) (hbody : t.get? "body" = some (.list [.tree statement]))
    (hsite : site.AtTop)
    (h : ∀ s site, AtFileLevel symbols s → s.ancestry = ({} : Ancestry).push "Program" .other →
      Site.AtTop site → WritesFrom symbols f s (walk n .plain (.tree statement) site) cs) :
    WritesFrom symbols f s (walk (n + 1) .plain (.tree t) site) cs := by
  have hhook : ∀ key ∈ ["before", "after"], ∀ ancestry,
      (Instr.hook 0 "Program" (.plain key) ancestry).plainText? f = some [] := by
    intro key hkey ancestry
    exact Format.plainText?_of_fixed? (Format.fixed?_program hf key hkey) (by decide) ancestry
  have hafter : Writes symbols f (hook 0 "Program" "after") [] := fun s hs =>
    Writes.emit (hhook "after" (by simp) s.ancestry) trivial s hs
  have hpop : Quiet symbols (modify fun s => { s with ancestry := s.ancestry.pop "Program" }) :=
    fun _ hs => ⟨⟨hs.stop, hs.errors, hs.symbols, hs.frames⟩, rfl⟩
  have hname : layoutType t .plain = "Program" := by
    rw [layoutType, htype]
    rfl
  have hrole : roleOf t = .other := by simp only [roleOf, htype]
  simp only [walk, step, enclose, within, hname, hrole, hsite.buffer]
  refine WritesFrom.ancestry_bind ?_
  have hempty : cs = (cs ++ []) ++ [] := by simp
  rw [hempty]
  refine WritesFrom.bind (WritesFrom.hook_bind hs.stop (hhook "before" (by simp) _) fun trace => ?_)
    (Writes.ofQuiet hpop)
  refine WritesFrom.bind ?_ hafter
  let u : GenState :=
    { s with ancestry := s.ancestry.push "Program" .other, trace }
  have hu : AtFileLevel symbols u := ⟨hs.stop, hs.errors, hs.symbols, hs.frames⟩
  have hstatement := h u { site with type := "Program", buffer := 0 } hu (by simp [u, hancestry])
    ⟨hsite.frame, rfl⟩
  simp only [compileAs, compileForm, htype, Statement.program, fieldItems,
    field_eq hbody, pure_bind, items, Value.items?, ofOption, inTurn, List.forM, bind_pure_unit]
  unfold WritesFrom
  simp only [wp_bind, wp_get, hscope, Bool.false_eq_true, if_false]
  have hend := hstatement.bind (k := fun _ => Gen.settle 0) (Writes.ofQuiet Quiet.settle)
  rw [List.append_nil] at hend
  simpa only [WritesFrom, wp_bind, hsite.frame, u] using hend

end Program

end Gen

theorem Compiler.atFileLevel_start (c : Compiler) (symbols : Symbols) (source : Option String) :
    AtFileLevel symbols
      { c.start symbols source with frames := (({} : Frames).new { kind := .global }).2 } where
  stop := rfl
  errors := fun _ => rfl
  symbols := rfl
  frames := ⟨{ kind := .global }, rfl, rfl, rfl, rfl, by simp⟩

namespace IsProgramOf

variable {A : Alphabet} {v : Value} {e : Expr}

theorem numbered (h : IsProgramOf A v e) (n : Nat) : IsProgramOf A (v.numbered.run n).1 e := by
  obtain ⟨program, statement, expression, rfl, hprogram, hbody, hstatement, hexpression, he⟩ := h
  obtain ⟨k, hk⟩ := Tree.get?_numbered hbody n
  obtain ⟨m, hm⟩ := Tree.get?_numbered hexpression k
  rw [Value.numbered_list, numberedItems_cons, numberedItems_nil, Value.numbered_tree] at hk
  exact ⟨_, _, _, Value.numbered_tree .., by simpa using hprogram, hk,
    by simpa using hstatement, hm, he.numbered m⟩

/-- The code of a program of one expression is a text of that expression and a semicolon. -/
theorem writes_generate (h : IsProgramOf A v e) (symbols : Symbols) {f : Format}
    (hf : f = Format.bundled "cappuccino" ∨ f = Format.bundled "compact") :
    ∃ cs, Spells A e.level cs e ∧ ∀ (c : Compiler) source, c.options.objjScope = false →
      WritesFrom symbols f (c.start symbols source) (generate v) (cs ++ [';']) := by
  obtain ⟨program, statement, expression, rfl, hprogram, hbody, hstatement, hexpression, he⟩ := h
  obtain ⟨cs, hcs, hwrites⟩ : IsWritten symbols f A expression e.level e _ := he.isWritten hf
  refine ⟨cs, hcs, fun c source hscope => ?_⟩
  have hheight : (Value.tree statement).height < program.height :=
    Tree.height_item_lt hbody (by simp)
  have hheight' := statement.height_get?_lt hexpression
  rw [Value.height] at hheight
  obtain ⟨n, hn⟩ : ∃ n, program.height = n + 1 + 1 := ⟨program.height - 2, by omega⟩
  have hcode := writesFrom_program hf (c.atFileLevel_start symbols source) rfl hscope hprogram hbody
    (⟨rfl, rfl⟩ : Site.AtTop { frame := 0 }) fun s site hs hancestry hsite =>
      writesFrom_statement hf hs hancestry hstatement hexpression hsite
        (hwrites n (by omega))
  have hparked : Quiet symbols (modifyFrames (·.setParked 0 [])) := by
    intro s hs
    obtain ⟨g, hstore, hg⟩ := hs.frames
    refine ⟨⟨hs.stop, hs.errors, hs.symbols, { g with parked := [] }, ?_, hg.kind, hg.parent,
      hg.maxLevel, by simp⟩, rfl⟩
    simp only [Frames.setParked, Frames.root_root hstore hg, Frames.modify_root hstore]
  have hend := hcode.bind (k := fun _ => _)
    (Writes.ofQuiet (Quiet.closeFrame.bind fun _ => hparked))
  rw [List.append_nil] at hend
  unfold generate WritesFrom
  rw [Value.height, hn]
  exact hend

end IsProgramOf

/-! ### The output -/

theorem Text.not_isLineEnd_percentEncode (s : String) :
    ∀ c ∈ (percentEncode s).toList, Script.isLineEnd c = false := by
  have hends : ∀ c : Char, Script.isLineEnd c = true → isUnreserved c = false := by
    intro c hc
    unfold Script.isLineEnd at hc
    simp only [Bool.or_eq_true, beq_iff_eq] at hc
    rw [← Char.ofNat_toNat c]
    rcases hc with ((hc | hc) | hc) | hc
    all_goals rw [hc]; decide
  intro c hc
  cases hend : Script.isLineEnd c with
  | false => rfl
  | true =>
    obtain hd | rfl := mem_percentEncode hc
    · rw [hends c hend] at hd
      cases hd
    · rw [isLineEnd_eq_false (by decide)] at hend
      cases hend

/-- The line that names the source map is a comment. -/
theorem Compiler.lex_trailer (A : Alphabet) (name : String) :
    lex A (trailer name).toList = some [] := by
  have hline : ∀ body : String, (∀ c ∈ body.toList, isLineEnd c = false) →
      lex A ("//# sourceMappingURL=" ++ body ++ "\n").toList = some [] := by
    intro body hbody
    have hmarker : ∀ c ∈ "# sourceMappingURL=".toList, isLineEnd c = false := by
      have hrange : ("# sourceMappingURL=".toList.all
          fun c => 0x20 ≤ c.toNat ∧ c.toNat < 0x2028) = true := by decide
      exact fun c hc => isLineEnd_eq_false (of_decide_eq_true (List.all_eq_true.1 hrange c hc))
    have hnewline : ∀ c ∈ ['\n'].head?, isLineEnd c = true := by simp [isLineEnd]
    have htext : ("//# sourceMappingURL=" ++ body ++ "\n").toList =
        '/' :: '/' :: (("# sourceMappingURL=".toList ++ body.toList) ++ ['\n']) := by
      simp only [String.toList_append]
      rfl
    rw [htext, lex_lineComment A (List.forall_mem_append.2 ⟨hmarker, hbody⟩) hnewline,
      lex_space A isSpace_newline, lex_nil]
  exact hline _ (Text.not_isLineEnd_percentEncode _)

theorem Location.IsPlain.isMappable {l : Location} (h : l.IsPlain) : l.IsMappable := by
  obtain ⟨file, line, column, rfl⟩ := h
  exact ⟨⟨_, rfl⟩, ⟨_, rfl⟩, ⟨_, rfl⟩⟩

theorem Script.Spells.isStatementOf {k : Nat} {cs rest : List Char} {e : Expr} (h : Spells A k cs e)
    (hk : k ≤ 15) (hrest : lex A rest = some []) {code : String}
    (hcode : code.toList = cs ++ ';' :: '\n' :: rest) : IsStatementOf A code e := by
  obtain ⟨ts, hts, hlex⟩ := h.tokens
  have hmark : ∀ rest, lex A (';' :: rest) = (lex A rest).map (.mark ";" :: ·) :=
    lex_single rfl (by decide) (by decide)
  have hend : lex A (';' :: '\n' :: rest) = some [.mark ";"] := by
    rw [hmark, lex_space A isSpace_newline, hrest]
    rfl
  refine ⟨ts, ?_, hts.mono hk (Nat.le_refl 15)⟩
  rw [hcode, hlex _ (ends_cons (by decide) (by decide) _), hend]
  rfl

namespace Compiler

variable {c : Compiler} {u : CompileUnit}

/-- Code that ends with a semicolon is put out with a line end, and perhaps a comment. -/
theorem output?_of_holds {layout : Layout} {cs : List Char} {output : String}
    (h : layout.Holds Location.IsPlain (cs ++ [';']))
    (houtput : outputName? u = some (.str output)) :
    ∃ code map rest, c.output? u (layout.fragments 0).toList = some (code, map) ∧
      code.toList = cs ++ ';' :: '\n' :: rest ∧ ∀ A, lex A rest = some [] := by
  have hterminated : (terminated (String.ofList (cs ++ [';']))).toList = cs ++ [';', '\n'] := by
    have hnone : Text.endsWith ['\n'] (cs ++ [';']) = false := by
      simp only [Text.endsWith, List.isSuffixOf, List.reverse_append]
      rfl
    simp [terminated, hnone]
  obtain ⟨mappings, hmappings⟩ := (SourceMap.ofFragments?_isSome_iff (p := {}) h.text).2
    fun f hf l hl => (h.placed f hf l hl).isMappable
  simp only [output?, h.text, houtput, Option.bind_eq_bind, Option.bind_some]
  cases c.options.sourceMap with
  | false => exact ⟨_, _, [], rfl, hterminated, fun A => lex_nil A⟩
  | true =>
    simp only [hmappings, Bool.not_true, Bool.false_eq_true, if_false, Option.bind_some, Json.str?]
    refine ⟨_, _, _, rfl, ?_, fun A => lex_trailer A output⟩
    rw [String.toList_append, hterminated, List.append_assoc]
    rfl

theorem indenter?_isSome (hf : c.format = Format.bundled "cappuccino" ∨
    c.format = Format.bundled "compact") : c.indenter?.isSome = true := by
  have hformats : ∀ f ∈ [Format.bundled "cappuccino", Format.bundled "compact"],
      (f.global "indent-string").isNull = false ∧ (f.global "indent-width").isNull = false ∧
      (Indenter.make? (f.global "indent-string") (f.global "indent-width")).isSome = true := by
    decide +kernel
  obtain ⟨hstring, hwidth, hmake⟩ := hformats c.format (by simpa using hf)
  simpa [indenter?, hstring, hwidth] using hmake

/-- The walk through a program of one expression writes the text of the expression, or it fails
because of a clash of names. -/
theorem outcome_of_isProgramOf {e : Expr} (symbols : Symbols) (source : Option String)
    (hf : c.format = Format.bundled "cappuccino" ∨ c.format = Format.bundled "compact")
    (hscope : c.options.objjScope = false) (hprogram : IsProgramOf A u.program e) :
    ∃ cs, Spells A 15 cs e ∧
      ((c.outcome symbols u source none).1 = .ok () →
        let s := (c.outcome symbols u source none).2
        (symbols.IsFresh → s.diagnostics.hasErrors = false) ∧
          plainTexts? c.format s.trace.toList = some (cs ++ [';']) ∧
          ∀ i ∈ s.trace.toList, i.PlacedBy Location.IsPlain) ∧
      ∀ failure, (c.outcome symbols u source none).1 = .error failure → ¬ symbols.IsFresh := by
  obtain ⟨cs, hcs, hwrites⟩ := (hprogram.numbered symbols.nodes).writes_generate
    { symbols with nodes := (u.program.numbered.run symbols.nodes).2 } hf
  have hlevel : e.level ≤ 15 := by
    obtain ⟨_, _, _, _, _, _, _, _, he⟩ := hprogram
    obtain ⟨t, rfl⟩ := he.isTree
    exact Nat.le_trans he.level_le (by decide)
  have houtcome := hwrites c source hscope
  have hfresh : symbols.IsFresh →
      { symbols with nodes := (u.program.numbered.run symbols.nodes).2 }.IsFresh := fun h =>
    ⟨h.classes, h.protocols, h.typedefs⟩
  refine ⟨cs, hcs.mono hlevel (Nat.le_refl 15), ?_⟩
  have hrun : (generate (u.program.numbered.run symbols.nodes).1).run.run (c.start
      { symbols with nodes := (u.program.numbered.run symbols.nodes).2 } source) =
        c.outcome symbols u source none := rfl
  unfold WritesFrom wp at houtcome
  rw [hrun] at houtcome
  generalize c.outcome symbols u source none = result at houtcome ⊢
  rcases result with ⟨_ | _, t⟩
  · exact ⟨nofun, fun _ _ h => houtcome (hfresh h)⟩
  · obtain ⟨ht, is, htrace, htexts, hplaced⟩ := houtcome
    obtain rfl : t.trace.toList = is := htrace
    exact ⟨fun _ => ⟨fun h => ht.errors (hfresh h), htexts, hplaced⟩, nofun⟩

/-- A program of one expression is compiled to code that is read as this expression and as no other.
The walk comes to its end unless a name clashes with one that was declared before, and always if
there are no errors. -/
theorem compile_expression_faithful {A : Alphabet} {e : Expr} {format output : String}
    (symbols : Symbols) (hformat : Format.ofName format = .ok c.format)
    (hscope : c.options.objjScope = false) (hprogram : IsProgramOf A u.program e)
    (hsource : u.source?.isSome = true) (houtput : outputName? u = some (.str output)) :
    (symbols.IsFresh → c.Finishes symbols u) ∧
      (∀ r, (c.compile symbols u).1 = .ok r → r.success = true → c.Finishes symbols u) ∧
      (c.Finishes symbols u → ∃ r, (c.compile symbols u).1 = .ok r ∧
        (symbols.IsFresh → r.success = true) ∧ IsStatementOf A r.code e ∧
        ∀ e', IsStatementOf A r.code e' → e' = e) := by
  have hf := Format.eq_bundled_of_ofName hformat
  obtain ⟨indenter, hindenter⟩ := Option.isSome_iff_exists.1 (indenter?_isSome hf)
  obtain ⟨source, hsource⟩ := Option.isSome_iff_exists.1 hsource
  obtain ⟨cs, hcs, hfinished, hfailed⟩ :=
    outcome_of_isProgramOf symbols source hf hscope hprogram
  refine ⟨fun hfresh => ⟨source, hsource, ?_⟩, fun r hr => finishes_of_success hr, ?_⟩
  · cases houtcome : (c.outcome symbols u source none).1 with
    | ok => rfl
    | error failure => exact absurd hfresh (hfailed failure houtcome)
  · rintro ⟨source', hsource', hok⟩
    obtain rfl : source = source' := Option.mem_unique hsource hsource'
    obtain ⟨herrors, htexts, hplaced⟩ := hfinished hok
    have hempty : ({ format := c.format, indenter } : Layout).Holds Location.IsPlain [] :=
      ⟨rfl, by simp [Layout.fragments]⟩
    obtain ⟨layout, hlayout, hholds⟩ := hempty.run htexts hplaced
    obtain ⟨code, map, rest, houtput, hcode, hrest⟩ := output?_of_holds (c := c) hholds houtput
    have hfaithful : IsStatementOf A code e := hcs.isStatementOf (Nat.le_refl 15) (hrest A) hcode
    refine ⟨⟨code, map, (c.outcome symbols u source none).2.diagnostics⟩, ?_, ?_, hfaithful,
      fun e' he' => he'.unique hfaithful⟩
    · rw [compile_eq hindenter hsource, hlayout, hok]
      simp only [conclude, finish, houtput, bind, Except.bind]
    · intro hfresh
      rw [CompileResult.success, herrors hfresh]
      rfl

def unplaced (type : NodeType) (fields : List (String × Value)) : Value :=
  .tree { type, span := {}, fields }

/-- The unit of `(a - (b - c))["k"] = !(d || e)`. -/
def assignmentUnit : CompileUnit where
  program :=
    let ident (name : String) := unplaced .identifier [("name", .str name)]
    let minus (l r : Value) :=
      unplaced .binaryExpression [("operator", .str "-"), ("left", l), ("right", r)]
    let key := unplaced .literal [("value", .str "k"), ("raw", .null)]
    let target := unplaced .memberExpression
      [("object", minus (ident "a") (minus (ident "b") (ident "c"))), ("property", key),
        ("computed", .bool true)]
    let either := unplaced .logicalExpression
      [("operator", .str "||"), ("left", ident "d"), ("right", ident "e")]
    let negation := unplaced .unaryExpression [("operator", .str "!"), ("argument", either)]
    let assignment := unplaced .assignmentExpression
      [("operator", .str "="), ("left", target), ("right", negation)]
    unplaced .program
      [("body", .list [unplaced .expressionStatement [("expression", assignment)]])]
  outputName := .str "assignment.js"

/-- `(a - (b - c))["k"] = !(d || e)`. -/
def assignmentExpr : Expr :=
  .assign "=" (.index (.binary "-" (.ident "a") (.binary "-" (.ident "b") (.ident "c")))
    (.string [107])) (.unary "!" (.binary "||" (.ident "d") (.ident "e")))

def scopeless : Compiler where
  options := { objjScope := false, sourceMap := true }
  format := Format.bundled "compact"
  predefined := {}

theorem compile_assignment_faithful :
    ∃ r, (scopeless.compile {} assignmentUnit).1 = .ok r ∧ r.success = true ∧
      IsStatementOf ⟨fun _ => false, fun _ => false⟩ r.code assignmentExpr := by
  let A : Alphabet := ⟨fun _ => false, fun _ => false⟩
  have hplaced : ∀ type fields, Tree.IsPlaced { type, span := {}, fields } := fun _ _ _ h =>
    nomatch h
  have hident : ∀ name ∈ ["a", "b", "c", "d", "e"],
      Denotes A (unplaced .identifier [("name", .str name)]) (.ident name) := by
    intro name hname
    have hvalid : ∀ name ∈ ["a", "b", "c", "d", "e"], A.isName name = true ∧
        name ∉ reservedWords := by
      decide
    exact .ident (hplaced _ _) rfl rfl (hvalid name hname).1 (hvalid name hname).2
  have hminus : ∀ {l r x y}, Denotes A l x → Denotes A r y → Denotes A
      (unplaced .binaryExpression [("operator", .str "-"), ("left", l), ("right", r)])
      (.binary "-" x y) := fun hl hr => .binary (by decide) rfl rfl rfl rfl hl hr
  have hkey : Denotes A (unplaced .literal [("value", .str "k"), ("raw", .null)])
      (.string [107]) := by
    have hunits : "k".toList.flatMap utf16 = [107] := by decide
    rw [← hunits]
    exact .string (hplaced _ _) rfl rfl rfl (.inl rfl)
  have hprogram : IsProgramOf A assignmentUnit.program assignmentExpr := by
    refine ⟨_, _, _, rfl, rfl, rfl, rfl, rfl, .assign rfl (by decide) rfl rfl rfl rfl ?_ ?_⟩
    · exact .index rfl rfl rfl rfl rfl (hminus (hident "a" (by decide))
        (hminus (hident "b" (by decide)) (hident "c" (by decide))))
        hkey
    · exact .unary (hplaced _ _) rfl (by decide) rfl rfl
        (.binary (by decide) rfl rfl rfl rfl (hident "d" (by decide)) (hident "e" (by decide)))
  have hfresh : ({} : Symbols).IsFresh := ⟨fun _ => rfl, fun _ => rfl, fun _ => rfl⟩
  obtain ⟨hfinishes, _, hresult⟩ := compile_expression_faithful (c := scopeless) {}
    (Format.ofName_bundled "compact" (by decide)) rfl hprogram rfl rfl
  obtain ⟨r, hr, hsuccess, hcode, _⟩ := hresult (hfinishes hfresh)
  exact ⟨r, hr, hsuccess hfresh, hcode⟩

end Compiler

end ObjectiveJ
