import ObjectiveJ.Compiler
import ObjectiveJ.Proofs.Run
import ObjectiveJ.Proofs.Tree

/-!
# Literals

A literal is written as it is spelled, and its value is not looked at. The value is read all the
same, and an object in it has to be a node. So a literal with a spelling is read and written if and
only if every object in its value is a node (`literal_survives_iff`), and a regular expression whose
value is given as an empty object is refused.
-/

namespace ObjectiveJ

open Gen

/-! ### Values that are read -/

namespace Json

mutual

/-- The objects in a value that are in no other object. -/
def objects : Json → List Json
  | .arr items => objectsOfItems items
  | .obj members => [.obj members]
  | _ => []

def objectsOfItems : List Json → List Json
  | [] => []
  | item :: rest => item.objects ++ objectsOfItems rest

end

/-- An object that is read as a node. -/
def IsNode (j file : Json) : Prop :=
  (j.get "type").str?.isSome = true ∧ ∃ t, Tree.ofJson file j = .ok t

/-- A literal as it is given: its spelling, its value and its place, with nothing given under
`objj`. -/
structure IsLiteral (j file : Json) (raw : String) (value : Json) (span : Span) : Prop where
  type : j.get? "type" = some (.str "Literal")
  raw : j.get? "raw" = some (.str raw)
  value : j.get? "value" = some value
  plain : (j.get "objj").truthy = false
  location : Tree.locationOfJson file j = .ok span.location
  start : Tree.wholeNumber j "start" 0 = .ok span.start
  stop : Tree.wholeNumber j "end" 0 = .ok span.stop

theorem part?_of_get? {j v : Json} {key : String} (h : j.get? key = some v) :
    j.part? key = some ⟨v, sizeOf_get?_lt h⟩ := by
  unfold part?
  split
  · rename_i w hw
    obtain rfl : w = v := Option.mem_unique hw h
    rfl
  · rename_i hnone
    cases hnone.symm.trans h

theorem part?_of_none {j : Json} {key : String} (h : j.get? key = none) : j.part? key = none := by
  unfold part?
  split
  · rename_i hw
    cases hw.symm.trans h
  · rfl

end Json

namespace Tree

variable {j file value : Json} {field raw : String} {span : Span}

mutual

/-- A value is read if and only if every object in it is a node. -/
theorem valueOfJson_ok_iff (hfield : field ≠ "params") (j : Json) :
    (∃ v, valueOfJson file field j = .ok v) ↔ ∀ o ∈ j.objects, o.IsNode file := by
  cases j with
  | null | bool | int | float | str =>
    rw [valueOfJson, Json.objects]
    · exact ⟨fun _ => nofun, fun _ => ⟨_, rfl⟩⟩
    all_goals nofun
  | arr items =>
    rw [valueOfJson, Json.objects, ← itemsOfJson_ok_iff hfield items]
    cases itemsOfJson file field items with
    | error e => exact ⟨nofun, nofun⟩
    | ok vs => exact ⟨fun _ => ⟨vs, rfl⟩, fun _ => ⟨_, rfl⟩⟩
  | obj members =>
    rw [valueOfJson, Json.objects, List.forall_mem_singleton, Json.IsNode]
    cases ((Json.obj members).get "type").str?.isSome with
    | false => simp [hfield, throw, throwThe, MonadExceptOf.throw, bind, Except.bind]
    | true =>
      cases ofJson file (.obj members) with
      | error e => simp [bind, Except.bind]
      | ok t => simp [bind, Except.bind, pure, Except.pure]

theorem itemsOfJson_ok_iff (hfield : field ≠ "params") (items : List Json) :
    (∃ vs, itemsOfJson file field items = .ok vs) ↔
    ∀ o ∈ Json.objectsOfItems items, o.IsNode file := by
  cases items with
  | nil =>
    rw [itemsOfJson, Json.objectsOfItems]
    exact ⟨fun _ => nofun, fun _ => ⟨_, rfl⟩⟩
  | cons item rest =>
    rw [itemsOfJson, Json.objectsOfItems, List.forall_mem_append, ← valueOfJson_ok_iff hfield item,
      ← itemsOfJson_ok_iff hfield rest]
    cases valueOfJson file field item with
    | error e => simp [bind, Except.bind]
    | ok v =>
      cases itemsOfJson file field rest with
      | error e => simp [bind, Except.bind]
      | ok vs => simp [bind, Except.bind, pure, Except.pure]

end

/-- A part whose name is its key is what is given under the name. -/
theorem given_eq (field : String) {v : Json} (hplain : (j.get "objj").truthy = false)
    (hkey : Schema.key field = field) (hfield : field ≠ "type") (h : j.get? field = some v) :
    given j field = .ok (some ⟨v, Json.sizeOf_get?_lt h⟩) := by
  unfold given
  rw [hkey]
  cases hobjj : j.get? "objj" with
  | none =>
    rw [Json.part?_of_none hobjj]
    simp [hfield, pure, Except.pure, bind, Except.bind, Json.part?_of_get? h]
  | some objj =>
    have hfalse : objj.truthy = false := by simpa [Json.get, hobjj] using hplain
    rw [Json.part?_of_get? hobjj]
    simp [hfalse, hfield, pure, Except.pure, bind, Except.bind, Json.part?_of_get? h]

theorem ofJson_literal (h : j.IsLiteral file raw value span) : ofJson file j =
    (valueOfJson file "value" value).map fun v =>
      { type := .literal, span, fields := [("value", v), ("raw", .str raw)] } := by
  obtain ⟨location, start, stop⟩ := span
  have hvalue := given_eq "value" h.plain (by decide) (by decide) h.value
  have hraw := given_eq "raw" h.plain (by decide) (by decide) h.raw
  have htype : NodeType.ofName? "Literal" = some .literal := by decide
  have hstr : valueOfJson file "raw" (.str raw) = .ok (.str raw) := by
    rw [valueOfJson]
    · rfl
    all_goals nofun
  rw [ofJson]
  simp only [h.type, Json.str?, Option.bind_some, htype, h.location, h.start, h.stop, bind,
    Except.bind, Schema.fields, List.mapM_cons, List.mapM_nil, hvalue, hraw]
  cases valueOfJson file "value" value with
  | error e => rfl
  | ok v => simp [hstr, pure, Except.pure, Except.map]

end Tree

/-! ### Literals that are written -/

/-- The spelling of a literal without the sign that marks a string of Objective-J. -/
def unmarked (raw : String) : String :=
  match raw.toList with
  | '@' :: rest => String.ofList rest
  | _ => raw

theorem Expression.literalText?_of_raw (value : Value) {raw : String} (h : raw ≠ "") :
    literalText? value (.str raw) = some (unmarked raw) := by
  have htruthy : (Value.str raw).truthy = true := by simpa [Value.truthy, Json.truthy] using h
  unfold literalText?
  rw [if_pos htruthy]
  rfl

/-- What a literal writes: its text, between the hooks of a literal. -/
theorem wp_walk_literal {t : Tree} {value : Value} {raw : String} (htype : t.type = .literal)
    (hvalue : t.get? "value" = some value) (hraw : t.get? "raw" = some (.str raw)) (hne : raw ≠ "")
    (n : Nat) (site : Site) {s : GenState} (hstop : s.settings.stop = none) :
    wp (walk (n + 1) .plain (.tree t) site) (fun _ u => ∃ a, u.trace.toList = s.trace.toList ++
      [.hook site.buffer "Literal" (.plain "before") a,
        .text site.buffer (.str (unmarked raw)) t.location,
        .hook site.buffer "Literal" (.plain "after") a]) (fun _ _ => False) s := by
  have hlayout : layoutType t .plain = "Literal" := by rw [layoutType, htype]; rfl
  have hform : compileAs (walk n) t .plain = fun site =>
      textAt site.buffer (unmarked raw) t.location := by
    funext site
    rw [compileAs, compileForm, htype]
    change Expression.literal t site = _
    rw [Expression.literal, field, field, hvalue, hraw]
    change ofOption (Expression.literalText? value (.str raw)) >>= _ = _
    rw [Expression.literalText?_of_raw value hne]
    rfl
  rw [walk, step, hlayout, hform]
  simp only [enclose, within, hook, hookOf, textAt, writeAt, wp_bind, wp_modify, wp_get,
    wp_emit_iff, hstop]
  exact ⟨s.ancestry.push "Literal" (roleOf t), by simp⟩

/-- A literal with a spelling is read, and its spelling is written wherever it is compiled, if and
only if every object in its value is a node. -/
theorem literal_survives_iff {j file value : Json} {raw : String} {span : Span}
    (h : j.IsLiteral file raw value span) (hraw : raw ≠ "") :
    (∃ t, Tree.ofJson file j = .ok t ∧ ∀ number n site s, s.settings.stop = none →
      wp (walk (n + 1) .plain (.tree (t.numbered.run number).1) site) (fun _ u => ∃ a,
        u.trace.toList = s.trace.toList ++
          [.hook site.buffer "Literal" (.plain "before") a,
            .text site.buffer (.str (unmarked raw)) span.location,
            .hook site.buffer "Literal" (.plain "after") a]) (fun _ _ => False) s) ↔
      ∀ o ∈ value.objects, o.IsNode file := by
  rw [← Tree.valueOfJson_ok_iff (by decide : "value" ≠ "params"), Tree.ofJson_literal h]
  constructor
  · rintro ⟨t, ht, -⟩
    cases hv : Tree.valueOfJson file "value" value with
    | error e => simp [hv, Except.map] at ht
    | ok v => exact ⟨v, rfl⟩
  · rintro ⟨v, hv⟩
    refine ⟨_, by rw [hv]; rfl, fun number n site s hstop => ?_⟩
    let t : Tree := { type := .literal, span, fields := [("value", v), ("raw", .str raw)] }
    obtain ⟨m, hvalue⟩ := t.get?_numbered (show t.get? "value" = some v from rfl) number
    obtain ⟨k, hraw'⟩ := t.get?_numbered (show t.get? "raw" = some (.str raw) from rfl) number
    rw [Value.numbered_data] at hraw'
    have hwrites := wp_walk_literal (t.numbered_type number) hvalue hraw' hraw n site hstop
    rwa [t.numbered_location number] at hwrites

/-- The regular expression `/a/`, with a value. -/
def patternJson (value : Json) : Json :=
  .obj [("type", .str "Literal"), ("value", value), ("raw", .str "/a/")]

theorem isLiteral_patternJson (value : Json) :
    (patternJson value).IsLiteral .null "/a/" value {} where
  type := rfl
  raw := rfl
  value := rfl
  plain := rfl
  location := rfl
  start := rfl
  stop := rfl

theorem pattern_survives : ∃ t, Tree.ofJson .null (patternJson .null) = .ok t ∧
    ∀ s : GenState, s.settings.stop = none →
      wp (walk 1 .plain (.tree (t.numbered.run 0).1) { frame := 0 }) (fun _ u => ∃ a,
        u.trace.toList = s.trace.toList ++ [.hook 0 "Literal" (.plain "before") a,
          .text 0 (.str "/a/") none, .hook 0 "Literal" (.plain "after") a])
            (fun _ _ => False) s := by
  obtain ⟨t, ht, hwritten⟩ :=
    (literal_survives_iff (isLiteral_patternJson .null) (by decide)).2 nofun
  exact ⟨t, ht, hwritten 0 0 { frame := 0 }⟩

/-- An empty object is no node. -/
theorem pattern_refused : ¬ ∃ t, Tree.ofJson .null (patternJson (.obj [])) = .ok t := by
  rintro ⟨t, ht⟩
  rw [Tree.ofJson_literal (isLiteral_patternJson (.obj []))] at ht
  cases hv : Tree.valueOfJson .null "value" (.obj []) with
  | error e => simp [hv, Except.map] at ht
  | ok v =>
    have hnode := (Tree.valueOfJson_ok_iff (by decide) _).1 ⟨v, hv⟩ _ (List.mem_singleton.2 rfl)
    cases hnode.1

end ObjectiveJ
