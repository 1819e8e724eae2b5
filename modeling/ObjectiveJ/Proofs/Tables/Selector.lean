import ObjectiveJ.Proofs.Code.Printed
import ObjectiveJ.Proofs.Layout.Formats
import ObjectiveJ.Tree.Build
import ObjectiveJ.Generate.Declaration

/-!
# Selectors

The selector of a method or message is cut into its parts when a tree is built, and put together
again from the parts and the number of parameters when it is compiled. Where it is laid out as a
part of a template, the arrows in it are taken for steps of the indentation.
-/

namespace ObjectiveJ

open Gen

variable {c : Char}

/-- A text has no colon in it, or its last character is one. -/
def Text.IsSelector (cs : List Char) : Prop := ':' ∉ cs ∨ cs.getLast? = some ':'

/-- The part of a selector that stands before a colon. -/
def Build.partOf (piece : List Char) : Value :=
  if piece.isEmpty then .null else identifier (.str (String.ofList piece))

theorem Message.partName_partOf (piece : List Char) :
    Message.partName (Build.partOf piece) = pure (.str (String.ofList piece)) := by
  cases piece <;> rfl

theorem Message.moreParts_partOf (pieces : List (List Char)) :
    Message.moreParts pieces.length (pieces.map Build.partOf) =
      pure (String.ofList (pieces.flatMap (· ++ [':']))) := by
  induction pieces with
  | nil => rfl
  | cons piece pieces ih =>
    have htext : textOf (.str (String.ofList piece)) = pure (String.ofList piece) := rfl
    simp only [List.length_cons, List.map_cons, moreParts, partName_partOf, pure_bind, ih, htext]
    exact congrArg pure (String.toList_inj.1 (by simp))

theorem Message.selector_selectorParts {s : String} (hs : Text.IsSelector s.toList)
    (earlier : Nat) :
    Message.selector (.list (Build.selectorParts s)) (s.toList.count ':') earlier =
      pure (.str s) := by
  by_cases hcolon : ':' ∈ s.toList
  · obtain ⟨pieces, last, hsplit, hcs, hlast, hlength⟩ := Text.split_spec ':' s.toList
    have hlast : last = [] := by
      rcases hs with hs | hs
      · exact absurd hcolon hs
      · rw [hcs, List.getLast?_append] at hs
        cases hend : last.getLast? with
        | none => exact List.getLast?_eq_none_iff.1 hend
        | some c =>
          rw [hend, Option.some_or, Option.some.injEq] at hs
          exact absurd (hs ▸ List.mem_of_getLast? hend) hlast
    have hparts : Build.selectorParts s = pieces.map Build.partOf := by
      simp [Build.selectorParts, hcolon, hsplit, Build.partOf]
    rw [hparts, ← hlength]
    cases pieces with
    | nil => simp [hcs, hlast] at hcolon
    | cons piece pieces =>
      have htext : s = String.ofList piece ++
          (":" ++ String.ofList (pieces.flatMap (· ++ [':']))) :=
        String.toList_inj.1 (by simp [hcs, hlast])
      have hfirst : firstPart (.list ((piece :: pieces).map Build.partOf)) =
          pure (Build.partOf piece) := rfl
      rw [selector, hfirst, pure_bind, partName_partOf, pure_bind]
      cases pieces with
      | nil =>
        rw [htext]
        rfl
      | cons next pieces =>
        have hmore := moreParts_partOf (next :: pieces)
        rw [htext]
        change (moreParts (pieces.length + 1) ((next :: pieces).map Build.partOf) >>= fun more =>
          ofOption (extended? (.str (String.ofList piece)) earlier (":" ++ more))) = _
        rw [← List.length_cons, hmore]
        rfl
  · have hcount : s.toList.count ':' = 0 := List.count_eq_zero.2 hcolon
    have hparts : Build.selectorParts s = [Build.identifier (.str s)] := by
      simp [Build.selectorParts, hcolon]
    rw [hparts, hcount]
    rfl

/-- The line of code that starts the entry of a method. -/
def Declaration.methodEntry (selector : String) : String :=
  "new objj_method(sel_getUid(\"" ++ selector ++ "\"),"

theorem Text.mem_toList_append (a b d : String) :
    c ∈ (a ++ b ++ d).toList ↔ c ∈ a.toList ∨ c ∈ b.toList ∨ c ∈ d.toList := by
  simp

theorem Declaration.mem_methodEntry (hc : c = '\n' ∨ c = '→') {selector : String} :
    c ∈ (methodEntry selector).toList ↔ c ∈ selector.toList := by
  have hstart : c ∉ "new objj_method(sel_getUid(\"".toList := by
    rcases hc with rfl | rfl <;> decide
  have hend : c ∉ "\"),".toList := by
    rcases hc with rfl | rfl <;> decide
  refine (Text.mem_toList_append ..).trans ?_
  rw [or_iff_right hstart, or_iff_left hend]

theorem Text.notMem_replaceChar {text : List Char} (h : c ∉ text) (cs : List Char) :
    c ∉ replaceChar c text cs := by
  intro hmem
  obtain ⟨d, _, hd⟩ := List.mem_flatMap.1 hmem
  split at hd
  · exact h hd
  · rename_i hne
    exact hne (List.mem_singleton.1 hd).symm

theorem Text.replaceChar_of_notMem {cs : List Char} (h : c ∉ cs) (text : List Char) :
    replaceChar c text cs = cs := by
  induction cs with
  | nil => rfl
  | cons d cs ih =>
    rw [List.mem_cons, not_or] at h
    rw [replaceChar, List.flatMap_cons, if_neg (Ne.symm h.1)]
    exact congrArg (d :: ·) (ih h.2)

/-- A line of a template is laid out as it is if and only if there is no arrow in it. -/
theorem Indenter.template?_eq_iff {i : Indenter} {step cs : List Char}
    (hstep : i.step.text? = some step) (hblank : '→' ∉ step ∧ '→' ∉ i.indentation)
    (hcs : cs.all Text.isBlank = false) (hline : '\n' ∉ cs) :
    i.template? cs false = some (i.indentation ++ cs) ↔ '→' ∉ cs := by
  have htemplate : i.template? cs false =
      some (Text.replaceChar '→' step (i.indentation ++ cs)) := by
    simp [template?, hstep, Text.split_of_notMem hline, templateLines, line, hcs, Text.join]
  rw [htemplate, Option.some.injEq]
  constructor
  · intro h hmem
    have hnone := Text.notMem_replaceChar hblank.1 (i.indentation ++ cs)
    rw [h] at hnone
    exact hnone (List.mem_append_right _ hmem)
  · intro h
    exact Text.replaceChar_of_notMem (fun hmem => (List.mem_append.1 hmem).elim hblank.2 h) step

/-- A selector is put together as it was cut, and its method passes the check of the number of its
types. The entry of the method is the last line of a template, and it is laid out with the selector
in it if and only if this has no arrow. -/
theorem selector_survives {s : String} (hs : Text.IsSelector s.toList) (hline : '\n' ∉ s.toList)
    (earlier : Nat) (types : List Value) (htypes : types.length = s.toList.count ':' + 1)
    (node : Value) {i : Indenter} {step : List Char} (hstep : i.step.text? = some step)
    (hblank : '→' ∉ step ∧ '→' ∉ i.indentation) :
    Build.messageParts? (.str s) = some (Build.selectorParts s) ∧
    Message.selector (.list (Build.selectorParts s)) (s.toList.count ':') earlier =
      pure (.str s) ∧
    Method.make? (.str s) types node =
      some (.ok { selector := .str s, key := .text s, types, node }) ∧
    (∀ t marker, Declaration.methodStart t marker (.str s) types = (do
      let buffer ← Declaration.startMethod (.ofMarker marker)
      templateAt buffer (s!"\n// {marker.display} ({(types.headD .null).display}){s}\n" ++
        Declaration.methodEntry s) t.location
      return buffer)) ∧
    (i.template? (Declaration.methodEntry s).toList false =
      some (i.indentation ++ (Declaration.methodEntry s).toList) ↔ '→' ∉ s.toList) := by
  refine ⟨rfl, Message.selector_selectorParts hs earlier, ?_, fun _ _ => rfl, ?_⟩
  · rw [Method.make?, htypes]
    change (if _ ≠ _ then _ else _) = _
    rw [if_neg (not_not_intro rfl)]
    rfl
  · have hstart : 'n' ∈ (Declaration.methodEntry s).toList :=
      (Text.mem_toList_append ..).2 (.inl (by decide))
    have hcs : (Declaration.methodEntry s).toList.all Text.isBlank = false :=
      List.all_eq_false.2 ⟨'n', hstart, by decide⟩
    rw [Indenter.template?_eq_iff hstep hblank hcs
      (mt (Declaration.mem_methodEntry (.inl rfl)).1 hline),
      Declaration.mem_methodEntry (.inr rfl)]

/-- The selector `::` of two parameters survives, and an arrow does not. -/
theorem selector_survives_colons :
    (Message.selector (.list (Build.selectorParts "::")) 2 0 = pure (.str "::")) ∧
      ({ step := .text [' '] } : Indenter).template? (Declaration.methodEntry "a→b:").toList false ≠
        some (Declaration.methodEntry "a→b:").toList := by
  let i : Indenter := { step := .text [' '] }
  refine ⟨?_, fun h => ?_⟩
  · exact (selector_survives (i := i) (.inr rfl) (by decide) 0 [.null, .null, .null] rfl .null rfl
      (by decide)).2.1
  · exact (selector_survives (i := i) (.inr rfl) (by decide) 0 [.null, .null] rfl .null rfl
      (by decide)).2.2.2.2.1 h (by decide)

/-- The text of a fragment of the code. -/
def Layout.textAt? (l : Layout) (n : Nat) : Option String :=
  (l.fragments 0)[n]?.bind (·.value.text?)

namespace Compiler

/-- The unit of a class with the method `- a→b {}`. -/
def arrowSelector : CompileUnit where
  program := .program [.classOf "A" .null .null .null [] [.method "a→b" []]]

/-- In the code the method has another selector. -/
theorem compile_arrowSelector : ∃ r, (unmapped.compile {} arrowSelector).1 = .ok r ∧
    r.success = true ∧ (Declaration.methodEntry "a    b").toList <:+: r.code.toList := by
  obtain ⟨r, hr, hsuccess⟩ := exists_ok_of_map (f := CompileResult.success) (b := true)
    (x := (unmapped.compile {} arrowSelector).1) (by decide +kernel)
  obtain ⟨indenter, layout, source, hindenter, hsource, hrun, -, -, hfinish⟩ := run_of_compile hr
  obtain ⟨text, htext, hends⟩ := endsAs_of_finish hfinish
  cases hindenter
  cases hsource
  have hentry : (Layout.run { format := {}, indenter := { step := .text "    ".toList } }
      (unmapped.outcome {} arrowSelector none none).2.trace.toList).toOption.bind (·.textAt? 5) =
      some ("\n    // - (id)a    b\n    " ++ Declaration.methodEntry "a    b") := by
    decide +kernel
  have hlayout : layout.textAt? 5 = _ :=
    (congrArg (fun x => x.toOption.bind (·.textAt? 5)) hrun).symm.trans hentry
  obtain ⟨f, hf, hvalue⟩ := Option.bind_eq_some_iff.1 hlayout
  have hinfix : (Declaration.methodEntry "a    b").toList <:+: text.toList := by
    rw [← Fragment.chars_of_text? htext]
    refine .trans ?_ (List.infix_of_mem_flatten
      (List.mem_map_of_mem (Array.mem_toList_iff.2 (Array.mem_of_getElem? hf))))
    rw [hvalue, Option.getD_some, String.toList_append]
    exact (List.suffix_append ..).isInfix
  exact ⟨r, hr, hsuccess, hinfix.trans (isPrefix_of_endsAs hends).isInfix⟩

end Compiler

end ObjectiveJ
