import ObjectiveJ.Format.Resolve

/-!
# Types that several groups list

A type belongs to one group only: the one declared last among those that list it (`groups_ofJson`).
A choice looks under this group for a neighbour that has no entry of its own, so an entry for
another group that lists the type is passed over. A group is *honoured* for a type if its entries
always count, and `honours_iff` says which groups are.
-/

namespace ObjectiveJ.Format

/-- The types that an entry of a specification lists as a group. -/
def listed (key : String) (entry : Json) : List Key :=
  match entry with
  | .obj values =>
    if key ≠ "*" ∧ Text.startsWith ['*'] key.toList = true then
      (((values.lookup "nodes").getD (.arr [])).items?.getD []).filterMap Json.key?
    else []
  | _ => []

/-- The groups that list a type, in the order in which they are declared. -/
def groupsListing (entries : List (String × Json)) (type : Key) : List String :=
  (entries.filter fun (key, entry) => type ∈ listed key entry).map (·.1)

variable {f g : Format} {name key group item : String} {type : Key} {entry : Json}
  {nodes : List Json} {entries values : List (String × Json)}

/-! ### The group of a type -/

theorem groups_giveMembers (h : nodes.foldlM (giveMember group values) f = .ok g) :
    g.groups.get? type =
      if type ∈ nodes.filterMap Json.key? then some group else f.groups.get? type := by
  induction nodes generalizing f with
  | nil =>
    cases h
    simp
  | cons member rest ih =>
    rw [List.foldlM_cons, giveMember] at h
    cases hkey : member.key? with
    | none =>
      rw [hkey] at h
      cases h
    | some other =>
      rw [hkey] at h
      rw [ih h, List.filterMap_cons_some hkey]
      by_cases hother : type = other
      · simp [hother]
      · simp [hother, Table.get?_set_ne _ hother]

theorem groups_addEntry (h : f.addEntry key entry = .ok g) :
    g.groups.get? type = if type ∈ listed key entry then some key else f.groups.get? type := by
  unfold addEntry at h
  cases entry with
  | obj values =>
    dsimp only at h
    by_cases hstar : key = "*"
    · rw [if_pos hstar] at h
      cases h
      simp [listed, hstar, give]
    · by_cases hgroup : Text.startsWith ['*'] key.toList = true
      · simp only [hstar, hgroup, if_false, Bool.not_true, Bool.false_eq_true] at h
        cases hnodes : ((values.lookup "nodes").getD (.arr [])).items? with
        | none =>
          rw [hnodes] at h
          cases h
        | some nodes =>
          rw [hnodes] at h
          rw [groups_giveMembers h]
          simp [listed, hstar, hgroup, hnodes]
      · simp only [hstar, hgroup, if_false, Bool.not_false, if_true] at h
        cases h
        simp [listed, hgroup, give]
  | _ => cases h

theorem groups_addEntries
    (h : entries.foldlM (fun f (key, entry) => f.addEntry key entry) f = .ok g) :
    g.groups.get? type = (groupsListing entries type).getLast?.or (f.groups.get? type) := by
  induction entries generalizing f with
  | nil =>
    cases h
    rfl
  | cons first rest ih =>
    obtain ⟨key, entry⟩ := first
    rw [List.foldlM_cons] at h
    dsimp only at h
    cases hfirst : f.addEntry key entry with
    | error e =>
      rw [hfirst] at h
      cases h
    | ok f' =>
      rw [hfirst] at h
      rw [ih h, groups_addEntry hfirst, groupsListing, groupsListing]
      by_cases hlisted : type ∈ listed key entry
      · rw [if_pos hlisted, List.filter_cons_of_pos (by simpa using hlisted), List.map_cons,
          List.getLast?_cons]
        cases (List.map _ (List.filter _ rest)).getLast? <;> rfl
      · rw [if_neg hlisted, List.filter_cons_of_neg (by simpa using hlisted)]

/-- The group of a type is the last one that lists it. -/
theorem groups_ofJson (h : ofJson name (.obj entries) = .ok f) :
    f.groups.get? type = (groupsListing entries type).getLast? := by
  cases entries with
  | nil =>
    cases h
    rfl
  | cons first rest =>
      rw [groups_addEntries h]
      exact Option.or_none

/-! ### Entries of groups in a choice -/

/-- What an entry of a choice comes to: a text or another choice. -/
def entryChoice? (f : Format) (ancestry : Option Ancestry) (type : String) (fallback : Option Json)
    (parents : Nat) : Json → Option Choice
  | .str s => some (.text s)
  | .obj table => some (f.resolve ancestry type table fallback parents)
  | _ => none

/-- A group is honoured for a type of format nodes: wherever a choice has an entry for the group,
and the neighbour is of this type and has no entry of its own, the choice comes to what the group's
entry comes to. -/
def Honours (f : Format) (group item : String) : Prop :=
  ∀ {ancestry type table fallback parents branch neighbor parents' entry outcome},
    branch? ancestry type table parents = some ⟨.obj branch, neighbor, parents'⟩ →
    neighbor.elim (some "null") nodeType? = some item →
    given? branch item = none → given? branch group = some entry →
    f.entryChoice? ancestry type ((table.lookup "*").or fallback) parents' entry = some outcome →
    f.resolve ancestry type table fallback parents = outcome

theorem honours_of_groups (h : f.groups.get? (.text item) = some group) : f.Honours group item := by
  intro ancestry type table fallback parents branch neighbor parents' entry outcome
    hbranch hitem hown hgroup houtcome
  have hentry : (given? branch item).or ((f.groups.get? (.text item)).bind (given? branch)) =
      some entry := by
    rw [hown, h, Option.none_or, Option.bind_some, hgroup]
  rw [resolve_eq]
  cases entry with
  | str s =>
    cases houtcome
    simp [step, hbranch, hitem, hentry]
  | obj next =>
    cases houtcome
    simp [step, hbranch, hitem, hentry]
  | _ => cases houtcome

/-- No type of format nodes but `*` has a name like that of a group. -/
theorem item_ne_of_listed (hitem : nodeType? name = some item) (h : type ∈ listed group entry) :
    item ≠ group := by
  have hplain : ∀ p ∈ typeMap, p.2 = "*" ∨ Text.startsWith ['*'] p.2.toList =
      false := by decide +kernel
  rintro rfl
  unfold listed at h
  split at h
  · split at h
    · rename_i hgroup
      rcases hplain _ (Table.mem_of_lookup hitem) with hstar | hplain
      · exact hgroup.1 hstar
      · simp [hgroup.2] at hplain
    · cases h
  · cases h

/-- The entries of a group count for a type that it lists if and only if no group declared after it
lists the type too. -/
theorem honours_iff (hf : ofJson name (.obj entries) = .ok f) {node : String}
    (hitem : nodeType? node = some item) (hgroup : group ∈ groupsListing entries (.text item)) :
    f.Honours group item ↔ (groupsListing entries (.text item)).getLast? = some group := by
  have hne {g : String} (hg : g ∈ groupsListing entries (.text item)) : item ≠ g := by
    obtain ⟨entry, hentry, rfl⟩ := List.mem_map.1 hg
    exact item_ne_of_listed hitem (by simpa using (List.mem_filter.1 hentry).2)
  constructor
  · intro h
    have hlast := List.getLast?_eq_some_getLast (List.ne_nil_of_mem hgroup)
    generalize (groupsListing entries (.text item)).getLast _ = last at hlast
    have hgroups := (groups_ofJson hf).trans hlast
    by_cases hsame : last = group
    · rw [hlast, hsame]
    · -- a choice with an entry for each of the two groups takes that of the last one
      let branch := [(group, Json.str "1"), (last, Json.str "2")]
      let around : Ancestry := { parents := [⟨⟨0, node, .other⟩, []⟩] }
      have hbranch : branch? (some around) "" [("$parent", .obj branch)] 0 =
          some ⟨.obj branch, some node, 1⟩ := rfl
      have hown : given? branch item = none := by
        simp [branch, given?, List.lookup_cons, beq_eq_false_iff_ne.2 (hne hgroup),
          beq_eq_false_iff_ne.2 (hne (List.mem_of_getLast? hlast))]
      have hfirst : f.resolve (some around) "" [("$parent", .obj branch)] none 0 = .text "1" :=
        h hbranch hitem hown (show _ = some (.str "1") by simp [branch, given?]) rfl
      have hsecond : f.resolve (some around) "" [("$parent", .obj branch)] none 0 = .text "2" :=
        honours_of_groups hgroups hbranch hitem hown (show _ = some (.str "2") by
          simp [branch, given?, List.lookup_cons, beq_eq_false_iff_ne.2 hsame]) rfl
      exact absurd (hfirst.symm.trans hsecond) (by decide)
  · intro h
    exact honours_of_groups ((groups_ofJson hf).trans h)

/-- A specification in which two groups list `if`, and a `return` looks for the first of them. -/
def overlapping : List (String × Json) := [
  ("*statement", .obj [("nodes", .arr [.str "var", .str "if"]), ("before", .str "\n")]),
  ("*control", .obj [("nodes", .arr [.str "if", .str "while"]), ("before-left-parens", .str " ")]),
  ("return", .obj [("before",
    .obj [("$previous", .obj [("*statement", .str "\n"), ("*", .str "\n\n")])])])]

theorem overlapping_honours : ∃ f, ofJson "<format>" (.obj overlapping) = .ok f ∧
    f.Honours "*control" "if" ∧ ¬ f.Honours "*statement" "if" ∧ f.Honours "*statement" "var" := by
  have hif : groupsListing overlapping (.text "if") = ["*statement",
      "*control"] := by decide +kernel
  have hvar : groupsListing overlapping (.text "var") = ["*statement"] := by decide +kernel
  have hf : ofJson "<format>" (.obj overlapping) = .ok _ := rfl
  refine ⟨_, hf, ?_, ?_, ?_⟩
  · exact (honours_iff hf (show nodeType? "IfStatement" = _ by decide) (by simp [hif])).2
      (by simp [hif])
  · rw [honours_iff hf (show nodeType? "IfStatement" = _ by decide) (by simp [hif]), hif]
    decide
  · exact (honours_iff hf (show nodeType? "VariableDeclaration" = _ by decide) (by simp [hvar])).2
      (by simp [hvar])

/-- Before a `return` that follows an `if` there is not what the choice has for the first group. -/
theorem overlapping_return :
    let around := ((({} : Ancestry).push "Program" .other).push "IfStatement" .other).pop
      "IfStatement"
    "*statement" ∈ groupsListing overlapping (.text "if") ∧
      (ofJson "<format>" (.obj overlapping)).toOption.bind (fun f =>
        (f.valueFor (some (around.push "ReturnStatement" .other)) "ReturnStatement"
          "before").str?) = some "\n\n" := by
  decide +kernel

end ObjectiveJ.Format
