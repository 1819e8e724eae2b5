import ObjectiveJ.Proofs.Code.Enclose

/-!
# What statements write

The code of a statement has nested brackets, and the parts of the statement have their code in it
once. A file may be wrapped in a function, and then stands in a frame of its own.
-/

namespace ObjectiveJ

open Gen Text

variable {vs : List Value} {keyword : String}

variable {A : Account} {p : Spot} {o : Bool} {w : List Char} {n : Multiset Tree} {v : Value}
  {t : Tree} {walk : Walker} {site : Site} {s : GenState} {α β : Type} (frame : FrameId)

/-! ### Statements without parts -/

namespace Puts

theorem empty : Puts A (site.spot o) (Statement.empty t site) [] 0 :=
  (textAt _ fun _ => .refl _).conv (fun _ => .of_residue rfl) fun _ => rfl

theorem jump (hkeyword : Nests keyword) (ht : Fits A (.tree t)) :
    Puts A (site.spot o) (Statement.jump t keyword site) [] 0 := by
  refine .start <| .seq (textAt (w := []) _ fun _ => hkeyword) <| .ofOption fun label hlabel => ?_
  split
  · refine .seq (hook _ (by decide)) <| .ofOption fun name hname => ?_
    exact .only (writeAt _ ((ht.field hlabel).part hname).clear)
  · exact .done _ rfl (by simp)

theorem debugger : Puts A (site.spot o) (Statement.debugger t site) [] 0 :=
  .start <| .seq (textAt _ fun _ => .refl _) <| .last (rests_judges.warnIf ..).puts rfl (by simp)

theorem semicolon : Puts A (site.spot o) (Statement.semicolon site) [] 0 :=
  .start <| .seq (hook _ (by decide)) <| .seq verbatim <|
    .last (hook _ (by decide)) rfl (by simp)

end Puts

theorem Import.nests_text {i : Import} (h : Nests i.path) : Nests i.text := by
  unfold Import.text
  split <;> exact h.between (.of_residue rfl)

theorem Import.nests_path? {path : String} (h : v.Clear) (hpath : Import.path? v = some path) :
    Nests path := by
  unfold Import.path? at hpath
  split at hpath
  · cases hpath
    exact .refl _
  · obtain ⟨x, hx, rfl⟩ := Option.map_eq_some_iff.1 hpath
    exact Value.nests_display _ (Value.clear_part? h hx)

theorem Puts.importing (ht : Fits A (.tree t)) :
    Puts A (site.spot o) (Statement.importing t site) [] 0 := by
  refine .start <| .ofOption fun filename hfilename => .ofOption fun path hpath =>
    .ofOption fun isLocal _ => ?_
  exact .only (textAt _ fun hclear => (SameBrackets.refl _).texts
    (Import.nests_text (Import.nests_path? ((ht.field hfilename).clear hclear) hpath)))

/-! ### Announcements -/

theorem Rests.announceName {name : Value} (hname : A.clear → name.Clear) (frame : FrameId)
    (identifier : Value) : Rests A (Statement.announceName t frame identifier name) :=
  ⟨.announceName hname _ _ _, Quiets.calms (quiets_records.announceName _ _ _ _)⟩

theorem Rests.announceNames (hvs : ∀ v ∈ vs, Fits A v) :
    Rests A (Statement.announceNames t frame vs) := by
  induction vs with
  | nil => exact rests_judges.pure _
  | cons v rest ih =>
    have ih := ih fun x hx => hvs x (.tail _ hx)
    refine .ofOption fun name hname => ?_
    refine rests_judges.bind (rests_judges.isUnique ..) fun unique => ?_
    have hend (type : Option String) : Rests A (do
        let more ← Statement.announceNames t frame rest
        return (name.display :: more.1, type.toList ++ more.2)) :=
      rests_judges.bind ih fun _ => rests_judges.pure _
    cases unique with
    | true =>
      have hclear := ((hvs v (.head _)).part hname).clear
      exact rests_judges.bind (.announceName hclear ..) fun type => hend type
    | false => exact hend none

theorem Gives.announceNames (hvs : ∀ v ∈ vs, Fits A v) :
    Gives A (Statement.announceNames t frame vs) fun r => (∀ x ∈ r.1, Nests x) ∧
    ∀ x ∈ r.2, Nests x := by
  induction vs with
  | nil => exact .pure fun _ => ⟨by simp, by simp⟩
  | cons v rest ih =>
    have ih := ih fun x hx => hvs x (.tail _ hx)
    refine .ofOption fun name hname => .skip fun unique => ?_
    have hshown (hclear : A.clear) : Nests name.display :=
      Value.nests_display _ (((hvs v (.head _)).part hname).clear hclear)
    have hend (type : Option String) (htype : A.clear → ∀ x ∈ type.toList, Nests x) : Gives A (do
        let more ← Statement.announceNames t frame rest
        return (name.display :: more.1, type.toList ++ more.2))
        fun r => (∀ x ∈ r.1, Nests x) ∧ ∀ x ∈ r.2, Nests x :=
      .bind ih fun more hmore => .pure fun hclear =>
        ⟨List.forall_mem_cons.2 ⟨hshown hclear, (hmore hclear).1⟩,
          List.forall_mem_append.2 ⟨htype hclear, (hmore hclear).2⟩⟩
    cases unique with
    | false => exact hend none fun _ => by simp
    | true =>
      refine .bind (R := fun type => ∀ x ∈ type.toList, Nests x) ?_ fun type htype =>
        hend type htype
      unfold Statement.announceName
      split
      · exact .skip fun _ => .skip fun _ => .skip fun _ => .pure fun _ => by simp
      · exact .skip fun _ => .skip fun _ => .skip fun _ => .pure fun _ => by simp
      · exact .skip fun _ => .pure fun hclear => by simpa using hshown hclear

theorem nests_typeLine {name : String} (h : Nests name) : Nests (Statement.typeLine name) :=
  h.between (.of_residue rfl)

theorem Puts.announce (hkeyword : Nests keyword) (ht : Fits A (.tree t)) :
    Puts A (site.spot o) (Statement.announce t keyword site) [] 0 := by
  refine .start <| .fieldItems ht fun vs _ hvs => ?_
  refine .rest_gives (.announceNames _ hvs) (.announceNames _ hvs) fun ⟨names, types⟩ hnested => ?_
  dsimp only
  refine .seq (textAt (w := []) _ fun hclear => ?_) ?_
  · split
    · exact .refl _
    · exact (hkeyword.around).texts
        (Nests.intercalate nests_comma (hnested hclear).1)
  split
  · refine .only (template (w := []) fun hclear => Nests.append (.of_residue rfl) ?_)
    refine Nests.intercalate (.of_residue rfl) fun x hx => ?_
    obtain ⟨y, hy, rfl⟩ := List.mem_map.1 hx
    exact nests_typeLine ((hnested hclear).2 y hy)
  · exact .done _ rfl (by simp)

/-! ### Statements with parts -/

theorem Rests.undeclare (key : Key) : Rests A (modifyFrames (·.undeclare frame key)) :=
  modifyFrame (fun _ _ => rfl) (fun _ _ => rfl) fun _ _ _ h => h

section Walks

variable (hw : Writes A walk)

include hw

namespace Puts

theorem caseStatement (hv : Fits A v) :
    Puts A (site.spot o) (Statement.caseStatement walk site v) [] (v.tally A o) :=
  .start <| .idle (rests_judges.discard (rests_judges.treeOf v)) <|
    .only (enclose (by decide) _ (hw.plain hv))

theorem caseBody (isLast : Bool) (hv : Fits A v) :
    Puts A (site.spot o) (Statement.caseBody walk isLast v site) []
      (v.tallyOf A o "consequent") := by
  refine .start <| .seq (formatted (by decide)) <| .ofOption fun c hc => ?_
  split
  · refine .seq indent <| .items (hv.part hc) fun cs hcs hfits => ?_
    refine .seq (forM fun v hv => caseStatement hw (hfits v hv)) <| .seq dedent ?_
    have htally : v.tallyOf A o "consequent" = (cs.map (Value.tally A o)).sum := by
      rw [Value.tallyOf_of_part? hc, Value.tally_items? hcs]
    split
    · exact .last (hook _ (by decide)) rfl fun _ => by simp [htally]
    · exact .done _ rfl fun _ => by simp [htally]
  · rename_i hfalse
    have hzero : c.tally A o = 0 := Value.tally_of_not_truthy (by simpa using hfalse)
    exact .done _ rfl fun _ => by simp [Value.tallyOf_of_part? hc, hzero]

theorem case (isLast : Bool) (hv : Fits A v) (hcase : A.once → v.isNode .switchCase = true) :
    Puts A (site.spot o) (Statement.case walk isLast v site) [] (v.tally A o) := by
  refine .start <| .ofOption fun test htest => .seq (hook _ (by decide)) ?_
  have hend : Puts A (site.spot o) (Statement.caseBody walk isLast v site) [] _ :=
    caseBody hw isLast hv
  have htally (honce : A.once) : v.tally A o = test.tally A o + v.tallyOf A o "consequent" := by
    rw [Value.tally_of_isNode (hcase honce) fun t h => by simp [Tree.isEffect, h]]
    simp [NodeType.codeParts, NodeType.codeFields, Value.tallyOf_of_part? htest]
  dsimp only
  split
  · rename_i hnull
    refine .seq (nested _ rfl) <| .last hend rfl fun honce => ?_
    simp [htally honce, Value.tally_of_isNull hnull]
  · refine .seq (nested _ rfl) ?_
    exact .seq (hw.plain (hv.part htest)) <| .last hend rfl fun honce => by simp [htally honce]

theorem cases (hvs : ∀ v ∈ vs, Fits A v) (hcase : A.once → ∀ v ∈ vs, v.isNode .switchCase = true) :
    Puts A (site.spot o) (Statement.cases walk vs site) [] (vs.map (Value.tally A o)).sum := by
  induction vs with
  | nil => exact .pure _
  | cons v rest ih =>
    have hrest := ih (fun x hx => hvs x (.tail _ hx)) fun honce x hx => hcase honce x (.tail _ hx)
    refine .start <| .seq (case hw _ (hvs v (.head _)) fun honce => hcase honce v (.head _)) ?_
    exact .last hrest rfl (by simp)

theorem catching (hv : Fits A v) : Puts A (site.spot o) (Statement.catching walk v site) []
    (v.tallyOf A o "body") := by
  refine .start <| .ofOption fun param hparam => .ofOption fun name hname => ?_
  refine .rest (rests_judges.key name) fun key => .look fun s _ _ => ?_
  refine .idle (rests_judges.declare ..) <| .seq (hook _ (by decide)) ?_
  refine .seq (nested _ rfl) <| .seq (leftParens _) ?_
  refine .seq (writeAt _ ((hv.part hparam).part hname).clear) <| .seq (rightParens _) ?_
  refine .ofOption fun body hbody => .seq (hw.plain (hv.part hbody)) ?_
  cases s.frames.localVar site.frame key with
  | none =>
    exact .last (Rests.undeclare ..).puts rfl fun _ => by simp [Value.tallyOf_of_part? hbody]
  | some x =>
    exact .last (rests_judges.declare ..).puts rfl fun _ => by simp [Value.tallyOf_of_part? hbody]

omit hw in
theorem checkName (id name : Value) (key : Key) :
    Rests A (Statement.checkName site.frame id name key) := by
  unfold Statement.checkName
  dsimp only
  split
  · exact rests_judges.warned fun hA => hA.warning ..
  refine rests_judges.look (fun s s' hs => by rw [hs.isSome_currentMethod]) fun s => ?_
  split
  · exact rests_judges.error ..
  · exact .shadowing ..

theorem introduce (kind : VarKind) (id : Value) {name : Value} (hname : A.clear → name.Clear)
    (hv : Fits A v) (hdeclarator : A.once → v.isNode .variableDeclarator = true) :
    Puts A (site.spot o) (Statement.introduce walk kind v id name site) [] (v.tally A o) := by
  refine .start <| .rest (rests_judges.key name) fun key => .idle (checkName id name key) ?_
  refine .idle (rests_judges.declare ..) ?_
  refine .seq (writeAt _ hname) <| .ofOption fun init hinit => ?_
  have htally (honce : A.once) : v.tally A o = init.tally A o := by
    rw [Value.tally_of_isNode (hdeclarator honce) fun t h => by simp [Tree.isEffect, h]]
    simp [NodeType.codeParts, NodeType.codeFields, Value.tallyOf_of_part? hinit]
  split
  · refine .seq (formatted (by decide)) ?_
    exact .last (hw.plain (hv.part hinit)) rfl fun honce => by simp [htally honce]
  · rename_i hnull
    refine .done _ rfl fun honce => ?_
    simp [htally honce, Value.tally_of_isNull (v := init) (by simpa using hnull)]

theorem declarator (kind : VarKind) (isFirst : Bool) (hv : Fits A v)
    (hdeclarator : A.once → v.isNode .variableDeclarator = true) :
    Puts A (site.spot o) (Statement.declarator walk kind isFirst v site) [] (v.tally A o) := by
  refine .start <| .ofOption fun id hid => .ofOption fun name hname => ?_
  have hcheck : Puts A (site.spot o) (Statement.introduce walk kind v id name site) [] _ :=
    introduce hw kind id ((hv.part hid).part hname).clear hv hdeclarator
  cases isFirst with
  | true => exact .only hcheck
  | false => exact .seq (comma _) <| .last hcheck rfl (by simp)

theorem declarators (kind : VarKind) (isFirst : Bool) (hvs : ∀ v ∈ vs, Fits A v)
    (hdeclarator : A.once → ∀ v ∈ vs, v.isNode .variableDeclarator = true) :
    Puts A (site.spot o) (Statement.declarators walk kind isFirst vs site) []
      (vs.map (Value.tally A o)).sum := by
  induction vs generalizing isFirst with
  | nil => exact .pure _
  | cons v rest ih =>
    have hrest := ih false (fun x hx => hvs x (.tail _ hx))
      fun honce x hx => hdeclarator honce x (.tail _ hx)
    refine .start <| .seq (declarator hw kind isFirst (hvs v (.head _)) fun honce =>
      hdeclarator honce v (.head _)) ?_
    exact .last hrest rfl (by simp)

variable (ht : Fits A (.tree t))

include ht

theorem block (closes : Bool) :
    Puts A (site.spot o) (Statement.block walk t closes site) [] (t.tallyOf A o "body") := by
  have hend : Puts A (site.spot o) (do
      if closes then Gen.closeFrame site.frame site.buffer
      Gen.formatted site.buffer site.type "\x7d" "right-brace") ['\x7d'] 0 := by
    cases closes with
    | true => exact .start <| .seq (closeFrame _) <| .last (formatted (by decide)) rfl (by simp)
    | false => exact formatted (by decide)
  refine .start <| .seq (formatted (by decide)) <| .fieldItems ht fun vs hitems hvs => ?_
  exact .seq (inTurn hw hvs) <| .last hend rfl fun _ => by simp [Tree.tallyOf_items? hitems]

theorem program : Puts A (site.spot o) (Statement.program walk t site) []
    (t.tallyOf A o "body") := by
  refine .start <| .look fun s _ _ => ?_
  split
  · refine .newScope rfl rfl rfl fun file => ?_
    let inner : Site := { site with frame := file, type := "BlockStatement" }
    have hbody : Puts A (inner.spot o)
        (Gen.within "BlockStatement" .other (Statement.block walk t true inner)) []
        (t.tallyOf A o "body") := within _ _ (block hw ht true)
    refine .seq verbatim <| .seq hbody ?_
    refine .seq verbatim <| .idle (.settle file) ?_
    exact .last (Rests.settle _).puts rfl fun _ => by simp
  · refine .fieldItems ht fun vs hitems hvs => .seq (inTurn hw hvs) ?_
    exact .last (Rests.settle _).puts rfl fun _ => by simp [Tree.tallyOf_items? hitems]

theorem expression :
    Puts A (site.spot o) (Statement.expression walk t site) [] (t.tallyOf A o "expression") :=
  .field ht hw.plain

theorem branch : Puts A (site.spot o) (Statement.branch walk t site) []
      (t.tallyOf A o "test" + t.tallyOf A o "consequent" + t.tallyOf A o "alternate") := by
  refine .start <| .seq (nested _ rfl) <|
    .field ht (fun h => parenthesized (hw.plain h) _) fun _ => ?_
  refine .field ht (dependent hw) fun _ => .ofOption fun y hy => ?_
  have htally : t.tallyOf A o "alternate" = y.tally A o := Tree.tallyOf_of_get? hy
  split
  · rename_i hnull
    exact .done _ rfl fun _ => by simp [htally, Value.tally_of_isNull hnull]
  refine .seq (formatted (by decide)) ?_
  split
  · rename_i hnode
    exact .last (hw .elseIf y site o (ht.field hy) fun _ => hnode) rfl fun _ => by simp [htally]
  · refine .idle (rests_judges.discard (rests_judges.treeOf y)) ?_
    exact .last (enclose (by decide) _ (dependent hw (ht.field hy))) rfl fun _ => by simp [htally]

theorem labeled : Puts A (site.spot o) (Statement.labeled walk t site) []
    (t.tallyOf A o "body") := by
  refine .start <| .ofOption fun label hlabel => .ofOption fun name hname => ?_
  refine .seq (writeAt _ ((ht.field hlabel).part hname).clear) <| .seq (formatted (by decide)) ?_
  exact .last (.field ht hw.plain) rfl (by simp)

theorem control {head : String} (hkeyword : Nests keyword) :
    Puts A (site.spot o) (Statement.control walk t keyword head site) []
      (t.tallyOf A o head + t.tallyOf A o "body") := by
  refine .start <| .seq (textAt (w := []) _ fun _ => hkeyword) ?_
  exact .field ht (fun h => parenthesized (hw.plain h) _) fun _ =>
    .last (.field ht (dependent hw)) rfl (by simp)

theorem switch (htype : t.type = .switchStatement) :
    Puts A (site.spot o) (Statement.switch walk t site) []
      (t.tallyOf A o "discriminant" + t.tallyOf A o "cases") := by
  refine .start <| .seq (nested _ rfl) <|
    .field ht (fun h => parenthesized (hw.plain h) _) fun _ => ?_
  refine .seq (formatted (by decide)) <| .fieldItems ht fun vs hitems hvs => ?_
  have hcase (honce : A.once) : ∀ v ∈ vs, v.isNode .switchCase = true := by
    have hgrammar := ht.grammatical honce
    rw [Tree.isGrammatical, htype] at hgrammar
    exact Tree.itemsAre_mem hgrammar hitems
  refine .seq (cases hw hvs hcase) ?_
  exact .last (formatted (by decide)) rfl fun _ => by simp [Tree.tallyOf_items? hitems]

theorem returning :
    Puts A (site.spot o) (Statement.returning walk t site) [] (t.tallyOf A o "argument") := by
  refine .start <| .ofOption fun x hx => ?_
  split
  · rename_i hnull
    exact .last (nested _ rfl) rfl
      fun _ => by simp [Tree.tallyOf_of_get? hx, Value.tally_of_isNull hnull]
  · exact .seq (nested _ rfl) <|
      .last (hw.plain (ht.field hx)) rfl fun _ => by simp [Tree.tallyOf_of_get? hx]

theorem throwing :
    Puts A (site.spot o) (Statement.throwing walk t site) [] (t.tallyOf A o "argument") :=
  .start <| .seq (nested _ rfl) <| .last (.field ht hw.plain) rfl (by simp)

theorem finalizing : Puts A (site.spot o) (Statement.finalizing walk t site) []
    (t.tallyOf A o "finalizer") := by
  refine .start <| .ofOption fun x hx => ?_
  split
  · refine .seq (hook _ (by decide)) ?_
    exact .seq (text (w := []) fun _ => .of_residue rfl) <|
      .last (hw.plain (ht.field hx)) rfl fun _ => by simp [Tree.tallyOf_of_get? hx]
  · rename_i hnull
    exact .done _ rfl fun _ => by
      simp [Tree.tallyOf_of_get? hx, Value.tally_of_isNull (v := x) (by simpa using hnull)]

theorem trying (htype : t.type = .tryStatement) :
    Puts A (site.spot o) (Statement.trying walk t site) []
      (t.tallyOf A o "block" + t.tallyOf A o "handler" + t.tallyOf A o "finalizer") := by
  have hend : Puts A (site.spot o) (Statement.finalizing walk t site) [] _ := finalizing hw ht
  refine .start <| .seq (nested _ rfl) ?_
  refine .field ht hw.plain fun _ => .ofOption fun handler hhandler => ?_
  have htally : t.tallyOf A o "handler" = handler.tally A o := Tree.tallyOf_of_get? hhandler
  split
  · rename_i hnull
    refine .seq (catching hw (ht.field hhandler)) <| .last hend rfl fun honce => ?_
    have hgrammar := ht.grammatical honce
    rw [Tree.isGrammatical, htype] at hgrammar
    have hcatch : handler.isNode .catchClause = true := by
      have hnull : handler.isNull = false := by simpa using hnull
      simpa [hnull] using Tree.fieldIs_of_get? hgrammar hhandler
    rw [htally, Value.tally_of_isNode hcatch fun t h => by simp [Tree.isEffect, h]]
    simp [NodeType.codeParts, NodeType.codeFields]
  · rename_i hnull
    exact .last hend rfl fun _ => by
      simp [htally, Value.tally_of_isNull (v := handler) (by simpa using hnull)]

theorem doWhile : Puts A (site.spot o) (Statement.doWhile walk t site) []
      (t.tallyOf A o "body" + t.tallyOf A o "test") := by
  refine .start <| .seq (nested _ rfl) <| .field ht (dependent hw) fun _ => ?_
  exact .seq (formatted (by decide)) <|
    .last (.field ht (fun h => parenthesized (hw.plain h) _)) rfl (by simp)

theorem optionalPart (name : String) :
    Puts A (site.spot o) (Statement.optionalPart walk t name site) [] (t.tallyOf A o name) := by
  refine .start <| .ofOption fun x hx => ?_
  split
  · exact .last (hw.plain (ht.field hx)) rfl fun _ => by simp [Tree.tallyOf_of_get? hx]
  · rename_i hnull
    exact .done _ rfl fun _ => by
      simp [Tree.tallyOf_of_get? hx, Value.tally_of_isNull (v := x) (by simpa using hnull)]

theorem forLoop : Puts A (site.spot o) (Statement.forLoop walk t site) []
      (t.tallyOf A o "init" + t.tallyOf A o "test" + t.tallyOf A o "update" +
        t.tallyOf A o "body") := by
  refine .start <| .seq (nested _ rfl) ?_
  refine .seq (leftParens _) <| .seq (optionalPart hw ht "init") <| .seq semicolon ?_
  refine .seq (optionalPart hw ht "test") <| .seq semicolon ?_
  refine .seq (optionalPart hw ht "update") <| .seq (rightParens _) ?_
  exact .last (.field ht (dependent hw)) rfl (by simp)

theorem forIn : Puts A (site.spot o) (Statement.forIn walk t site) []
      (t.tallyOf A o "left" + t.tallyOf A o "right" + t.tallyOf A o "body") := by
  refine .start <| .seq (nested _ rfl) <| .seq (leftParens _) <| .field ht hw.plain fun _ => ?_
  refine .seq (formatted (by decide)) <| .field ht hw.plain fun _ => ?_
  exact .seq (rightParens _) <| .last (.field ht (dependent hw)) rfl (by simp)

theorem vars (htype : t.type = .variableDeclaration) :
    Puts A (site.spot o) (Statement.vars walk t site) [] (t.tallyOf A o "declarations") := by
  refine .start <| .look fun s _ _ => ?_
  refine .seq (nested _ rfl) <| .fieldItems ht fun vs hitems hvs => ?_
  have hdeclarator (honce : A.once) : ∀ v ∈ vs, v.isNode .variableDeclarator = true := by
    have hgrammar := ht.grammatical honce
    rw [Tree.isGrammatical, htype] at hgrammar
    exact Tree.itemsAre_mem hgrammar hitems
  exact .last (declarators hw _ true hvs hdeclarator) rfl fun _ =>
    by simp [Tree.tallyOf_items? hitems]

end Puts

end Walks

end ObjectiveJ
