import ObjectiveJ.Proofs.Code.Aside

/-!
# What messages and literals write

The receiver of a message is written once, or it is a plain variable. The arguments follow. An array
or dictionary is made of its items, each of which is written once.
-/

namespace ObjectiveJ

open Gen Text

variable {location : Option Location} {vs : List Value} {temp : String}

variable {A : Account} {p : Spot} {o : Bool} {b : Nat} {c : Code} {w W : List Char}
  {m n N : Multiset Tree}
  {v : Value} {t : Tree} {walk : Walker} {site : Site} {s : GenState} {α β : Type}

/-! ### Selectors -/

theorem Value.clear_null : Value.null.Clear := by
  unfold Value.Clear AllClear
  exact fun _ h => nomatch h

theorem Gives.partName (hv : A.clear → v.Clear) : Gives A (Message.partName v) Value.Clear := by
  unfold Message.partName
  split
  · exact .pure fun _ => Value.clear_str.2 (by decide)
  · exact .option fun _ hx hclear => Value.clear_part? (hv hclear) hx

theorem Gives.moreParts (n : Nat) (hvs : A.clear → ∀ v ∈ vs, v.Clear) :
    Gives A (Message.moreParts n vs) fun r => IsClear r.toList := by
  induction n generalizing vs with
  | zero => exact .pure fun _ => by decide
  | succ n ih =>
    cases vs with
    | nil =>
      refine .bind (ih hvs) fun more hmore => .pure fun hclear => ?_
      rw [String.toList_append]
      exact IsClear.append (by decide) (hmore hclear)
    | cons v rest =>
      refine .bind (.partName fun hclear => hvs hclear v (.head _)) fun name hname => ?_
      refine .ofOption fun shown hshown => ?_
      refine .bind (ih fun hclear x hx => hvs hclear x (.tail _ hx)) fun more hmore => ?_
      refine .pure fun hclear => ?_
      rw [String.toList_append, String.toList_append]
      exact ((Value.clear_text? (hname hclear) hshown).append (by decide)).append (hmore hclear)

theorem Gives.firstPart (hv : A.clear → v.Clear) : Gives A (Message.firstPart v) Value.Clear := by
  unfold Message.firstPart
  split
  · refine .ofOption fun vs hvs => .option fun x hx hclear => ?_
    exact Value.clear_items? (hv hclear) hvs x (List.mem_of_head? hx)
  · exact .pure fun _ => Value.clear_null

theorem Value.clear_extended? {selector x : Value} {earlier : Nat} {r : String} (h : selector.Clear)
    (hr : IsClear r.toList) (hx : Message.extended? selector earlier r = some x) : x.Clear := by
  unfold Message.extended? at hx
  split at hx
  · cases hx
    rw [Value.clear_str] at h ⊢
    rw [String.toList_append]
    exact h.append hr
  · rename_i items
    cases hx
    refine allClear_textsOfItems fun v hv => ?_
    rcases List.mem_append.1 hv with hv | hv
    · exact Value.clear_items? h rfl v hv
    · obtain ⟨l, hl, hv⟩ := List.mem_flatten.1 hv
      obtain rfl := (List.mem_replicate.1 hl).2
      obtain ⟨x, hx, rfl⟩ := List.mem_map.1 hv
      rw [Value.clear_str, String.toList_singleton]
      exact List.forall_mem_singleton.2 (hr x hx)
  · cases hx

theorem Gives.selector {colons earlier : Nat} (hv : A.clear → v.Clear) :
    Gives A (Message.selector v colons earlier) Value.Clear := by
  refine .bind (.firstPart hv) fun first hfirst => .bind (.partName hfirst) fun name hname => ?_
  split
  · exact .pure hname
  · exact .option fun _ hx hclear => Value.clear_extended? (hname hclear) (by decide) hx
  · refine .ofOption fun vs hvs => ?_
    refine .bind (.moreParts _ fun hclear x hx =>
      Value.clear_items? (hv hclear) hvs x (List.mem_of_mem_drop hx))
      fun more hmore => .option fun _ hx hclear => ?_
    refine Value.clear_extended? (hname hclear) ?_ hx
    rw [String.toList_append]
    exact IsClear.append (by decide) (hmore hclear)

theorem Gives.takeTemp (frame : FrameId) : Gives A (Message.takeTemp frame) fun r => Nests r :=
  fun _ _ => (isClear_tempName _).nests

theorem Text.nests_countSuffix (n : Nat) : Nests (Message.countSuffix n) := by
  unfold Message.countSuffix
  split
  · exact (isClear_int _).nests
  · exact .refl _

/-! ### Literals -/

theorem Puts.selectorLiteral (ht : Fits A (.tree t)) :
    Puts A (site.spot o) (Message.selectorLiteral t site) [] 0 :=
  .start <| .ofOption fun _ hselector => .only (textAt _ fun hclear =>
    (Value.nests_display _ ((ht.field hselector).clear hclear)).around)

theorem Puts.protocolLiteral (ht : Fits A (.tree t)) :
    Puts A (site.spot o) (Message.protocolLiteral t site) [] 0 := by
  refine .start <| .ofOption fun protocol hprotocol => .ofOption fun name hname => ?_
  refine .look fun s _ _ => .rest (rests_judges.key name) fun key => ?_
  split
  · exact .only (textAt _ fun hclear =>
      (Value.nests_display _ (((ht.field hprotocol).part hname).clear hclear)).around)
  · exact .rest (rests_judges.unknownProtocol name) fun _ => .only (rests_judges.error ..).puts

theorem Puts.dispatch {selector : String} (isInline : Bool) (htemp : A.clear → Nests temp)
    (hselector : Nests selector) (args : Nat) :
    Puts A p (Gen.text p.buffer (Message.dispatch isInline temp selector args))
      ((if isInline then [')'] else []) ++ ['(']) 0 := by
  cases isInline with
  | true =>
    exact (text fun hclear => (((htemp hclear).texts (.refl _)).texts hselector).texts
      (.refl _)).conv (fun _ => .of_residue rfl) fun _ => rfl
  | false =>
    exact (text fun hclear =>
      (((htemp hclear).texts (.refl _)).texts (nests_countSuffix args)).texts (.refl _)).conv
      (fun _ => .of_residue rfl) fun _ => rfl

/-! ### Messages -/

theorem Rests.plainName? (frame : FrameId) (receiver : Value) :
    Rests A (Message.plainName? frame receiver) := by
  unfold Message.plainName?
  split
  · exact rests_judges.pure _
  · refine rests_judges.bind (rests_judges.part ..) fun name =>
      rests_judges.bind (rests_judges.key name) fun key => ?_
    exact rests_judges.seq (.setContext ..) <| .look fun s => rests_judges.pure _

theorem Puts.callText {selector : String} (hselector : A.clear → Nests selector) (args : Nat) :
    Puts A p (Gen.text p.buffer (Message.callText A.isInline selector args))
      (if A.isInline then [')'] else []) 0 := by
  unfold Message.callText
  split
  · exact (text fun hclear => (hselector hclear).around).conv
      (fun _ => .of_residue rfl) fun _ => rfl
  · exact (text fun _ => (SameBrackets.refl _).texts (nests_countSuffix args)).conv
      (fun _ => .of_residue rfl) fun _ => rfl

theorem Frames.frame?_of_mem_chain {fs : Frames} {id : FrameId} {e : FrameId × Frame}
    (h : e ∈ fs.chain id) : fs.frame? e.1 = some e.2 := by
  induction id using Nat.strong_induction_on with
  | _ id ih =>
    rw [Frames.chain] at h
    cases hf : fs.frame? id with
    | none => rw [hf] at h; cases h
    | some f =>
      rw [hf] at h
      rcases List.mem_cons.1 h with rfl | h
      · exact hf
      · split at h
        · cases h
        · split at h
          · rename_i up _ hlt
            exact ih up hlt h
          · cases h

theorem GenState.Sane.nests_superRef (hs : s.Sane A) (hclear : A.clear) (frame : FrameId)
    (marker : Value) : Nests (s.frames.superRef frame marker).display := by
  unfold Frames.superRef
  split
  · exact .of_residue rfl
  · rename_i id f hfind
    have hframe := Frames.frame?_of_mem_chain (List.mem_of_find?_eq_some hfind)
    have hface := hs.faces hclear id f.face (by rw [Frames.face?, hframe]; rfl)
    split
    · exact hface.superMetaRef
    · exact hface.superRef

namespace Puts

theorem superCall {selector suffix shown : String} (isInline : Bool)
    (hselector : A.clear → Nests selector) (hsuffix : Nests suffix)
    (hshown : A.clear → Nests shown) :
    Puts A (site.spot o) (Message.superCall location selector suffix shown isInline site)
      ['('] 0 := by
  unfold Message.superCall
  split
  · refine .start <| .seq (textAt _ fun hclear => ((hshown hclear).around.texts
      (hselector hclear)).texts (.refl _)) ?_
    exact .last verbatim rfl (by simp)
  · refine .start <| .seq (textAt _ fun _ => (SameBrackets.refl _).texts hsuffix) ?_
    exact .last (text fun hclear => (hshown hclear).around) rfl (by simp)

theorem writeSuper {selector suffix : String} (hselector : A.clear → Nests selector)
    (hsuffix : Nests suffix) :
    Puts A (site.spot o) (Message.writeSuper location selector suffix site) ['('] 0 := by
  unfold Message.writeSuper
  refine .start <| .look fun s hs _ => ?_
  split
  · exact .fatal _ _
  split
  · exact .fatal _ _
  dsimp only
  split
  · exact .fatalAt _ _ _
  · exact .only (superCall _ hselector hsuffix fun hclear => hs.sane.nests_superRef hclear _ _)

end Puts

section Walks

variable (hw : Writes A walk)

include hw

namespace Puts

theorem writeArray (hv : Fits A v) :
    Puts A (site.spot o) (Message.writeArray walk site v) [] (v.tally A o) := by
  refine .start <| .seq verbatim <| .items hv fun xs hitems hxs => ?_
  refine .seq (between (verbatim.conv (fun _ => .of_residue rfl) fun _ => rfl)
    fun x hx => hw.plain (hxs x hx)) ?_
  exact .last verbatim rfl fun _ => by simp [Value.tally_items? hitems]

omit hw in
theorem writeCount (withCount : Bool) (list : Value) :
    Puts A (site.spot o) (Message.writeCount withCount list site.buffer) [] 0 := by
  cases withCount with
  | true =>
    refine .start <| .ofOption fun vs _ => .only ?_
    exact text (w := []) fun _ => ((SameBrackets.refl _).texts (isClear_int _).nests).trans
      (.of_residue rfl)
  | false => exact .pure _

variable {className initializer : String} {more : List Value} (withCount isInline : Bool)
  (hclass : Nests className) (hinitializer : Nests initializer) (hfirst : Fits A first)
  (hmore : ∀ v ∈ more, Fits A v)
  (hempty : A.once → first.truthy = false → ∀ v ∈ more, v.tally A o = 0)

include hinitializer hfirst hmore hempty

theorem initialized (htemp : A.clear → Nests temp) : Puts A (site.spot o)
    (Message.initialized walk initializer first more withCount site isInline temp)
      ((if isInline then [')'] else []) ++ ['(', ')', ')'])
      ((first :: more).map (Value.tally A o)).sum := by
  unfold Message.initialized
  split
  · refine .start <| .seq (dispatch isInline htemp hinitializer 2) ?_
    refine .seq (text (w := []) fun hclear => ?_) ?_
    · exact ((((htemp hclear).texts (.refl _)).texts hinitializer).texts (.refl _)).trans
        (.of_residue rfl)
    refine .seq (forM (List.forall_mem_cons.2
      ⟨writeArray hw hfirst, fun v hv => writeArray hw (hmore v hv)⟩)) <| .seq (writeCount _ _) ?_
    exact .last_of verbatim (fun _ => by simpa using .refl _) (by simp)
  · rename_i hfalse
    have hzero : first.tally A o = 0 := Value.tally_of_not_truthy (by simpa using hfalse)
    refine .start <| .seq (dispatch isInline htemp (.of_residue rfl) 0) ?_
    refine .last_of (text fun hclear => (htemp hclear).texts (.refl _)) (fun _ => ?_)
      fun honce => ?_
    · cases isInline <;> exact .of_residue rfl
    · have hmore := List.sum_eq_zero (List.forall_mem_map.2 (hempty honce (by simpa using hfalse)))
      simp [hzero, hmore]

include hclass

theorem allocated (htemp : A.clear → Nests temp) : Puts A (site.spot o)
    (Message.allocated walk t className initializer first more withCount site isInline temp)
      [] ((first :: more).map (Value.tally A o)).sum := by
  have hinit : Puts A (site.spot o)
      (Message.initialized walk initializer first more withCount site isInline temp) _ _ :=
    initialized hw withCount isInline hinitializer hfirst hmore hempty htemp
  refine .start <| .seq (textAt _ fun hclear => (htemp hclear).around) ?_
  refine .seq (text (w := []) fun _ => ?_) ?_
  · cases isInline with
    | true => exact hclass.between (.of_residue rfl)
    | false => exact hclass.append (.of_residue rfl)
  refine .seq (text fun hclear =>
    ((hclass.around.texts (htemp hclear)).texts (.refl _)).texts (.refl _)) ?_
  cases isInline <;> exact .last hinit rfl (by simp)

theorem allocInit : Puts A (site.spot o)
    (Message.allocInit walk t className initializer first more withCount site) []
      ((first :: more).map (Value.tally A o)).sum := by
  unfold Message.allocInit
  refine .start <| .look fun s _ _ => ?_
  refine .rest_gives (.takeTemp _) (.takeTemp _) fun temp htemp => ?_
  exact .seq (allocated hw withCount _ hclass hinitializer hfirst hmore hempty htemp) <|
    .last (Rests.dropTemp _).puts rfl (by simp)

omit hinitializer hfirst hmore hempty hclass

theorem arrayLiteral (ht : Fits A (.tree t)) :
    Puts A (site.spot o) (Message.arrayLiteral walk t site) [] (t.tallyOf A o "elements") :=
  .start <| .ofOption fun v hv => .last (allocInit hw true (.of_residue rfl)
    (.of_residue rfl) (ht.field hv) (by simp) (by simp)) rfl fun _ =>
    by simp [Tree.tallyOf_of_get? hv]

theorem dictionaryLiteral (ht : Fits A (.tree t)) (htype : t.type = .dictionaryLiteral) :
    Puts A (site.spot o) (Message.dictionaryLiteral walk t site) []
      (t.tallyOf A o "values" + t.tallyOf A o "keys") := by
  refine .start <| .ofOption fun values hvalues => .ofOption fun keys hkeys => ?_
  refine .last (allocInit hw false (.of_residue rfl) (.of_residue rfl)
    (ht.field hvalues) (List.forall_mem_singleton.2 (ht.field hkeys)) fun honce hfalse => ?_) rfl
    fun _ => by simp [Tree.tallyOf_of_get? hvalues, Tree.tallyOf_of_get? hkeys]
  refine List.forall_mem_singleton.2 ?_
  have hgrammar := ht.grammatical honce
  rw [Tree.isGrammatical, htype] at hgrammar
  simp only [Tree.fieldIs, hkeys, hvalues, Option.getD_some, Bool.and_eq_true,
    decide_eq_true_eq] at hgrammar
  obtain ⟨items, hitems⟩ := Option.isSome_iff_exists.1 hgrammar.1
  rw [hgrammar.2] at hitems
  obtain rfl := Value.size?_of_not_truthy hfalse hitems
  exact Value.tally_of_size? (hgrammar.2.trans hitems)

theorem writeArgument (hv : Fits A v) :
    Puts A (site.spot o) (Message.writeArgument walk site v) [] (v.tally A o) :=
  .start <| .seq verbatim <| .last (hw.plain hv) rfl (by simp)

end Puts

variable {receiver first : Value} {selector : String} {args : List Value}
  (hselector : A.clear → Nests selector) (hargs : ∀ v ∈ args, Fits A v)
  (hreceiver : Fits A receiver)

include hselector hargs

theorem Puts.endCall :
    Puts A (site.spot o) (Message.endCall walk selector args site) [')']
      (args.map (Value.tally A o)).sum := by
  refine .start <| .seq (.text (w := []) fun hclear => ?_) ?_
  · exact (hselector hclear).around.trans (.of_residue rfl)
  · exact .seq (forM fun v hv => writeArgument hw (hargs v hv)) <| .last .verbatim rfl (by simp)

theorem Puts.sendToSuper :
    Puts A (site.spot o) (Message.sendToSuper walk location selector args site) []
      (args.map (Value.tally A o)).sum :=
  .start <| .seq (writeSuper hselector (nests_countSuffix _)) <|
    .last (endCall hw hselector hargs) rfl (by simp)

/-- The brackets that a message to a plain variable opens are those that it closes. -/
theorem Splices.callName (w : List Char) (n : Multiset Tree) {c : Code} {m : Multiset Tree} :
    Splices A (site.spot o) b c m w n (Message.callName walk selector args A.isInline b site)
      (w ++ (if A.isInline then ['(', ')'] else []) ++ ['(', ')'])
      (n + m + m + (args.map (Value.tally A o)).sum) := by
  have hcall (w : List Char) (n : Multiset Tree) : Splices A (site.spot o) b c m w n
      (Message.callName walk selector args false b site)
      (w ++ (if A.isInline then [')'] else []) ++ ['('] ++ [')'])
      (n + m + m + (args.map (Value.tally A o)).sum) := by
    refine .splice <| .look fun s hs => ?_
    rw [hs.isInline]
    refine .put (.callText hselector _) fun _ => .put .verbatim fun _ => .splice ?_
    exact .last (.endCall hw hselector hargs) rfl (by simp)
  cases hinline : A.isInline with
  | true =>
    refine .put .verbatim fun _ => (hcall _ _).conv (fun _ => ?_) fun _ => by rw [add_zero]
    rw [hinline]
    simpa using .refl _
  | false =>
    refine (hcall w n).conv (fun _ => ?_) fun _ => rfl
    rw [hinline]
    simpa using .refl _

include hreceiver

/-- A receiver that is a plain variable is written up to three times. -/
theorem Splices.sendToName {name : Key} (hplain : receiver.tally A o = 0) :
    Splices A (site.spot o) b .nil 0 [] 0
      (Message.sendToName walk receiver name selector args A.isInline b site) []
      (args.map (Value.tally A o)).sum := by
  refine .look fun s _ => ?_
  dsimp only
  refine .fill (hw .plain receiver { site with buffer := b } o hreceiver fun _ => rfl)
    fun _ c n' m hsum => ?_
  have hzero (honce : A.once) : n' = 0 ∧ m = 0 := by
    have hcard : n'.card + m.card = 0 := by
      rw [← Multiset.card_add, hsum honce, hplain, Multiset.card_zero]
    exact ⟨Multiset.card_eq_zero.1 (Nat.eq_zero_of_add_eq_zero_right hcard),
      Multiset.card_eq_zero.1 (Nat.eq_zero_of_add_eq_zero_left hcard)⟩
  have hcall (w : List Char) (n : Multiset Tree) : Splices A (site.spot o) b c m w n
      (Message.callName walk selector args A.isInline b site) _ _ := callName hw hselector hargs w n
  generalize Message.mayBeNil s site.frame name = isNil
  cases isNil with
  | true =>
    refine .put .verbatim fun _ => .splice <| .put .verbatim fun _ => ?_
    refine .bind_puts (hcall _ _) (fun _ => .verbatim) (fun _ => ?_) fun honce => by
      simp [hzero honce]
    split <;> exact .of_residue rfl
  | false =>
    refine (hcall _ _).conv (fun _ => ?_) fun honce => by simp [hzero honce]
    split <;> exact .of_residue rfl

/-- Any other receiver is written once, into a temp. -/
theorem Splices.stored (htemp : A.clear → Nests temp) : Splices A (site.spot o) b .nil 0 [] 0
      (Message.stored walk receiver first selector args A.isInline b site temp) ['(']
      (receiver.tally A o + (args.map (Value.tally A o)).sum) := by
  refine .fill (hw .plain receiver { site with buffer := b } o hreceiver fun _ => rfl)
    fun _ c n' m hsum => ?_
  refine .put (.text fun hclear => (htemp hclear).around) fun _ => .splice ?_
  have htail : Puts A (site.spot o) (Message.callTemp walk first selector args site temp)
      (if A.isInline then [')'] else []) (args.map (Value.tally A o)).sum := by
    refine .start <| .seq (.textAt _ htemp) <| .look fun s hs _ => ?_
    rw [hs.isInline]
    refine .seq (.callText hselector _) <| .seq .verbatim <| .seq (.text htemp) ?_
    refine .last_of (.endCall hw hselector hargs) (fun _ => ?_) (by simp)
    split <;> exact .of_residue rfl
  have hparens : SameBrackets (if A.isInline then "(" else "").toList
      (if A.isInline then ['('] else []) := by
    split <;> exact .refl _
  refine .put (.text fun hclear => (htemp hclear).around.texts hparens) fun _ => ?_
  refine .last_of htail (fun _ => ?_) fun honce => ?_
  · split <;> exact .of_residue rfl
  · rw [← hsum honce]
    simp [add_assoc]

theorem Puts.sendToReceiver :
    Puts A (site.spot o) (Message.sendToReceiver walk receiver first selector args site) []
      (receiver.tally A o + (args.map (Value.tally A o)).sum) := by
  refine .start <| .look fun s hs _ => ?_
  rw [hs.isInline]
  have hstored : Puts A (site.spot o) (do
      let scratch ← Gen.newBuffer
      Message.storedOnce walk receiver first selector args A.isInline scratch site
      Gen.text site.buffer ")") [] (receiver.tally A o + (args.map (Value.tally A o)).sum) := by
    refine .newBuffer fun b => ?_
    simp only [Message.storedOnce, bind_assoc]
    refine .rest_gives (.takeTemp _) (.takeTemp _) fun temp htemp => ?_
    have hend : Puts A (site.spot o) (do
        Message.dropTemp site.frame
        Gen.text site.buffer ")") [')'] 0 :=
      .start <| .idle (.dropTemp _) <| .only .verbatim
    exact .bind_puts (.stored hw hselector hargs hreceiver htemp) (fun _ => hend)
      (fun _ => .of_residue rfl) fun _ => add_zero _
  cases hnode : receiver.isNode .identifier with
  | false =>
    have hname : Message.plainName? site.frame receiver = pure none := by
      rw [Message.plainName?, if_pos (by simpa using hnode)]
    rw [hname, pure_bind]
    exact .only hstored
  | true =>
    refine .rest (.plainName? ..) fun name => ?_
    cases name with
    | none => exact .only hstored
    | some name =>
      have hplain : receiver.tally A o = 0 := Value.tally_of_isLeaf hnode (.inl rfl)
      rw [hplain, zero_add]
      exact .only (.newBuffer fun b => .sendToName hw hselector hargs hreceiver hplain)

theorem Puts.sendTo :
    Puts A (site.spot o) (Message.sendTo walk receiver first selector args site) []
      (receiver.tally A o + (args.map (Value.tally A o)).sum) := by
  unfold Message.sendTo
  split
  · rename_i hsuper
    rw [Value.tally_of_isLeaf hsuper (.inr (.inr rfl)), zero_add]
    exact sendToSuper hw hselector hargs
  · exact sendToReceiver hw hselector hargs hreceiver

omit hselector hargs hreceiver in
theorem Puts.send (ht : Fits A (.tree t)) :
    Puts A (site.spot o) (Message.send walk t site) []
      (t.tallyOf A o "receiver" + t.tallyOf A o "args" + t.tallyOf A o "var_args") := by
  refine .start <| .ofOption fun receiver hreceiver => .ofOption fun parts hparts => ?_
  refine .rest (rests_judges.firstPart _) fun first => ?_
  have hsend : Puts A (site.spot o) (Message.sendParts walk t receiver parts first site) []
      (t.tallyOf A o "receiver" + t.tallyOf A o "args" + t.tallyOf A o "var_args") := by
    refine .start <| .fieldItems ht fun args hitems hargs => ?_
    refine .rest_gives (rests_judges.selector ..) (.selector (ht.field hparts).clear)
      fun selector hselector => ?_
    refine .ofOption fun v hv => .itemsIfTrue (ht.field hv) fun varArgs hvarArgs htally => ?_
    have hsend : Puts A (Site.spot { site with inMessage := true } o)
        (Message.sendTo walk receiver first
        selector.display (args ++ varArgs) { site with inMessage := true }) [] _ :=
      sendTo hw (fun hclear => Value.nests_display _ (hselector hclear))
        (List.forall_mem_append.2 ⟨hargs, hvarArgs⟩) (ht.field hreceiver)
    refine .last hsend rfl fun _ => ?_
    simp [Tree.tallyOf_of_get? hreceiver, Tree.tallyOf_items? hitems, Tree.tallyOf_of_get? hv,
      htally, add_assoc]
  split
  · exact .seq (sourceComment _) <| .last hsend rfl (by simp)
  · exact .only hsend

end Walks

end ObjectiveJ
