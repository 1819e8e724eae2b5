import ObjectiveJ.Proofs.Code.Method

/-!
# What instance variables write

The instance variables of a class are written at its place, and their accessors into the buffer for
the methods of the instances. Accessors are made of what the class has recorded of the variable,
which has no brackets if the names of the program have none.
-/

namespace ObjectiveJ

open Gen Text

variable {selector : Value} {types : List Value} {comment params : String}

variable {A : Account} {p : Spot} {v : Value} {t : Tree} {s : GenState} {id : ClassId} {ivar : Ivar}

/-! ### Variables -/

theorem Rests.modifySymbols {g : Symbols → Symbols}
    (hg : A.clear → ∀ x : Symbols, x.Clears A.known → (g x).Clears A.known) :
    Rests A (Gen.modifySymbols g) :=
  ⟨.modifySymbols hg, (quiets_records.modifySymbols g).calms⟩

/-- A variable whose names have no brackets. -/
structure Ivar.Clear (ivar : Ivar) : Prop where
  name : ivar.name.Clear
  type : ivar.type.Clear
  accessors : ivar.accessors.Clear

theorem ClassDef.Clear.clear_ivar {c : ClassDef} {key : Key} (h : c.Clear)
    (hivar : c.ivars.get? key = some ivar) : ivar.Clear := by
  obtain ⟨hname, htype, haccessors⟩ := h.ivars (key, ivar) (Table.mem_of_lookup hivar)
  exact ⟨hname, htype, haccessors⟩

theorem ClassDef.Clear.setIvar {c : ClassDef} (h : c.Clear) (key : Key) (hivar : ivar.Clear) :
    ({ c with ivars := c.ivars.set key ivar } : ClassDef).Clear where
  name := h.name
  ivars e he := by
    rcases Table.mem_setEntry he with he | rfl
    · exact h.ivars e he
    · exact ⟨hivar.name, hivar.type, hivar.accessors⟩

namespace Puts

theorem ivarType {typeName : Value} (htype : A.clear → typeName.Clear) :
    Puts A p (Declaration.ivarType p.buffer typeName) [] 0 := by
  refine .start <| .look fun s _ _ => ?_
  split
  · refine .only (text (w := []) fun hclear => ?_)
    exact (Value.nests_display _ (htype hclear)).between (.of_residue rfl)
  · exact .done _ rfl (by simp)

theorem addIvar {declaration identifier name : Value} (isLast : Bool)
    (hdeclaration : Fits A declaration) (hname : A.clear → name.Clear) :
    Puts A p (Declaration.addIvar id p.buffer declaration identifier name isLast) [] 0 := by
  have hwrite (type typeName : Value) (htype : A.clear → typeName.Clear) : Puts A p
      (Declaration.writeIvar id p.buffer declaration identifier name isLast type typeName)
        [] 0 := by
    refine .start <| .idle (rests_judges.warned fun hA => hA.ivarType _) ?_
    refine .bind (templateAt _ fun hclear => (Value.nests_display _ (hname hclear)).around)
      fun _ => ?_
    refine .bind (ivarType htype) fun _ => ?_
    refine .bind (text (w := [')']) fun _ => ?_) fun _ => ?_
    · cases isLast <;> exact .of_residue rfl
    refine .ofOption fun accessors haccessors => .ofOption fun isOutlet _ =>
      .rest (rests_judges.key name) fun key => ?_
    refine .idle (.modifySymbols fun hclear x hx => hx.modifyClass fun c hc => hc.setIvar key ?_) ?_
    · exact ⟨hname hclear, htype hclear, (hdeclaration.part haccessors).clear hclear⟩
    · exact .done _ rfl (by simp)
  refine .start <| .ofOption fun type htype => ?_
  dsimp only
  split
  · exact .only (hwrite type _ fun _ => Value.clear_str.2 (by decide))
  · exact .ofOption fun name hname =>
      .only (hwrite type name ((hdeclaration.part htype).part hname).clear)

theorem addIvars {vs : List Value} (hvs : ∀ v ∈ vs, Fits A v) :
    Puts A p (Declaration.addIvars id p.buffer vs) [] 0 := by
  induction vs with
  | nil => exact .pure _
  | cons v rest ih =>
    have hv := hvs v (.head _)
    have hrest (recorded : Bool) : Puts A p (do
        return (← Declaration.addIvars id p.buffer rest) || recorded) [] 0 :=
      .start <| .bind (ih fun x hx => hvs x (.tail _ hx)) fun _ => .done _ rfl (by simp)
    refine .start <| .ofOption fun identifier hidentifier => .ofOption fun name hname => ?_
    refine .look fun s _ _ => .rest (rests_judges.key name) fun key => .ofOption fun found _ => ?_
    cases found with
    | some earlier => exact .errorNote (.last (hrest false) rfl (by simp))
    | none =>
      exact .bind (addIvar _ hv ((hv.part hidentifier).part hname).clear) fun recorded =>
        .last (hrest recorded) rfl (by simp)

theorem writeIvars {ivars : Value} (hivars : Fits A ivars) :
    Puts A p (Declaration.writeIvars id ivars p.buffer) [] 0 := by
  unfold Declaration.writeIvars
  split
  · exact .pure _
  · refine .start <| .seq (template fun _ => .refl _) <| .seq indent ?_
    refine .items hivars fun vs _ hvs => .bind (addIvars hvs) fun hasAccessors => .seq dedent ?_
    exact .seq (template fun _ => .refl _) <| .done _ rfl (by simp)

end Puts

/-! ### Accessors -/

theorem Rests.accessorName (settings : Settings) (className : String) (selector : Value) :
    Rests A (Declaration.accessorName settings className selector) := by
  unfold Declaration.accessorName
  split
  · exact rests_judges.bind (rests_judges.textOf _) fun _ => rests_judges.pure _
  · exact rests_judges.pure _

theorem Gives.accessorName {settings : Settings} {className : String}
    (hclass : A.clear → Nests className) (hselector : A.clear → selector.Clear) :
    Gives A (Declaration.accessorName settings className selector) Nests := by
  unfold Declaration.accessorName
  split
  · refine .ofOption fun shown hshown => .pure fun hclear => ?_
    exact Nests.append (.of_residue rfl) (Declaration.nests_functionName (hclass hclear)
      (Value.clear_text? (hselector hclear) hshown).nests)
  · exact .pure fun _ => .of_residue rfl

theorem Declaration.nests_accessorText {settings : Settings} {function body : String}
    (hselector : selector.Clear) (hfunction : Nests function) (hcomment : Nests comment)
    (hparams : Nests params) (hbody : Nests body) (htypes : ∀ v ∈ types, v.Clear) :
    Nests (accessorText settings selector function comment params body types) := by
  have hsignature : Nests (if settings.typeSignatures then
      s!",\n// argument types\n[{quotedList types}]" else "") := by
    split
    · exact (nests_quotedList htypes).between (.of_residue rfl)
    · exact .of_residue rfl
  exact .trans ((((hcomment.around).texts
    (Value.nests_display _ hselector)).texts (.refl _)).texts
      (((((((hfunction.around).texts hparams).texts (.refl _)).texts hbody).texts (.refl _)).texts
        hsignature).texts (.refl _)))
    (.of_residue rfl)

namespace Puts

section

variable {body : Bool → String} (hselector : A.clear → selector.Clear)
  (hcomment : A.clear → Nests comment)
  (hparams : Nests params) (hbody : A.clear → ∀ i, Nests (body i))
  (htypes : A.clear → ∀ v ∈ types, v.Clear)

include hselector hcomment hparams hbody htypes

theorem writeAccessor {className : String} (hclass : A.clear → Nests className) :
    Puts A p (Declaration.writeAccessor className selector comment params body types) [] 0 := by
  refine .start <| .look fun s _ _ => ?_
  refine .rest_gives (.accessorName ..) (.accessorName hclass hselector)
    fun function hfunction => ?_
  refine .only (.startMethod fun c => template fun hclear => ?_)
  exact Declaration.nests_accessorText (hselector hclear) (hfunction hclear)
    (hcomment hclear) hparams (hbody hclear _) (htypes hclear)

theorem accessor (hid : A.clear → A.known ≤ id) :
    Puts A p (Declaration.accessor id ivar selector comment params body types) [] 0 := by
  refine .start <| .look fun s hs _ => .ofOption fun c hc => .ofOption fun key _ => ?_
  split
  · exact .done _ rfl (by simp)
  · refine .rest (rests_judges.makeMethod ..) fun m => ?_
    refine .idle (.modifySymbols fun _ _ hx => hx.addMethod m _) ?_
    have hclass (hclear : A.clear) := ((hs.sane.symbols hclear).classes id c (hid hclear) hc).name
    exact .only (writeAccessor hselector hcomment hparams hbody htypes fun hclear =>
      Value.nests_display _ (hclass hclear))

end

section

variable {attributes : String} (hid : A.clear → A.known ≤ id) (hivar : A.clear → ivar.Clear)

include hid hivar

theorem getter (hattributes : A.clear → Nests attributes) :
    Puts A p (Declaration.getter id ivar attributes) [] 0 := by
  refine .start <| .ofOption fun selector hselector => ?_
  have hselector (hclear : A.clear) : selector.Clear :=
    Accessors.clear_getter? (hivar hclear).accessors (hivar hclear).name hselector
  have hname (hclear : A.clear) := Value.nests_display _ (hivar hclear).name
  refine .only (accessor hselector (fun hclear => ?_) (.of_residue rfl)
    (fun hclear _ => (hname hclear).between (.of_residue rfl))
    (fun hclear => List.forall_mem_singleton.2 (hivar hclear).type) hid)
  exact .trans (((hname hclear).around.texts (hattributes hclear)).texts
    (.refl _) |>.texts (((Value.nests_display _ (hivar hclear).type).around).texts
      (Value.nests_display _ (hselector hclear)))) (.of_residue rfl)

theorem setter (hattributes : A.clear → Nests attributes) :
    Puts A p (Declaration.setter id ivar attributes) [] 0 := by
  refine .start <| .ofOption fun selector hselector => .ofOption fun copy _ => ?_
  have hselector (hclear : A.clear) : IsClear selector.toList :=
    Accessors.isClear_setter? (hivar hclear).accessors (hivar hclear).name hselector
  have hname (hclear : A.clear) := Value.nests_display _ (hivar hclear).name
  refine .only (accessor (fun hclear => Value.clear_str.2 (hselector hclear)) (fun hclear => ?_)
    (.of_residue rfl) (fun hclear isInline => ?_) (fun hclear => ?_) hid)
  · exact .trans (((hname hclear).around.texts (hattributes hclear)).texts
      (.refl _) |>.texts (((hselector hclear).nests.around.texts
        (Value.nests_display _ (hivar hclear).type)).texts (.refl _))) (.of_residue rfl)
  · split
    · exact Declaration.nests_copyBody (hivar hclear).name isInline
    · exact (hname hclear).between (.of_residue rfl)
  · exact List.forall_mem_cons.2 ⟨Value.clear_str.2 (by decide),
      List.forall_mem_singleton.2 (hivar hclear).type⟩

theorem addAccessor : Puts A p (Declaration.addAccessor id ivar) [] 0 := by
  refine .start <| .ofOption fun attributes hattributes => ?_
  have hattributes (hclear : A.clear) : Nests attributes :=
    Accessors.nests_attributes? (hivar hclear).accessors hattributes
  refine .seq (getter hid hivar hattributes) <| .ofOption fun readonly _ => ?_
  split
  · refine .ofOption fun given _ => ?_
    split
    · exact .only (rests_judges.error ..).puts
    · exact .done _ rfl (by simp)
  · exact .only (setter hid hivar hattributes)

end

theorem addAccessors (hid : A.clear → A.known ≤ id) (seen : List Key) (vs : List Value) :
    Puts A p (Declaration.addAccessors id seen vs) [] 0 := by
  induction vs generalizing seen with
  | nil => exact .pure _
  | cons v rest ih =>
    refine .start <| .ofOption fun identifier _ => .ofOption fun name _ => ?_
    refine .rest (rests_judges.key name) fun key => .ofOption fun clause _ => ?_
    dsimp only
    split
    · refine .look fun s hs _ => ?_
      split
      · rename_i ivar hivar
        obtain ⟨c, hc, hivar⟩ := Option.bind_eq_some_iff.1 hivar
        have hclear (hclear : A.clear) : ivar.Clear :=
          ((hs.sane.symbols hclear).classes id c (hid hclear) hc).clear_ivar hivar
        exact .seq (addAccessor hid hclear) <| .last (ih _) rfl (by simp)
      · exact .only (ih _)
    · exact .only (ih _)

end Puts

end ObjectiveJ
