import ObjectiveJ.Proofs.Law.Basic

/-!
# Laws for expressions

Whatever a law says, it allows the code of the expressions of JavaScript and of dereferences.
-/

namespace ObjectiveJ.Law

open Gen

variable {L : Law} {t : Tree} {v : Value} {site : Site}

theorem fieldPart (name : String) : L.Allows site.frame (field t name) := ofOption _

theorem dereferenced : L.Allows site.frame (Check.dereference v) := by
  refine ofOption_bind fun safe _ => ?_
  split
  · exact L.bind (treeOf v) fun _ => L.fatalAt _ _ _ rfl
  · exact L.pure ..

theorem meaning_bind (name : Value) {k : Expression.Meaning → Gen β}
    (hk : ∀ m, (∀ key, m = .ivar key → name.key? = some key) → L.Allows site.frame (k m)) :
    L.Allows site.frame (Expression.meaning site.frame name >>= k) := by
  unfold Expression.meaning
  rw [bind_assoc]
  refine L.get (fun s s' hs => ?_) fun s => ?_
  · simp only [hs.context, hs.isLocal, hs.lookupInMethod, hs.currentMarker, hs.ivar]
  · dsimp only
    split
    · exact hk .property nofun
    · split
      · exact hk .other nofun
      · rw [bind_assoc]
        refine ofOption_bind fun key hkey => ?_
        split
        · exact hk .variable nofun
        split
        · exact hk .other nofun
        split
        · exact hk .other nofun
        · exact hk (.ivar key) fun _ h => Expression.Meaning.ivar.inj h ▸ hkey

theorem identifierForm (ht : L.Owns t) :
    L.Allows site.frame (Expression.identifier t site) := by
  refine field_bind ht fun name _ => meaning_bind name fun m hm => ?_
  have hwrite : L.Allows site.frame (do
      Expression.writeSelf t name site m
      Gen.writeAt site.buffer name t.location) := by
    cases m with
    | ivar key => exact L.ivarReference t site (hm key rfl)
    | _ => exact L.seq (L.pure ..) <| writeAt ..
  rw [← bind_assoc]
  refine L.seq hwrite <| L.seq ?_ <| L.setContext _ _ fun _ => rfl
  cases m with
  | other => exact (L.judges _).identifier ..
  | _ => exact L.pure ..

theorem literal : L.Allows site.frame (Expression.literal t site) :=
  L.bind (fieldPart _) fun _ => L.bind (fieldPart _) fun _ => L.bind (ofOption _) fun _ =>
    textAt ..

theorem this : L.Allows site.frame (Expression.this t site) := textAt ..

theorem reference : L.Allows site.frame (Expression.reference t site) :=
  L.bind (fieldPart _) fun _ => L.bind (part _ _) fun _ => textAt ..

theorem binaryOperator (op : String) :
    L.Allows site.frame (Expression.binaryOperator op site) := by
  unfold Expression.binaryOperator
  split
  · exact text ..
  · exact operator ..

theorem selfMayBeNil : L.Allows site.frame (Expression.selfMayBeNil site.frame) := by
  refine L.get (fun s s' hs => by rw [hs.lookupInMethod]) fun s => ?_
  split
  · exact L.selfAssigned ..
  · exact L.pure ..

namespace Walks

variable {walk : Walker} (hw : L.Walks walk)

include hw

theorem element (hv : L.Admits v) : L.Allows site.frame (Expression.element walk v site) := by
  unfold Expression.element
  split
  · exact L.pure ..
  · exact hw.plain hv site

theorem property (hv : L.Admits v) : L.Allows site.frame (Expression.property walk v site) := by
  refine L.seq (hook _ _ (by decide)) <| L.seq (L.setContext _ _ fun _ => rfl) ?_
  refine part_bind hv fun k hk => L.seq (hw.plain hk site) ?_
  refine L.seq (L.setContext _ _ fun _ => rfl) <| L.seq (formatted _ _ _ (by decide)) ?_
  exact part_bind hv fun v hv => hw.plain hv site

theorem updatedReference (op : Value) {ref : Value} (href : L.Admits ref) (hv : L.Admits v) :
    L.Allows site.frame (Expression.updatedReference walk op ref v site) := by
  have hfirst : L.Allows (Expression.firstSite site).frame _ := parenthesized hw href site.type
  refine L.seq hfirst <| L.seq (leftParens ..) ?_
  refine L.seq (hw.plain hv (Expression.secondSite site)) ?_
  refine L.bind (ofOption _) fun _ => L.bind (ofOption _) fun _ => ?_
  exact L.seq (operator ..) <| L.seq (text ..) <| rightParens ..

theorem updateReference (op : Value) (isPrefix : Bool) (hv : L.Admits v) :
    L.Allows site.frame (Expression.updateReference walk t op v isPrefix site) := by
  refine part_bind hv fun ref href => L.seq dereferenced <| L.seq (sourceComment ..) ?_
  have hcall : L.Allows site.frame (Expression.updatedReference walk op ref v site) :=
    updatedReference hw op href hv
  cases isPrefix with
  | true => exact hcall
  | false =>
    refine L.seq (leftParens ..) <| L.seq hcall ?_
    exact L.seq (operator ..) <| L.seq (text ..) <| rightParens ..

variable (ht : L.Owns t)

include ht

theorem array : L.Allows site.frame (Expression.array walk t site) := by
  refine fieldItems_bind ht fun vs hvs => ?_
  have hclose : L.Allows site.frame (do
      Gen.textAt site.buffer "]" none
      Gen.hookOf site.buffer site.type (.bracket "after" "right-bracket" vs.length)) :=
    L.seq (textAt ..) <| hookOf _ _ fun _ => rfl
  have hcomma : L.Allows site.frame
      (Gen.bracketAt site.buffer site.type "," "comma" vs.length none) :=
    L.seq (hookOf _ _ fun _ => rfl) <| L.seq (textAt ..) <| hookOf _ _ fun _ => rfl
  have hbefore (ancestry : Ancestry) : (Instr.hook site.buffer site.type
      (.bracket "before" "left-bracket" vs.length) ancestry).isPlain = true := rfl
  have hall := L.seq (hookOf (f := site.frame) site.buffer site.type hbefore) <|
      L.bind (textAt site.buffer "[" t.location) fun _ =>
        shifted_bind (.array site.buffer site.type vs.length)
          (between hcomma fun v hv => hw.element (hvs v hv)) fun _ => hclose
  simp only [Gen.bracketAt, bind_assoc]
  exact hall

theorem object : L.Allows site.frame (Expression.object walk t site) := by
  refine field_bind ht fun ps hps => ?_
  have hbody : L.Allows site.frame (do
      Gen.between (Gen.comma site.buffer site.type) (Expression.property walk · site)
        (← Gen.items ps)) :=
    items_bind hps fun _ hvs => between (comma ..) fun v hv => hw.property (hvs v hv)
  dsimp only
  split
  · have hall := L.enclosed .braces site.buffer site.type "\x7b" "\x7d" t.location hbody
    simp only [bind_assoc] at hall
    simp only [String.empty_append]
    exact hall
  · have hleft : L.Allows site.frame (Gen.formattedAt site.buffer site.type (.str "\x7b")
        ("empty-" ++ "left-brace") t.location) := formattedAt _ _ _ _ (by decide)
    have hright : L.Allows site.frame (Gen.formatted site.buffer site.type "\x7d"
        ("empty-" ++ "right-brace")) := formatted _ _ _ (by decide)
    have hall := L.seq hleft <| L.seq hbody hright
    simpa only [bind_assoc] using hall

theorem sequence : L.Allows site.frame (Expression.sequence walk t site) :=
  fieldItems_bind ht fun _ hvs => separated hw hvs

theorem unary : L.Allows site.frame (Expression.unary walk t site) := by
  have hoperand : L.Allows site.frame (do
      Gen.operand walk t (← field t "argument") false site) :=
    field_bind ht fun _ hv => operand hw hv ..
  refine L.bind (fieldPart _) fun op => L.seq (writeAt ..) <| L.bind (key op) fun k => ?_
  split
  · exact L.seq (text ..) hoperand
  · exact hoperand

theorem arguments : L.Allows site.frame (Expression.arguments walk t site) := by
  have hend : L.Allows site.frame (do
      Gen.text site.buffer ")"
      Gen.hook site.buffer site.type "after-right-parens") :=
    L.seq (text ..) <| hook _ _ (by decide)
  refine field_bind ht fun args hargs => L.seq (hook _ _ (by decide)) ?_
  refine L.seq (text ..) ?_
  split
  · refine L.seq (hook _ _ (by decide)) <| items_bind hargs fun _ hvs => ?_
    exact L.seq (separated hw hvs) <| L.seq (hook _ _ (by decide)) hend
  · exact hend

theorem update : L.Allows site.frame (Expression.update walk t site) := by
  refine L.bind (fieldPart _) fun op => L.bind (fieldPart _) fun p => ?_
  refine field_bind ht fun v hv => ?_
  dsimp only
  split
  · exact hw.updateReference _ _ hv
  · cases p.truthy with
    | true =>
      exact L.seq (writeAt ..) <| L.seq (operand hw hv ..) <| L.pure ..
    | false => exact L.seq (operand hw hv ..) <| writeAt ..

theorem binary : L.Allows site.frame (Expression.binary walk t site) := by
  refine field_bind ht fun left hleft => L.seq (operand hw hleft ..) ?_
  refine L.bind (fieldPart _) fun op => L.bind (textOf op) fun _ => ?_
  refine L.seq (binaryOperator _) ?_
  exact field_bind ht fun right hright => operand hw hright ..

theorem assignReference (op : Value) (hv : L.Admits v) :
    L.Allows site.frame (Expression.assignReference walk t op v site) := by
  have hright : L.Allows site.frame (do
      walk .plain (← field t "right") site
      Gen.rightParens site.buffer site.type) :=
    field_bind ht fun _ hr => L.seq (hw.plain hr site) <| rightParens ..
  refine part_bind hv fun ref href => L.seq dereferenced ?_
  refine L.seq (sourceComment ..) ?_
  dsimp only
  cases op.isText "=" with
  | true =>
    exact L.seq (parenthesized hw href _) <| L.seq (leftParens ..) hright
  | false =>
    have hfirst : L.Allows (Expression.firstSite site).frame _ := parenthesized hw href site.type
    refine L.seq hfirst <| L.seq (leftParens ..) ?_
    refine L.seq (hw.plain hv (Expression.secondSite site)) ?_
    exact L.bind (ofOption _) fun _ => L.seq (operator ..) hright

theorem assignment : L.Allows site.frame (Expression.assignment walk t site) := by
  refine L.bind (fieldPart _) fun op => field_bind ht fun left hleft => ?_
  split
  · exact hw.assignReference ht op hleft
  have hleft : L.Allows site.frame (do
      if Expression.isNamed left "self" then Expression.selfMayBeNil site.frame
      Gen.operand walk t left false site
      Gen.operator site.buffer site.type op) := by
    have hrest : L.Allows site.frame (do
        Gen.operand walk t left false site
        Gen.operator site.buffer site.type op) :=
      L.seq (operand hw hleft ..) <| operator ..
    split
    · exact L.seq selfMayBeNil hrest
    · exact hrest
  have hright : L.Allows site.frame (do
      Gen.operand walk t (← Gen.field t "right") true site) :=
    field_bind ht fun _ hr => operand hw hr t true
  have hall := L.seq (L.assigning site.frame op hleft) hright
  refine cast (congrArg (L.Allows site.frame) ?_) hall
  simp only [bind_assoc]
  refine bind_congr fun s => bind_congr fun _ => ?_
  split <;> simp only [bind_assoc]

theorem conditional : L.Allows site.frame (Expression.conditional walk t site) := by
  refine field_bind ht fun test htest => L.seq (operand hw htest ..) ?_
  refine L.seq (operator ..) <| field_bind ht fun c hc => L.seq (hw.plain hc site) ?_
  exact L.seq (operator ..) <| field_bind ht fun a ha => hw.plain ha site

theorem construct : L.Allows site.frame (Expression.construct walk t site) :=
  L.seq (textAt ..) <| field_bind ht fun _ hc => L.seq (operand hw hc ..) <|
    hw.arguments ht

theorem call : L.Allows site.frame (Expression.call walk t site) := by
  refine field_bind ht fun callee hc => ?_
  have hcall : L.Allows site.frame (do
      Gen.operand walk t callee false site
      Expression.arguments walk t site) :=
    L.seq (operand hw hc ..) <| hw.arguments ht
  split
  · exact L.seq selfMayBeNil hcall
  · exact hcall

theorem member : L.Allows site.frame (Expression.member walk t site) := by
  refine L.seq (L.setContext _ _ fun _ => rfl) <| field_bind ht fun object hobject => ?_
  refine L.seq (operand hw hobject ..) <| L.seq (L.setContext _ _ fun _ => rfl) ?_
  refine field_bind ht fun property hproperty => L.bind (fieldPart _) fun computed => ?_
  split
  · have hinside := L.assigning site.frame .null (hw.plain hproperty site)
    have hall := L.enclosed .brackets site.buffer site.type "[" "]" none hinside
    simp only [bind_assoc] at hall
    exact hall
  · refine L.seq (text ..) <| L.seq (L.setContext _ _ fun _ => rfl) ?_
    exact L.seq (hw.plain hproperty site) <| L.setContext _ _ fun _ => rfl

theorem dereference : L.Allows site.frame (Expression.dereference walk t site) :=
  field_bind ht fun _ href => L.seq dereferenced <| L.seq (textAt ..) <|
    L.seq (hw.plain href site) <| text ..

end Walks

end ObjectiveJ.Law
