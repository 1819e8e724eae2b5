import ObjectiveJ.Proofs.Law.Program
import ObjectiveJ.Proofs.Nodes

/-!
# Laws about one part of the state

A property of steps that is about one part of the state allows looking at anything, writing anything
and changing the other parts. Such a property is a law (`Free.law`), and if it allows all changes
but those of the diagnostics and of the nodes around, it is a law for whole programs (`Wide.runs`).
-/

namespace ObjectiveJ

open Gen

/-- A property of checks that allows looking at anything, writing anything, and changes of frames
that keep their kinds. -/
structure Free (A : StepProp) : Prop extends Judges @A where
  lookAt : ∀ {β : Type} {k : GenState → Gen β}, (∀ s, A (k s)) → A (get >>= k)
  instr : ∀ i, A (emit i)
  modifyFrame : ∀ id {g : Frame → Frame}, (∀ f, (g f).kind = f.kind) →
    A (modifyFrames (·.modify id g))
  newBuffer : A newBuffer
  retract : ∀ i, A (retract i)

/-- The law that allows the steps with a property, for values all nodes of which have another one.
-/
def Free.law {A : StepProp} (h : Free @A) (Q : Tree → Prop) : Law where
  Allows _ {_} m := A m
  Admits v := ∀ t ∈ v.nodes, Q t
  admits_part hv hw t ht := hv t (Value.nodes_part? hw ht)
  admits_item hv hws hw t ht := hv t (Value.nodes_items? hws hw ht)
  judges _ := h.toJudges
  hiddenBy := h.hiddenBy (fun _ => h.lookAt) (fun _ _ => h.modifyFrame _ fun _ => rfl)
    (fun _ _ => h.modifyFrame _ fun _ => rfl) h.retract
  emit _ _ _ := h.instr _
  shifted sh _ _ hm := h.shifted (fun _ => h.lookAt) sh (fun _ => h.instr _) (fun _ => h.instr _) hm
  style _ hk := h.style h.lookAt (fun _ => h.instr _) fun s => hk s s (.refl s)
  newBuffer _ := h.newBuffer
  setContext _ _ _ _ := h.modifyFrame _ fun _ => rfl
  assigning id v _ hm := h.assigning (fun _ => h.lookAt)
    (fun _ _ => h.modifyFrame _ fun _ => rfl) id v hm
  undeclare _ _ _ := h.modifyFrame _ fun _ => rfl
  selfAssigned _ _ := h.modifyFrame _ fun _ => rfl
  ivarReference _ _ _ _ _ := h.bind (h.lookAt fun _ =>
    h.bind (h.modifyFrame _ fun _ => rfl) fun _ => h.instr _) fun _ => h.instr _

/-- A property of checks that allows looking at anything, writing anything, and every change other
than of the diagnostics and of the nodes around. Some nodes may be entered. -/
structure Wide (A : StepProp) (N : String → StatementRole → Prop) : Prop extends Judges @A where
  lookAt : ∀ {β : Type} {k : GenState → Gen β}, (∀ s, A (k s)) → A (get >>= k)
  instr : ∀ i, A (emit i)
  change : ∀ {α : Type} {g : GenState → α × GenState}, (∀ s, (g s).2.ancestry = s.ancestry ∧
    (g s).2.diagnostics = s.diagnostics) → A (modifyGet g : Gen α)
  within : ∀ {type role} {body : Gen Unit}, N type role → A body → A (within type role body)
  settle : ∀ id, A (settle id)

namespace Wide

variable {A : StepProp} {N : String → StatementRole → Prop} (h : Wide @A N)

include h

theorem free : Free @A where
  toJudges := h.toJudges
  lookAt := h.lookAt
  instr := h.instr
  modifyFrame _ _ _ := h.change fun _ => ⟨rfl, rfl⟩
  newBuffer := h.change fun _ => ⟨rfl, rfl⟩
  retract _ := h.change fun _ => ⟨rfl, rfl⟩

theorem records : Records @A where
  toJudges := h.toJudges
  symbols _ := h.change fun _ => ⟨rfl, rfl⟩

theorem declares (Q : Tree → Prop) : (h.free.law Q).Declares where
  setMethods _ _ := h.change fun _ => ⟨rfl, rfl⟩
  newBody _ _ _ _ _ _ _ hk := h.bind (h.change fun _ => ⟨rfl, rfl⟩) fun id =>
    (hk id).allows fun hm => hm
  optional _ _ := h.change fun _ => ⟨rfl, rfl⟩
  records _ := h.records

theorem runs {Q : Tree → Prop} (hN : ∀ type role, Enters Q type role → N type role) :
    (h.free.law Q).Runs where
  anyFrame hm := hm
  instr _ _ _ := h.instr _
  within henters := h.within <| hN _ _ <| henters.imp fun t ht =>
    ⟨ht.1 t (by rw [Value.nodes, Tree.nodes_eq]; exact .head _), ht.2⟩
  newFrame _ _ _ _ _ _ := h.change fun _ => ⟨rfl, rfl⟩
  takeTemp _ _ := h.change fun _ => ⟨rfl, rfl⟩
  dropTemp _ _ := h.change fun _ => ⟨rfl, rfl⟩
  unpark _ _ := h.change fun _ => ⟨rfl, rfl⟩
  declares := (h.declares Q).declarations
  opens := {
    settle := fun _ => h.settle
    copyIvarRefs := fun _ _ => h.change fun _ => ⟨rfl, rfl⟩
    recordMethod := fun _ => h.records.methods.recordMethod }

end Wide

end ObjectiveJ
