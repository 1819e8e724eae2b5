import ObjectiveJ.Proofs.Compile
import ObjectiveJ.Proofs.Temps.Scope

/-!
# Receiver temps of a program

Every node keeps the law of temps, by induction on how deep the walk goes. So the code of each scope
of a program numbers its temps by how deep they are nested, and declares them once, at its end.
-/

namespace ObjectiveJ

open Gen

variable {type : String} {vs : Visits} {m : Gen α} {f : Frame}

variable {wrapped : Bool} {frame inner : FrameId} {α β : Type} {walk : Walker} {t : Tree}
  {site : Site} {s u : GenState} {P : Visits → Prop}

/-! ### Frames of classes and protocols -/

theorem Spends.of_new {fs gs : Frames} {owner : FrameId} (hf : f.IsNew)
    (howner : owner < fs.store.size) (h : Spends wrapped owner (fs.new f).2 gs vs) :
    Spends wrapped owner fs gs vs := by
  have hkept : fs.Kept (fs.new f).2 := Frames.Kept.new hf.level
  have hmax {id : FrameId} (hid : id < fs.store.size) :
      (fs.new f).2.maxLevel id = fs.maxLevel id := by
    rw [Frames.maxLevel_new, if_neg (Nat.ne_of_lt hid)]
  refine ⟨fun id hid hne => ?_, ?_, ?_, h.exact⟩
  · rw [h.others id (Nat.lt_of_lt_of_le hid hkept.size) hne, hmax hid]
  · rw [h.most, hmax howner, hkept.level]
  · rw [← hkept.level]
    exact h.numbered

/-- Steps take temps of a frame where another one has the same variables. -/
def Shared (wrapped : Bool) (frame inner : FrameId) (P : Visits → Prop) (m : Gen α) : Prop :=
  ∀ s : GenState, frame < s.frames.store.size → inner < s.frames.store.size →
    s.frames.varFrame inner = s.frames.varFrame frame →
    wp m (fun _ t => Spending wrapped frame id P s t) (fun _ _ => True) s

theorem Spent.shared (h : Spent wrapped frame m P) : Shared wrapped frame inner P m :=
  fun s hframe _ _ => h s hframe

theorem shared_sequences (hP : Visits.Closed P) :
    Sequences fun {_} m => Shared wrapped frame inner P m where
  pure a := ((spent_judges wrapped hP frame).pure a).shared
  incomplete := (spent_judges wrapped hP frame).incomplete.shared
  bind hm hk s hframe hinner howner := by
    refine (hm s hframe hinner howner).bind fun a t ht => ?_
    have hframe' := Nat.lt_of_lt_of_le hframe ht.1.size
    have hinner' := Nat.lt_of_lt_of_le hinner ht.1.size
    have howner' : t.frames.varFrame inner = t.frames.varFrame frame := by
      rw [ht.1.varFrame hframe, ht.1.varFrame hinner, howner]
    exact (hk a t hframe' hinner' howner').imp fun _ _ hu =>
      ht.trans hu hframe (fun _ _ hkept h h' => h.trans h' hkept) hP.append

theorem Law.Mixed.shared {hP : Visits.Closed P} (h : (tempLaw wrapped hP).Mixed frame inner m) :
    Shared wrapped frame inner P m := by
  have hlook {β : Type} {k : GenState → Gen β} (hk : ∀ s, Shared wrapped frame inner P (k s)) :
      Shared wrapped frame inner P (MonadState.get >>= k) := fun s hframe hinner howner =>
    (wp_bind ..).2 (hk s s hframe hinner howner)
  induction h with
  | outside hm => exact Spent.shared hm
  | inside hm =>
    intro s _ hinner howner
    refine (hm s hinner).imp fun _ t ht => ⟨ht.1, fun hs => ?_⟩
    rw [← howner]
    exact ht.2 hs
  | bind _ _ ihm ihk => exact (shared_sequences hP).bind ihm ihk
  | look _ _ ih => exact hlook ih
  | shifted sh _ ih =>
    exact (shared_sequences hP).shifted (fun _ => hlook) sh
      (fun _ => (Spent.emit_other (sh.mark_opening _) hP.other).shared)
      (fun _ => (Spent.emit_other (sh.mark_closing _) hP.other).shared) ih

theorem Spent.newBody {hP : Visits.Closed P} {body : Frame} {k : FrameId → Gen Unit}
    (hkind : body.kind.ownsVars = false) (hparent : body.parent = some frame) (hbody : body.IsNew)
    (hk : ∀ id, (tempLaw wrapped hP).Mixed frame id (k id)) :
    Spent wrapped frame (newFrame body >>= k) P := by
  intro s hframe
  have hsize : (s.frames.new body).2.store.size = s.frames.store.size + 1 := by simp [Frames.new]
  have hkept : s.frames.Kept (s.frames.new body).2 := Frames.Kept.new hbody.level
  have hframe' : frame < (s.frames.new body).2.store.size := Nat.lt_of_lt_of_le hframe hkept.size
  have hinner : s.frames.store.size < (s.frames.new body).2.store.size := by omega
  have hself : (s.frames.new body).2.frame? s.frames.store.size = some body := by
    rw [Frames.frame?_new, if_pos rfl]
  have howner : (s.frames.new body).2.varFrame s.frames.store.size =
      (s.frames.new body).2.varFrame frame := by
    obtain ⟨up, hup⟩ := Option.isSome_iff_exists.1 (Frames.isSome_frame?.2 hframe')
    exact Frames.varFrame_of_parent hself hparent hframe hup hkind
  rw [wp_bind, newFrame, wp_modifyGet]
  refine ((hk s.frames.store.size).shared { s with frames := (s.frames.new body).2 } hframe' hinner
    howner).imp fun _ t ht => ⟨hkept.trans ht.1, fun hs => ?_⟩
  obtain ⟨hcounts, vs, hmarks, hspends, hvs⟩ := ht.2 (hs.new hbody)
  rw [hkept.varFrame hframe] at hspends
  exact ⟨hcounts, vs, hmarks, hspends.of_new hbody (Frames.varFrame_lt hframe), hvs⟩

theorem tempLaw_declares (hP : Visits.Closed P) : (tempLaw wrapped hP).Declares where
  setMethods _ _ := Spent.of_quiets (Quiets.setMethods _) hP.nil
  newBody hkind hparent hlevel hmax hrefs _ _ hk := by
    refine Spent.newBody ?_ hparent ⟨hlevel, hmax, hrefs⟩ hk
    rcases hkind with hkind | hkind
    · rw [hkind]
      rfl
    · rw [hkind]
      rfl
  optional _ _ := Spent.of_quiets (Quiets.modifyFrame (fun _ _ => rfl) fun _ _ _ h => h) hP.nil
  records f :=
    { toJudges := spent_judges wrapped hP f
      symbols := fun g => Spent.of_quiets (quiets_records.symbols g) hP.nil }

theorem tempLaw_opens (hP : Visits.Closed P) : (tempLaw wrapped hP).Opens where
  settle _ _ := Spent.of_quiets (Quiets.settle _) hP.nil
  copyIvarRefs _ _ := Spent.of_quiets (Quiets.copyIvarRefs _) hP.nil
  recordMethod _ _ _ _ _ _ := Spent.of_quiets (quiets_records.methods.recordMethod _ _ _ _ _) hP.nil

theorem tempLaw_heads (hP : Visits.Closed P) :
    (tempLaw wrapped hP).Heads frame inner fun {_} m => Spent wrapped frame m P where
  step h := h
  look _ := Spent.look hP
  bind := (tempLaw wrapped hP).bind
  shadowing identifier _ entity := (spent_judges wrapped hP frame).shadowing
    (Spent.of_quiets (Quiets.hiddenBy _ _) hP.nil) identifier entity

/-! ### Functions and methods -/

theorem Flat.quiets (h : Quiets m) : Flat wrapped frame m :=
  Spent.of_quiets h rfl

theorem exact_function (htype : Visits.isFunction type = true) (h : vs.ExactInside wrapped) :
    ∀ scope ∈ (Visits.node type vs .nil).scopes wrapped, scope.Exact wrapped := by
  intro scope hscope
  refine h scope ?_
  simpa [Visits.scopes, Visits.scopesIn, htype] using hscope

theorem ClosesBodies.function (hb : ClosesBodies wrapped walk)
    (htype : Visits.isFunction type = true) :
    SpentAs wrapped site.frame (.node type · .nil) (Function.compile walk t site) fun _ =>
    True := by
  refine SpentAs.quietBefore (quiets_checks.field _ _) fun id => ?_
  have hname : Quiets (Function.name? id) := by
    unfold Function.name?
    split
    · exact quiets_checks.pure _
    · exact (quiets_checks.part _ _).bind fun _ => quiets_checks.pure _
  refine SpentAs.quietBefore hname fun name => ?_
  refine SpentAs.scope (P := Visits.ExactInside wrapped) ⟨rfl, rfl, rfl⟩ rfl
    (by simp [Visits.isScope, htype]) (fun inner => ?_) fun vs => exact_function htype
  have hhead : Flat wrapped site.frame (Function.head t id name inner site) :=
    (tempLaw_heads Visits.closed_isFlat).functionHead _ _
  refine Scoped.flatBefore hhead fun isGlobal => ?_
  refine Scoped.flatBefore (Flat.quiets (quiets_checks.field _ _)) fun body => ?_
  have hlambda : Flat wrapped site.frame (Function.isLambda t body site) :=
    Law.isLambda (L := tempLaw wrapped Visits.closed_isFlat) _
  refine Scoped.flatBefore hlambda fun isLambda => ?_
  refine Scoped.flatAfter (hb.body _ _ { site with frame := inner }) fun _ => ?_
  exact (tempLaw_opens Visits.closed_isFlat).functionTail _ _

theorem ClosesBodies.methodCode (hb : ClosesBodies wrapped walk) (marker selector : Value)
    (types params : List Value) (inner : FrameId) :
    Scoped wrapped site.frame inner
      (Declaration.methodCode walk t marker selector types params inner site)
      (Visits.ExactInside wrapped) := by
  have hstart : Flat wrapped site.frame (Declaration.methodStart t marker selector types) :=
    (tempLaw_declares Visits.closed_isFlat).declarations.methodStart _ _ _
  refine Scoped.flatBefore hstart fun buffer => ?_
  refine Scoped.flatBefore (Flat.quiets (quiets_checks.field _ _)) fun body => ?_
  have htext (s : String) : Flat wrapped site.frame (text buffer s) :=
    Law.text (L := tempLaw wrapped Visits.closed_isFlat) _ _
  have hsignature : Flat wrapped site.frame (Declaration.signature types buffer) :=
    Law.signature (L := tempLaw wrapped Visits.closed_isFlat) _ _
  have hend : Flat wrapped site.frame (do
      Declaration.signature types buffer
      text buffer ")") := hsignature.seq (fun _ => htext ")") Visits.closed_isFlat.append
  split
  · exact Scoped.flatBefore (htext " null") fun _ => .of_flat hend
  · have hhead : Flat wrapped site.frame
        (Declaration.methodHead selector params inner buffer site) :=
      (tempLaw_heads Visits.closed_isFlat).methodHead _ _ _
    refine Scoped.flatBefore hhead fun _ => ?_
    exact Scoped.flatAfter (hb.body _ _ { site with frame := inner, buffer }) fun _ => hend

theorem ClosesBodies.writeMethod (hb : ClosesBodies wrapped walk) (marker selector : Value)
    (types params : List Value) (inner : FrameId) :
    Scoped wrapped site.frame inner
      (Declaration.writeMethod walk t marker selector types params inner site)
      (Visits.ExactInside wrapped) := by
  refine Scoped.flatBefore (Spent.emit_other rfl rfl) fun _ => ?_
  exact Scoped.flatAfter (hb.methodCode _ _ _ _ _) fun _ => Spent.emit_other rfl rfl

theorem ClosesBodies.methodOf (hb : ClosesBodies wrapped walk) (owner : MethodOwner) :
    SpentAs wrapped site.frame (.node "objj_MethodDeclaration" · .nil)
      (Declaration.methodOf walk t owner site) fun _ => True := by
  have htype : Visits.isFunction "objj_MethodDeclaration" = true := rfl
  refine SpentAs.quietBefore (quiets_checks.field _ _) fun marker => ?_
  refine SpentAs.quietBefore (quiets_checks.judge.methodTypes t) fun types => ?_
  refine SpentAs.quietBefore (quiets_checks.fieldItems _ _) fun params => ?_
  refine SpentAs.quietBefore (quiets_checks.field _ _) fun selectors => ?_
  refine SpentAs.quietBefore (quiets_checks.selector _ _ _) fun selector => ?_
  have hsetters : Quiets (Declaration.checkSetters t selector owner.classId) := by
    cases owner.classId with
    | none => exact quiets_checks.pure _
    | some id => exact quiets_checks.judge.setterConflicts _ _ _
  refine SpentAs.quietBefore hsetters fun _ => ?_
  refine SpentAs.scope (P := Visits.ExactInside wrapped) ⟨rfl, rfl, rfl⟩ rfl rfl (fun inner => ?_)
    fun vs => exact_function htype
  have hend : Flat wrapped site.frame (do
      Declaration.recordMethod t (.ofMarker marker) selector types owner
      settle inner) :=
    Flat.quiets ((quiets_records.methods.recordMethod _ _ _ _ _).bind fun _ => Quiets.settle _)
  split
  · exact Scoped.flatAfter (hb.writeMethod _ _ _ _ _) fun _ => hend
  · exact .of_flat hend

theorem ClosesBodies.method (hb : ClosesBodies wrapped walk) :
    SpentAs wrapped site.frame (.node "objj_MethodDeclaration" · .nil)
      (Declaration.method walk t site) fun _ => True := by
  refine SpentAs.quietBefore Quiets.get fun s => ?_
  refine SpentAs.quietBefore (quiets_checks.ofOption _) fun owner => ?_
  dsimp only
  split
  · exact SpentAs.quietBefore (quiets_checks.fatalAt _ rfl) fun _ => hb.methodOf owner
  · exact hb.methodOf owner

/-! ### Files -/

theorem Scoped.within {role : StatementRole} {body : Gen Unit}
    (h : Scoped wrapped frame inner body P) :
    Scoped wrapped frame inner (within type role body) P := by
  intro s hframe hinner
  rw [Gen.within]
  simp only [wp_bind, wp_modify]
  refine (h { s with ancestry := s.ancestry.push type role } hframe hinner).imp fun _ t ht =>
    ⟨ht.1, fun hs hopen => ?_⟩
  obtain ⟨hcounts, hvs⟩ := ht.2 ⟨hs.objjScope, hs.nonneg, hs.le, hs.refs⟩
    ⟨hopen.owner, hopen.varFrame, hopen.level, hopen.maxLevel⟩
  exact ⟨⟨hcounts.objjScope, hcounts.nonneg, hcounts.le, hcounts.refs⟩, hvs⟩

/-- The code of a file that is wrapped in a function is the scope that the function is. -/
theorem VisitsNodes.file_whole (hw : VisitsNodes wrapped walk) (site : Site) (file : FrameId) :
    Scoped wrapped site.frame file (do
      text site.buffer "(function()"
      within "BlockStatement" .other
        (Statement.block walk t true { site with frame := file, type := "BlockStatement" })
      text site.buffer ")();"
      settle file
      settle site.frame) (Visits.Whole wrapped) := by
  have hopen : Flat wrapped site.frame (text site.buffer "(function()") :=
    Law.text (L := tempLaw wrapped Visits.closed_isFlat) _ _
  refine Scoped.before hopen (fun _ => ?_) fun xs ys hflat hxs hys => hys.before hflat hxs
  have hblock := hw.block_whole (t := t) { site with frame := file, type := "BlockStatement" }
    site.frame
  refine Scoped.after hblock.within (R := fun vs => vs.isClosing = true) (fun _ => ?_)
    fun xs ys hxs _ hys => hxs.after hys
  have hclose : Spent wrapped site.frame (text site.buffer ")();")
      fun vs => vs.isFlat = true ∧ vs.isClosing = true :=
    Spent.emit (p := .text ")();") rfl nofun ⟨rfl, rfl⟩
  have hsettle : Spent wrapped site.frame (do settle file; settle site.frame)
      fun vs => vs.isFlat = true ∧ vs.isClosing = true :=
    Spent.of_quiets ((Quiets.settle _).bind fun _ => Quiets.settle _) ⟨rfl, rfl⟩
  refine Spent.seq hclose (fun _ => hsettle) fun xs ys hxs hys => ?_
  exact ⟨Visits.isFlat_append hxs.1 hys.1, Visits.isClosing_append hxs.2 hys.2⟩

theorem exact_file (h : vs.Whole true) :
    ∀ scope ∈ (Visits.node "Program" vs .nil).scopes true, scope.Exact true := by
  intro scope hscope
  have htypes : Visits.isFunction "Program" = false ∧ Visits.isScope true "Program" = true := by
    decide
  simp only [Visits.scopes, Visits.scopesIn, htypes.1, htypes.2, Bool.false_eq_true, if_false,
    if_true, List.append_nil, List.mem_cons] at hscope
  rcases hscope with rfl | hscope
  · exact h.exact
  · exact h.scopes scope hscope

theorem Scoped.kept {k : FrameId → Gen Unit} (hf : f.level = 0)
    (hk : ∀ inner, Scoped wrapped frame inner (k inner) P) (hframe : frame < s.frames.store.size) :
    wp (newFrame f >>= k) (fun _ t => s.frames.Kept t.frames) (fun _ _ => True) s := by
  have hsize : (s.frames.new f).2.store.size = s.frames.store.size + 1 := by simp [Frames.new]
  have hkept : s.frames.Kept (s.frames.new f).2 := Frames.Kept.new hf
  rw [wp_bind, newFrame, wp_modifyGet]
  have hinner : s.frames.store.size < (s.frames.new f).2.store.size := by omega
  exact (hk _ { s with frames := (s.frames.new f).2 } (Nat.lt_of_lt_of_le hframe hkept.size)
    hinner).imp fun _ _ ht => hkept.trans ht.1

/-- Of a state with other settings nothing is said but that its frames stay. -/
theorem Spending.of_ne {count : Visits → Visits} (h : s.settings.objjScope ≠ wrapped)
    (hkept : s.frames.Kept u.frames) : Spending wrapped frame count P s u :=
  ⟨hkept, fun hs => absurd hs.objjScope h⟩

/-- A program is a scope of its own or a part of the global one, as the settings say. -/
theorem VisitsNodes.program (hw : VisitsNodes wrapped walk) :
    SpentAs wrapped site.frame (.node "Program" · .nil) (Statement.program walk t site)
      fun _ => True := by
  have hfile (file : FrameId) := hw.file_whole (t := t) site file
  have hlaw : (tempLaw wrapped closed_true).Allows site.frame (do
      Gen.inTurn walk (← fieldItems t "body") site
      settle site.frame) :=
    Law.fieldItems_bind (fun _ _ _ => trivial) fun _ hvs =>
      Law.bind _ (hw.walks.inTurn hvs) fun _ => (tempLaw_opens closed_true).settle _ _
  intro s hframe
  unfold Statement.program
  rw [wp_bind, wp_get]
  cases hscope : s.settings.objjScope with
  | true =>
    cases wrapped with
    | true => exact SpentAs.scope ⟨rfl, rfl, rfl⟩ rfl rfl hfile (fun _ => exact_file) s hframe
    | false =>
      exact (Scoped.kept rfl hfile hframe).imp fun _ _ hkept => .of_ne (by rw [hscope]; nofun) hkept
  | false =>
    cases wrapped with
    | true =>
      exact (hlaw s hframe).imp fun _ _ ht => .of_ne (by rw [hscope]; nofun) ht.1
    | false =>
      have htakes (vs : Visits) : Visits.Takes "Program" vs := by
        simp [Visits.Takes, Visits.isLiteral, Visits.isMessage]
      exact Spent.inside hlaw rfl (fun vs _ => ⟨rfl, htakes vs⟩) s hframe

/-! ### The walk -/

theorem not_mem_tempTypes (h : t.type ∉ scopedTypes) : t.type.name ∉ tempTypes := by
  cases htype : t.type
  all_goals first | exact absurd (by rw [htype]; decide) h | decide

theorem SpentAs.of_law {m : Gen Unit} (htype : type ∉ tempTypes)
    (h : (tempLaw wrapped closed_true).Allows frame m) :
    SpentAs wrapped frame (.node type · .nil) m fun _ => True := by
  obtain ⟨hscope, hliteral, hmessage⟩ := @not_tempType wrapped _ htype
  refine Spent.inside h hscope fun vs _ => ⟨?_, ?_, ?_⟩
  · simp [Visits.ownTemps, hliteral, hmessage]
  · rw [hliteral]
    rintro ⟨⟩
  · rw [hmessage]
    rintro ⟨⟩

/-- The form of a node spends what the node counts. -/
theorem VisitsNodes.form (hw : VisitsNodes wrapped walk) (hb : ClosesBodies wrapped walk)
    (site : Site) :
    SpentAs wrapped site.frame (.node t.type.name · .nil) (compileForm walk t site)
      fun _ => True := by
  by_cases htype : t.type ∈ scopedTypes
  · simp only [scopedTypes, List.mem_cons, List.not_mem_nil, or_false] at htype
    unfold compileForm
    rcases htype with htype | htype | htype | htype | htype | htype | htype
    · rw [htype]
      exact hw.program
    · rw [htype]
      exact hb.function rfl
    · rw [htype]
      exact hb.function rfl
    · rw [htype]
      exact hb.method
    · rw [htype]
      refine fun s hframe => (send_takes hw s hframe).imp fun _ _ h => ?_
      obtain ⟨_, _, hu⟩ := h
      exact hu.mono fun _ _ => trivial
    · rw [htype]
      refine SpentAs.quietBefore (quiets_checks.field _ _) fun elements => ?_
      refine (allocInit_inside hw _ _ _ _ ?_ rfl (.inl rfl)).mono fun _ _ => trivial
      simp [NodeType.name, Visits.isScope, Visits.isFunction]
    · rw [htype]
      refine SpentAs.quietBefore (quiets_checks.field _ _) fun values => ?_
      refine SpentAs.quietBefore (quiets_checks.field _ _) fun keys => ?_
      refine (allocInit_inside hw _ _ _ _ ?_ rfl (.inr rfl)).mono fun _ _ => trivial
      simp [NodeType.name, Visits.isScope, Visits.isFunction]
  · refine SpentAs.of_law (not_mem_tempTypes htype) ?_
    exact hw.walks.form (fun _ => tempLaw_encloses) (tempLaw_declares closed_true).declarations
      (fun _ _ _ => trivial) (fun _ => Law.parental fun _ => trivial) htype

theorem VisitsNodes.step (hw : VisitsNodes wrapped walk) (hb : ClosesBodies wrapped walk) :
    VisitsNodes wrapped (ObjectiveJ.step walk) := by
  intro manner v site hmanner
  cases v with
  | tree t =>
    have hform : SpentAs wrapped site.frame (.node (layoutType t manner) · .nil)
        (compileAs walk t manner { site with type := layoutType t manner }) fun _ => True := by
      rcases hmanner with rfl | rfl
      · exact hw.form hb { site with type := t.type.name }
      · have hbranch := hw.branch t { site with type := "ElseIfStatement" }
        exact SpentAs.of_law (by simp [layoutType, tempTypes]) hbranch
    refine (Spent.enclose hform).mono fun ws h => ?_
    obtain ⟨vs, rfl, _⟩ := h
    exact ⟨t, vs, rfl, rfl⟩
  | _ => exact fun _ _ => trivial

theorem ClosesBodies.step (hw : VisitsNodes wrapped walk) :
    ClosesBodies wrapped (ObjectiveJ.step walk) := by
  intro isLambda v site frame
  cases v with
  | tree t =>
    have hblock := hw.block_whole (t := t) { site with type := layoutType t (.body isLambda) } frame
    have hnode : Scoped wrapped frame site.frame (Gen.enclose (layoutType t (.body isLambda))
        (roleOf t) (compileAs walk t (.body isLambda)) site) _ := Scoped.enclose hblock
    intro s hframe hinner
    refine (hnode s hframe hinner).imp fun _ t ht => ⟨ht.1, fun hs hopen => ?_⟩
    obtain ⟨hcounts, ws, hmarks, hothers, vs, rfl, hvs⟩ := ht.2 hs hopen
    exact ⟨hcounts, _, hmarks, hothers, _, vs, rfl, hvs⟩
  | _ => exact fun _ _ _ => trivial

theorem visitsNodes_walk (wrapped : Bool) (n : Nat) :
    VisitsNodes wrapped (ObjectiveJ.walk n) ∧ ClosesBodies wrapped (ObjectiveJ.walk n) := by
  induction n with
  | zero => exact ⟨fun _ _ _ _ _ _ => trivial, fun _ _ _ _ _ _ _ => trivial⟩
  | succ n ih => exact ⟨ih.1.step ih.2, .step ih.1⟩

/-- A node gives back every temp that is taken in it. -/
theorem walk_keeps_level {n : Nat} {manner : Manner} {v : Value}
    (hframe : site.frame < s.frames.store.size)
    (h : (ObjectiveJ.walk n manner v site).run.run s = (.ok (), u)) (id : FrameId) :
    u.frames.level id = s.frames.level id := by
  obtain ⟨hw, hb⟩ := visitsNodes_walk true n
  have hkept : s.frames.Kept u.frames := by
    cases manner with
    | plain => exact (wp.ok (hw .plain v site (.inl rfl) s hframe) h).1
    | elseIf => exact (wp.ok (hw .elseIf v site (.inr rfl) s hframe) h).1
    | body isLambda => exact (wp.ok (hb isLambda v site site.frame s hframe hframe) h).1
  exact hkept.level id

/-! ### Units -/

theorem Frames.varFrame_new_root (hf : f.parent = none) :
    (({} : Frames).new f).2.varFrame 0 = 0 := by
  have hroot : (({} : Frames).new f).2.frame? 0 = some f := rfl
  have hkinds : (({} : Frames).new f).2.kinds 0 = [(0, f.kind)] := by
    rw [kinds, chain, hroot]
    simp only [hf, List.map_cons, List.map_nil]
  rw [varFrame_eq, hkinds, List.find?_singleton]
  cases f.kind.ownsVars <;> rfl

/-- The trace of a program is the code of the global scope. -/
theorem generate_whole (program : Value) (hframes : s.frames = {}) (htrace : s.trace = #[]) :
    wp (generate program) (fun _ t => (∃ vs : Visits, t.marks = vs.flatten ∧
      vs.Whole s.settings.objjScope) ∧ ∀ id, t.frames.level id = 0) (fun _ _ => True) s := by
  have hroot : ({ kind := .global } : Frame).IsNew := ⟨rfl, rfl, rfl⟩
  have hempty (id : FrameId) : s.frames.frame? id = none := by
    rw [hframes]
    rfl
  have hcounts : s.Counts s.settings.objjScope := by
    refine ⟨rfl, fun id => ?_, fun id => ?_, fun id f hf => ?_⟩
    · simp [Frames.level, hempty]
    · simp [Frames.level, Frames.maxLevel, hempty]
    · rw [hempty] at hf
      cases hf
  have hstart (id : FrameId) : s.frames.level id = 0 := by simp [Frames.level, hempty]
  have hkept : s.frames.Kept (s.frames.new { kind := .global }).2 := Frames.Kept.new rfl
  have hmax : (s.frames.new { kind := .global }).2.maxLevel 0 = 0 := by
    rw [Frames.maxLevel_new, hframes]
    rfl
  have hwalk := (visitsNodes_walk s.settings.objjScope program.height).1 .plain program
    { frame := 0 } (.inl rfl) { s with frames := (s.frames.new { kind := .global }).2 }
    (by simp [Frames.new, hframes])
  unfold generate
  rw [wp_bind, newFrame, wp_modifyGet, wp_bind]
  have hsize : (s.frames.new { kind := .global }).1 = 0 := by
    rw [hframes]
    rfl
  rw [hsize]
  refine hwalk.imp fun _ t ht => ?_
  obtain ⟨hafter, vs, hmarks, hspends, _⟩ := ht.2 (hcounts.new hroot)
  rw [show (s.frames.new { kind := .global }).2.varFrame 0 = 0 by
    rw [hframes]; exact Frames.varFrame_new_root rfl] at hspends
  have hlevel (id : FrameId) : t.frames.level id = 0 := by rw [ht.1.level, hkept.level, hstart]
  have hmost : t.frames.maxLevel 0 = vs.depth s.settings.objjScope := by
    rw [hspends.most, hmax, hkept.level, hstart]
    simp only [id]
    omega
  refine (wp_closeFrame 0 0 t).bind fun _ x hx => ?_
  obtain ⟨hsame, _, hdeclared⟩ := hx
  rw [modifyFrames, wp_modify]
  refine ⟨⟨vs ++ Visits.declaration (vs.depth s.settings.objjScope), ?_, vs, .nil, ?_, ?_, rfl,
    hspends.exact⟩, fun id => ?_⟩
  · change x.marks = _
    have hnone : GenState.marks { s with frames := (s.frames.new { kind := .global }).2 } = [] := by
      simp [GenState.marks, htrace]
    rw [hdeclared (by omega), hmost, hmarks, hnone, Int.toNat_natCast]
    simp
  · simp
  · have hnumbered := hspends.numbered
    rw [hkept.level, hstart] at hnumbered
    exact hnumbered
  · change (x.frames.setParked 0 []).level id = 0
    rw [Frames.level_eq, Frames.temps_setParked, ← Frames.level_eq, hsame, hlevel]

/-- What a text says, if the instruction is one. -/
def Instr.text? : Instr → Option String
  | .text _ value _ => value.text?
  | _ => none

namespace Compiler

variable {c : Compiler} {symbols : Symbols} {unit : CompileUnit}

/-- If the walk through a unit comes to its end, the instructions that the code is laid out from are
divided into visits of nodes. In each scope, that of the unit and those inside, the temps are
numbered by how deep they are nested and declared once at the end. A message takes a temp if its
receiver is no identifier, or one that is looked up as an instance variable, and is not `super`. No
temp is in use at the end, nor does any node leave one in use that was not before, so none is in use
when a scope closes. -/
theorem compile_temps_exact (hfinishes : c.Finishes symbols unit) :
    ∃ (source : Option String) (vs : Visits), unit.source? = some source ∧
      (c.outcome symbols unit source none).2.marks = vs.flatten ∧
      (∀ r, (c.compile symbols unit).1 = .ok r → ∃ indenter layout,
        ({ format := c.format, indenter } : Layout).run
          (c.outcome symbols unit source none).2.trace.toList = .ok layout ∧
        c.finish unit layout (c.outcome symbols unit source none).2.diagnostics = .ok r) ∧
      vs.Exact c.options.objjScope ∧
      (∀ scope ∈ vs.scopes c.options.objjScope, scope.Exact c.options.objjScope) ∧
      (∀ n (t : Tree) (site : Site) s u, site.frame < s.frames.store.size →
        s.Counts c.options.objjScope →
        (Message.send (ObjectiveJ.walk n) t site).run.run s = (.ok (), u) →
        ∃ receiver, ∃ inner : Visits, t.get? "receiver" = some receiver ∧
          u.marks = s.marks ++ inner.flatten ∧
          inner.assigned.length = (Message.takesTemp s site.frame receiver).toNat) ∧
      (∀ id, (c.outcome symbols unit source none).2.frames.level id = 0) ∧
      ∀ n manner v (site : Site) s t, site.frame < s.frames.store.size →
        (ObjectiveJ.walk n manner v site).run.run s = (.ok (), t) →
        ∀ id, t.frames.level id = s.frames.level id := by
  obtain ⟨source, hsource, hok⟩ := hfinishes
  obtain ⟨⟨vs, hmarks, hwhole⟩, hlevel⟩ := wp.ok (generate_whole
    (unit.program.numbered.run symbols.nodes).1
    (s := { c.start { symbols with nodes := (unit.program.numbered.run symbols.nodes).2 }
      source with
      settings := { (c.start { symbols with nodes := (unit.program.numbered.run symbols.nodes).2 }
        source).settings with stop := none } }) rfl rfl)
    (Prod.ext hok rfl : c.outcome symbols unit source none = (.ok (), _))
  refine ⟨source, vs, hsource, hmarks, fun r hr => ?_, hwhole.exact, hwhole.scopes,
    fun n t site s u hframe hcounts hu => ?_, hlevel, fun n manner v site s t => walk_keeps_level⟩
  · obtain ⟨indenter, layout, source', _, hsource', hrun, -, hd, hfinish⟩ := run_of_compile hr
    obtain rfl : source = source' := Option.mem_unique hsource hsource'
    rw [hok] at hd
    rw [← Except.ok.inj hd] at hfinish
    exact ⟨indenter, layout, hrun, hfinish⟩
  · obtain ⟨receiver, hreceiver, -, hspends⟩ :=
      (send_takes (visitsNodes_walk c.options.objjScope n).1 s hframe).ok hu
    obtain ⟨-, inner, hinner, -, htakes⟩ := hspends hcounts
    exact ⟨receiver, inner, hreceiver, hinner, htakes⟩

/-- The unit of a function in which `[[[sender owner] view] show]` is sent. -/
def nestedMessages : CompileUnit where
  program := .program [.function "respond" [.name "sender"]
    [.statement (.send (.send (.send (.name "sender") "owner" []) "view" []) "show" [])]]
  file := .str "src/main.j"

def wrapping : Compiler where
  options := {}
  format := {}
  predefined := {}

theorem compile_nestedMessages_exact : wrapping.Finishes {} nestedMessages ∧
    ∃ (source : Option String) (vs : Visits),
      (wrapping.outcome {} nestedMessages source none).2.marks = vs.flatten ∧ vs.Exact true ∧
      ∀ scope ∈ vs.scopes true, scope.Exact true := by
  have hsome : (wrapping.outcome {} nestedMessages none none).1.toOption.isSome = true := by
    decide +kernel
  have hfinishes : wrapping.Finishes {} nestedMessages := by
    refine ⟨none, rfl, ?_⟩
    cases houtcome : (wrapping.outcome {} nestedMessages none none).1 with
    | error e =>
      rw [houtcome] at hsome
      cases hsome
    | ok => rfl
  obtain ⟨source, vs, _, hmarks, _, hexact, hscopes, _⟩ := compile_temps_exact hfinishes
  exact ⟨hfinishes, source, vs, hmarks, hexact, hscopes⟩

/-- The unit `var x; @implementation A { id x; } - (id)m { [x foo]; } @end`. -/
def hiddenReceiver : CompileUnit where
  program :=
    let ivar : Value := .node .ivarDeclaration [("id", .name "x"), ("type", .null),
      ("is_outlet", .bool false), ("accessors", .null)]
    .program [.declaration [.declarator "x" .null], .classOf "A" .null .null .null [ivar]
      [.method "m" [.statement (.send (.name "x") "foo" [])]]]
  file := .str "src/main.j"

/-- A receiver that is an instance variable takes no temp if a variable around the class has its
name: `self.` is written for it, and no scope has a temp. -/
theorem compile_hiddenReceiver :
    (wrapping.outcome {} hiddenReceiver none none).1.toOption.isSome = true ∧
    "self." ∈ (wrapping.outcome {} hiddenReceiver none none).2.trace.toList.filterMap Instr.text? ∧
    ∀ frame ∈ (wrapping.outcome {} hiddenReceiver none none).2.frames.store.toList,
      frame.maxLevel = 0 := by
  decide +kernel

end Compiler

end ObjectiveJ
