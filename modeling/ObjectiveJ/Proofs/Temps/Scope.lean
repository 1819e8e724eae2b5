import ObjectiveJ.Proofs.Law.Function
import ObjectiveJ.Proofs.Law.Walk
import ObjectiveJ.Proofs.Temps.Message

/-!
# Functions, methods and files

A function, method or file opens a frame of its own. What is compiled in that frame takes temps of
it, and the declaration of these ends the code of the scope (`Visits.Whole`). To the frame around it
the scope takes nothing.
-/

namespace ObjectiveJ

open Gen

variable {k : α → Gen β} {m : Gen α} {vs : Visits} {f : Frame}

/-! ### Visits of a scope -/

namespace Visits

variable {wrapped : Bool} {vs ws : Visits}

theorem isFlat_append (h : vs.isFlat = true) (h' : ws.isFlat = true) :
    (vs ++ ws).isFlat = true := by
  induction vs with
  | nil => exact h'
  | piece p rest ih => exact ih h
  | node => cases h

theorem numbered_of_isFlat {level level' : Nat} (h : vs.isFlat = true)
    (hvs : vs.Numbered wrapped level) : vs.Numbered wrapped level' := by
  induction vs with
  | nil => trivial
  | piece p rest ih => exact ⟨hvs.1, ih h hvs.2⟩
  | node => cases h

theorem closed_isFlat : Closed fun vs => vs.isFlat = true :=
  ⟨rfl, fun _ _ => rfl, fun _ _ => isFlat_append⟩

/-- The code of a scope: numbered code, the declaration of its temps and closing brackets. The
scopes inside are exact. -/
def Whole (wrapped : Bool) (vs : Visits) : Prop :=
  ∃ code close, vs = code ++ declaration (code.depth wrapped) ++ close ∧ code.Numbered wrapped 0 ∧
    close.isClosing = true ∧ ∀ scope ∈ code.scopes wrapped, scope.Exact wrapped

theorem Whole.exact (h : vs.Whole wrapped) : vs.Exact wrapped := by
  obtain ⟨code, close, rfl, hcode, hclose, _⟩ := h
  exact .of_numbered hcode hclose

theorem Whole.scopes (h : vs.Whole wrapped) : ∀ scope ∈ vs.scopes wrapped, scope.Exact wrapped := by
  obtain ⟨code, close, rfl, _, hclose, hscopes⟩ := h
  simpa [Visits.scopes, scopesIn_of_isFlat _ (isFlat_of_isClosing hclose)] using hscopes

theorem Whole.before (h : vs.Whole wrapped) (hflat : ws.isFlat = true)
    (hws : ws.Numbered wrapped 0) : (ws ++ vs).Whole wrapped := by
  obtain ⟨code, close, rfl, hcode, hclose, hscopes⟩ := h
  refine ⟨ws ++ code, close, ?_, numbered_append.2 ⟨hws, hcode⟩, hclose, ?_⟩
  · simp [depth_of_isFlat hflat, append_assoc]
  · simpa [Visits.scopes, scopesIn_of_isFlat _ hflat] using hscopes

theorem isClosing_append (h : vs.isClosing = true) (h' : ws.isClosing = true) :
    (vs ++ ws).isClosing = true := by
  induction vs with
  | nil => exact h'
  | piece p rest ih =>
    rw [isClosing, Bool.and_eq_true] at h
    rw [piece_append, isClosing, Bool.and_eq_true]
    exact ⟨h.1, ih h.2⟩
  | node => cases h

theorem Whole.after (h : vs.Whole wrapped) (hws : ws.isClosing = true) :
    (vs ++ ws).Whole wrapped := by
  obtain ⟨code, close, rfl, hcode, hclose, hscopes⟩ := h
  exact ⟨code, close ++ ws, append_assoc .., hcode, isClosing_append hclose hws, hscopes⟩

end Visits

/-! ### Steps that write nothing -/

theorem Frames.temps_setParked (fs : Frames) (id : FrameId) (parked : List Parked) :
    (fs.setParked id parked).temps = fs.temps := temps_modify fun _ => rfl

/-- Changes of frames that keep the temps and what is remembered of `self.`. -/
def Frames.Quiet (fs gs : Frames) : Prop :=
  gs.temps = fs.temps ∧ ∀ ms, fs.RefsIn ms → gs.RefsIn ms

theorem Quiets.settle (frame : FrameId) : Quiets (Gen.settle frame) := by
  intro s
  have hquiet : s.frames.Quiet (s.settled frame).frames :=
    Diagnostics.settleAll_induction
      (fun gs parked ⟨htemps, hrefs⟩ => ⟨(Frames.temps_setParked ..).trans htemps,
        fun ms h => (hrefs ms h).modify fun _ hf => hf⟩) s.symbols ⟨rfl, fun _ h => h⟩ _ _
  exact wp_settle frame ⟨hquiet.1, rfl, fun h => ⟨hquiet.2 _ h, rfl⟩, fun _ => rfl⟩ trivial

theorem Frames.quiet_copyIvarRefs (fs : Frames) (id : FrameId) : fs.Quiet (fs.copyIvarRefs id) := by
  refine copyIvarRefs_induction ⟨rfl, fun _ h => h⟩ fun gs f up e hf _ he ⟨htemps, hrefs⟩ => ?_
  have hadded : (gs.addIvarRefs up e.1 e.2.1 e.2.2).temps = gs.temps := temps_modify fun _ => rfl
  refine ⟨hadded.trans htemps, fun ms h => ?_⟩
  exact (hrefs ms h).addIvarRefs _ _ _ fun r hr => h id f hf e he r hr

theorem Quiets.copyIvarRefs (id : FrameId) : Quiets (modifyFrames (·.copyIvarRefs id)) := fun s =>
  have hquiet := s.frames.quiet_copyIvarRefs id
  ⟨hquiet.1, rfl, fun h => ⟨hquiet.2 _ h, rfl⟩, fun _ => rfl⟩

theorem quiets_records : Records @Quiets where
  toJudges := quiets_checks.judge
  symbols _ _ := ⟨rfl, rfl, fun h => ⟨h, rfl⟩, fun _ => rfl⟩

theorem Quiets.setMethods (methods : Option MethodBuffers) :
    Quiets (modify fun s => { s with methods } : Gen Unit) :=
  fun _ => ⟨rfl, rfl, fun h => ⟨h, rfl⟩, fun _ => rfl⟩

/-! ### New frames -/

variable {wrapped : Bool} {frame inner owner : FrameId} {α β : Type} {walk : Walker} {t : Tree}
  {site : Site} {s : GenState} {fs gs : Frames} {P : Visits → Prop}

theorem Frames.maxLevel_new (f : Frame) (id : FrameId) : (fs.new f).2.maxLevel id =
    if id = fs.store.size then f.maxLevel else fs.maxLevel id := by
  rw [maxLevel, maxLevel, frame?_new]
  split <;> rfl

/-- A frame without temps, as it is opened. -/
structure Frame.IsNew (f : Frame) : Prop where
  level : f.level = 0
  maxLevel : f.maxLevel = 0
  ivarRefs : f.ivarRefs = {}

theorem GenState.Counts.new (h : s.Counts wrapped) (hf : f.IsNew) :
    { s with frames := (s.frames.new f).2 }.Counts wrapped where
  objjScope := h.objjScope
  nonneg id := by
    rw [(Frames.Kept.new hf.level).level]
    exact h.nonneg id
  le id := by
    rw [(Frames.Kept.new hf.level).level, Frames.maxLevel_new]
    split
    · rename_i hid
      rw [hid, Frames.level_of_size_le (Nat.le_refl _)]
      exact Int.le_of_eq hf.maxLevel.symm
    · exact h.le id
  refs := h.refs.new hf.ivarRefs

/-- A frame for variables has been opened and has taken no temps yet. -/
structure GenState.Opened (s : GenState) (frame inner : FrameId) : Prop where
  owner : s.frames.varFrame frame ≠ inner
  varFrame : s.frames.varFrame inner = inner
  level : s.frames.level inner = 0
  maxLevel : s.frames.maxLevel inner = 0

theorem GenState.Opened.new (hframe : frame < s.frames.store.size) (hf : f.IsNew)
    (hkind : f.kind.ownsVars = true) :
    { s with frames := (s.frames.new f).2 }.Opened frame s.frames.store.size where
  owner := by
    rw [(Frames.Kept.new hf.level).varFrame hframe]
    exact Nat.ne_of_lt (Frames.varFrame_lt hframe)
  varFrame := Frames.varFrame_of_ownsVars (by rw [Frames.frame?_new, if_pos rfl]) hkind
  level := by
    rw [(Frames.Kept.new hf.level).level]
    exact Frames.level_of_size_le (Nat.le_refl _)
  maxLevel := by
    rw [Frames.maxLevel_new, if_pos rfl]
    exact hf.maxLevel

/-- What becomes of a state when a scope is compiled: only the frame of the scope takes temps. -/
def Scoping (wrapped : Bool) (frame inner : FrameId) (P : Visits → Prop) (s t : GenState) : Prop :=
  s.frames.Kept t.frames ∧ (s.Counts wrapped → s.Opened frame inner → t.Counts wrapped ∧ ∃ vs,
    t.marks = s.marks ++ vs.flatten ∧
      (∀ i < s.frames.store.size, i ≠ inner → t.frames.maxLevel i = s.frames.maxLevel i) ∧ P vs)

def Scoped (wrapped : Bool) (frame inner : FrameId) {α : Type} (m : Gen α) (P : Visits → Prop) :
    Prop :=
  ∀ s : GenState, frame < s.frames.store.size → inner < s.frames.store.size →
    wp m (fun _ t => Scoping wrapped frame inner P s t) (fun _ _ => True) s

abbrev Flat (wrapped : Bool) (frame : FrameId) {α : Type} (m : Gen α) : Prop :=
  Spent wrapped frame m fun vs => vs.isFlat = true

theorem Spends.maxLevel_of_isFlat (h : Spends wrapped owner fs gs vs) (hflat : vs.isFlat = true)
    (hle : fs.level owner ≤ fs.maxLevel owner) :
    ∀ i < fs.store.size, gs.maxLevel i = fs.maxLevel i := by
  intro i hi
  by_cases hne : i = owner
  · rw [hne, h.most, Visits.depth_of_isFlat hflat]
    omega
  · exact h.others i hi hne

theorem Scoped.before (hm : Flat wrapped frame m) (hk : ∀ a, Scoped wrapped frame inner (k a) P)
    (hP : ∀ xs ys, xs.isFlat = true → xs.Numbered wrapped 0 → P ys → P (xs ++ ys)) :
    Scoped wrapped frame inner (m >>= k) P := by
  intro s hframe hinner
  refine (hm s hframe).bind fun a t ht => ?_
  have hsize := ht.1.size
  refine (hk a t (Nat.lt_of_lt_of_le hframe hsize) (Nat.lt_of_lt_of_le hinner hsize)).imp
    fun b u hu => ⟨ht.1.trans hu.1, fun hs hopen => ?_⟩
  obtain ⟨hcounts, xs, hmarks, hspends, hflat⟩ := ht.2 hs
  have hmax := hspends.maxLevel_of_isFlat hflat (hs.le _)
  have hopened : t.Opened frame inner := by
    refine ⟨?_, ?_, ?_, ?_⟩
    · rw [ht.1.varFrame hframe]
      exact hopen.owner
    · rw [ht.1.varFrame hinner]
      exact hopen.varFrame
    · rw [ht.1.level]
      exact hopen.level
    · rw [hmax inner hinner]
      exact hopen.maxLevel
  obtain ⟨hcounts', ys, hmarks', hothers, hys⟩ := hu.2 hcounts hopened
  refine ⟨hcounts', xs ++ ys, ?_, fun i hi hne => ?_, hP xs ys hflat ?_ hys⟩
  · rw [hmarks', hmarks, Visits.flatten_append, List.append_assoc]
  · rw [hothers i (Nat.lt_of_lt_of_le hi hsize) hne, hmax i hi]
  · exact Visits.numbered_of_isFlat hflat hspends.numbered

theorem Scoped.after (hm : Scoped wrapped frame inner m P) {R : Visits → Prop}
    (hk : ∀ a, Spent wrapped frame (k a) fun vs => vs.isFlat = true ∧ R vs)
    (hP : ∀ xs ys, P xs → ys.isFlat = true → R ys → P (xs ++ ys)) :
    Scoped wrapped frame inner (m >>= k) P := by
  intro s hframe hinner
  refine (hm s hframe hinner).bind fun a t ht => ?_
  have hsize := ht.1.size
  refine (hk a t (Nat.lt_of_lt_of_le hframe hsize)).imp fun b u hu =>
    ⟨ht.1.trans hu.1, fun hs hopen => ?_⟩
  obtain ⟨hcounts, xs, hmarks, hothers, hxs⟩ := ht.2 hs hopen
  obtain ⟨hcounts', ys, hmarks', hspends, hflat, hys⟩ := hu.2 hcounts
  have hmax := hspends.maxLevel_of_isFlat hflat (hcounts.le _)
  refine ⟨hcounts', xs ++ ys, ?_, fun i hi hne => ?_, hP xs ys hxs hflat hys⟩
  · rw [hmarks', hmarks, Visits.flatten_append, List.append_assoc]
  · rw [hmax i (Nat.lt_of_lt_of_le hi hsize), hothers i hi hne]

/-- A node that is a scope opens a frame, and takes nothing of the frame around it. -/
theorem SpentAs.scope {type : String} {k : FrameId → Gen Unit} (hf : f.IsNew)
    (hkind : f.kind.ownsVars = true) (hscope : Visits.isScope wrapped type = true)
    (hk : ∀ inner, Scoped wrapped frame inner (k inner) P)
    (hP : ∀ vs, P vs → ∀ scope ∈ (Visits.node type vs .nil).scopes wrapped, scope.Exact wrapped) :
    SpentAs wrapped frame (.node type · .nil) (newFrame f >>= k) fun _ => True := by
  intro s hframe
  have hsize : (s.frames.new f).2.store.size = s.frames.store.size + 1 := by simp [Frames.new]
  have hkept : s.frames.Kept (s.frames.new f).2 := Frames.Kept.new hf.level
  have hframe' : frame < (s.frames.new f).2.store.size := Nat.lt_of_lt_of_le hframe hkept.size
  have hinner : s.frames.store.size < (s.frames.new f).2.store.size := by omega
  rw [wp_bind, newFrame, wp_modifyGet]
  refine (hk s.frames.store.size { s with frames := (s.frames.new f).2 } hframe' hinner).imp
    fun _ t ht => ?_
  refine ⟨hkept.trans ht.1, fun hs => ?_⟩
  obtain ⟨hcounts, vs, hmarks, hothers, hvs⟩ := ht.2 (hs.new hf) (.new hframe hf hkind)
  have hmax : ∀ i < s.frames.store.size, t.frames.maxLevel i = s.frames.maxLevel i := by
    intro i hi
    rw [hothers i (Nat.lt_of_lt_of_le hi hkept.size) (Nat.ne_of_lt hi), Frames.maxLevel_new,
      if_neg (Nat.ne_of_lt hi)]
  refine ⟨hcounts, vs, hmarks, ⟨fun i hi _ => hmax i hi, ?_, ?_, hP vs hvs⟩, trivial⟩
  · have hle := hs.le (s.frames.varFrame frame)
    rw [hmax _ (Frames.varFrame_lt hframe), Visits.depth, Visits.depth, hscope, if_pos rfl]
    simp only [Nat.max_self, Int.natCast_zero, Int.add_zero]
    omega
  · refine ⟨fun h => ?_, trivial⟩
    rw [hscope] at h
    cases h

/-! ### Blocks that close a scope -/

def Emits (m : Gen Unit) (P : Visits → Prop) : Prop :=
  ∀ s, wp m (fun _ t => t.frames = s.frames ∧ t.settings = s.settings ∧
    ∃ vs, t.marks = s.marks ++ vs.flatten ∧ P vs) (fun _ _ => True) s

theorem Emits.emit {i : Instr} {p : Piece} (hi : i.mark = .piece p) (hP : P (.piece p .nil)) :
    Emits (Gen.emit i) P := fun s =>
  (wp_emit i s).imp fun _ _ ⟨hframes, hsettings, hmarks⟩ =>
    ⟨hframes, hsettings, _, by rw [hmarks, hi]; rfl, hP⟩

theorem Emits.seq {m : Gen Unit} {k : Unit → Gen Unit} {Q R : Visits → Prop} (hm : Emits m P)
    (hk : Emits (k ()) Q) (hR : ∀ xs ys, P xs → Q ys → R (xs ++ ys)) : Emits (m >>= k) R := by
  intro s
  refine (hm s).bind fun _ t ⟨hframes, hsettings, xs, hmarks, hxs⟩ => ?_
  refine (hk t).imp fun _ u ⟨hframes', hsettings', ys, hmarks', hys⟩ => ?_
  refine ⟨hframes'.trans hframes, hsettings'.trans hsettings, xs ++ ys, ?_, hR xs ys hxs hys⟩
  rw [hmarks', hmarks, Visits.flatten_append, List.append_assoc]

theorem emits_hook (buffer : Nat) (type : String) {key : String} (h : key ≠ "before")
    (h' : key ≠ "after") : Emits (hook buffer type key) (·.isClosing = true) := by
  intro s
  rw [hook, hookOf, wp_bind, wp_get]
  have hmark : (Instr.hook buffer type (.plain key) s.ancestry).mark = .piece .other := by
    simp [Instr.mark, h, h']
  exact Emits.emit (P := (·.isClosing = true)) hmark rfl s

theorem Emits.seqEq {m : Gen Unit} {k : Unit → Gen Unit} {xs ys : Visits} (hm : Emits m (· = xs))
    (hk : Emits (k ()) (· = ys)) : Emits (m >>= k) (· = xs ++ ys) :=
  hm.seq hk fun _ _ hxs hys => by rw [hxs, hys]

theorem emits_text (buffer : Nat) {s : String} (h : s ≠ "self.") :
    Emits (text buffer s) (· = .piece (.text s) .nil) :=
  Emits.emit (by simp [Instr.mark, h]) rfl

theorem emits_rightBrace (buffer : Nat) (type : String) :
    Emits (formatted buffer type "\x7d" "right-brace") (·.isClosing = true) := by
  refine (emits_hook _ _ (by simp) (by simp)).seq ?_ fun _ _ => Visits.isClosing_append
  refine Emits.seq (Emits.emit (p := .text "\x7d") rfl ?_) (emits_hook _ _ (by simp) (by simp))
    fun _ _ => Visits.isClosing_append
  simp [Visits.isClosing]

theorem tempNames_ne_self (count : Nat) :
    ", ".intercalate ((List.range (count + 1)).map fun (i : Nat) => tempName (i + 1)) ≠
      "self." := by
  intro h
  have hhead := congrArg (fun s : String => s.toList.head?) h
  rw [List.range_succ_eq_map, List.map_cons] at hhead
  cases hrest : (List.map Nat.succ (List.range count)).map fun (i : Nat) => tempName (i + 1) with
  | nil =>
    rw [hrest, String.intercalate_singleton] at hhead
    simp [tempName, String.toList_append] at hhead
  | cons other rest =>
    rw [hrest, String.intercalate_cons_cons] at hhead
    simp [tempName, String.toList_append] at hhead

/-- The temps that a frame has used are declared. -/
theorem wp_closeFrame (frame : FrameId) (buffer : Nat) (s : GenState) :
    wp (closeFrame frame buffer) (fun _ t => t.frames = s.frames ∧ t.settings = s.settings ∧
      (0 ≤ s.frames.maxLevel frame →
        t.marks = s.marks ++ (Visits.declaration (s.frames.maxLevel frame).toNat).flatten))
      (fun _ _ => True) s := by
  unfold closeFrame
  rw [wp_bind, wp_get]
  change wp (if s.frames.maxLevel frame = 0 then _ else _) _ _ s
  split
  · rename_i hzero
    refine ⟨rfl, rfl, fun _ => ?_⟩
    rw [hzero]
    exact (List.append_nil _).symm
  · rename_i hused
    have htemplate : Emits (template buffer tempsHeader)
        (· = .piece (.template tempsHeader) .nil) :=
      Emits.emit rfl rfl
    have hdeclares (count : Nat) : Emits (do
        template buffer "\n\n// Generated receiver temp variables\nvar "
        text buffer (", ".intercalate
          ((List.range count).map fun (i : Nat) => tempName (i + 1)))
        text buffer ";") (fun vs => count ≠ 0 → vs = Visits.declaration count) := by
      have hnames : ", ".intercalate ((List.range count).map fun (i : Nat) => tempName (i + 1)) ≠
          "self." := by
        cases count with
        | zero => decide
        | succ count => exact tempNames_ne_self count
      intro s
      refine (htemplate.seqEq ((emits_text buffer hnames).seqEq
        (emits_text buffer (by decide))) s).imp fun _ t ⟨hframes, hsettings, vs, hmarks, hvs⟩ => ?_
      refine ⟨hframes, hsettings, vs, hmarks, fun hcount => ?_⟩
      rw [hvs, Visits.declaration, if_neg hcount]
      rfl
    refine (hdeclares (s.frames.maxLevel frame).toNat s).imp fun _ _ ⟨hframes, hsettings, vs,
      hmarks, hvs⟩ =>
      ⟨hframes, hsettings, fun hnonneg => ?_⟩
    rw [hmarks, hvs (by omega)]

/-- The block of a function, method or file is the code of its scope. -/
theorem VisitsNodes.block_whole (hw : VisitsNodes wrapped walk) (site : Site) (frame : FrameId) :
    Scoped wrapped frame site.frame (Statement.block walk t true site) (Visits.Whole wrapped) := by
  have hcode : Spent wrapped site.frame (do
      formatted site.buffer site.type "\x7b" "left-brace"
      Gen.inTurn walk (← fieldItems t "body") site) fun _ => True := by
    have hhook (key : String) (hkey : key ≠ "before" ∧ key ≠ "after") :
        Spent wrapped site.frame (hook site.buffer site.type key) fun _ => True :=
      Spent.look closed_true fun s =>
        Spent.emit_other ((if_neg hkey.1).trans (if_neg hkey.2)) trivial
    have hbrace : Spent wrapped site.frame
        (formatted site.buffer site.type "\x7b" "left-brace") fun _ => True :=
      (hhook "before-left-brace" (by decide)).seq (fun _ => (Spent.plainInstr closed_true rfl).seq
        (fun _ => hhook "after-left-brace" (by decide)) closed_true.append) closed_true.append
    have hsequence : (tempLaw wrapped closed_true).Allows site.frame (do
        Gen.inTurn walk (← fieldItems t "body") site) :=
      Law.fieldItems_bind (fun _ _ _ => trivial) fun _ hvs => hw.walks.inTurn hvs
    exact hbrace.seq (fun _ => hsequence) closed_true.append
  have heq : Statement.block walk t true site = (do
      (do
        formatted site.buffer site.type "\x7b" "left-brace"
        Gen.inTurn walk (← fieldItems t "body") site)
      closeFrame site.frame site.buffer
      formatted site.buffer site.type "\x7d" "right-brace") := by
    simp [Statement.block, bind_assoc]
  intro s _ hinner
  rw [heq, wp_bind]
  refine (hcode s hinner).imp fun _ t ht => ?_
  refine (wp_closeFrame _ _ t).bind fun _ u hu => ?_
  refine (emits_rightBrace _ _ u).imp fun _ x hx => ?_
  obtain ⟨hframes, hsettings, hdeclared⟩ := hu
  obtain ⟨hframes', hsettings', close, hclosed, hclose⟩ := hx
  have hsame : x.frames = t.frames := hframes'.trans hframes
  refine ⟨hsame ▸ ht.1, fun hs hopen => ?_⟩
  obtain ⟨hcounts, code, hmarks, hspends, _⟩ := ht.2 hs
  rw [hopen.varFrame] at hspends
  have hmost : t.frames.maxLevel site.frame = code.depth wrapped := by
    rw [hspends.most, hopen.maxLevel, hopen.level]
    simp only [id]
    omega
  have hnumbered := hspends.numbered
  rw [hopen.level] at hnumbered
  have hdeclared : u.marks = t.marks ++ (Visits.declaration (code.depth wrapped)).flatten := by
    rw [hdeclared (by omega), hmost, Int.toNat_natCast]
  have hmarks' : x.marks = s.marks ++
      (code ++ Visits.declaration (code.depth wrapped) ++ close).flatten := by
    rw [hclosed, hdeclared, hmarks]
    simp [List.append_assoc]
  have hmore : x.marks = t.marks ++ (Visits.declaration (code.depth wrapped) ++ close).flatten := by
    rw [hclosed, hdeclared]
    simp [List.append_assoc]
  refine ⟨hcounts.more hsame (hsettings'.trans hsettings) hmore, _, hmarks', ?_, ?_⟩
  · intro i hi hne
    rw [hsame]
    exact hspends.others i hi hne
  · exact ⟨code, close, rfl, hnumbered, hclose, hspends.exact⟩

/-- The walk of a body writes the code of its scope. -/
def ClosesBodies (wrapped : Bool) (walk : Walker) : Prop :=
  ∀ isLambda v site frame, Scoped wrapped frame site.frame (walk (.body isLambda) v site)
    fun vs => ∃ type code, vs = .node type code .nil ∧ code.Whole wrapped

theorem Scoped.enclose {type : String} {role : StatementRole} {body : Walk}
    (h : Scoped wrapped frame inner (body { site with type }) P) :
    Scoped wrapped frame inner (Gen.enclose type role body site)
      fun ws => ∃ vs, ws = .node type vs .nil ∧ P vs := by
  intro s hframe hinner
  refine wp_enclose fun t hframes hsettings hbefore => ?_
  refine (h t (hframes ▸ hframe) (hframes ▸ hinner)).imp fun _ u hu x hframes' hsettings'
    hafter => ?_
  have hkept : s.frames.Kept u.frames := hframes ▸ hu.1
  refine ⟨hframes' ▸ hkept, fun hs hopen => ?_⟩
  have hopened : t.Opened frame inner := by
    obtain ⟨howner, hvar, hlevel, hmax⟩ := hopen
    exact ⟨hframes ▸ howner, hframes ▸ hvar, hframes ▸ hlevel, hframes ▸ hmax⟩
  obtain ⟨hcounts, vs, hmarks, hothers, hP⟩ := hu.2 (hs.more hframes hsettings hbefore) hopened
  refine ⟨hcounts.more hframes' hsettings' hafter, .node type vs .nil, ?_, ?_, vs, rfl, hP⟩
  · rw [hafter, hmarks, hbefore]
    simp [Visits.flatten]
  · intro i hi hne
    rw [hframes', hothers i (hframes ▸ hi) hne, hframes]

/-! ### Functions and methods -/

/-- Visits inside of a function of which the scopes are exact. -/
def Visits.ExactInside (wrapped : Bool) (vs : Visits) : Prop :=
  ∀ scope ∈ vs.scopesIn wrapped true, scope.Exact wrapped

theorem Visits.ExactInside.of_isFlat (h : vs.isFlat = true) : vs.ExactInside wrapped := by
  intro scope hscope
  rw [scopesIn_of_isFlat _ h] at hscope
  cases hscope

theorem Visits.ExactInside.append {ws : Visits} (hvs : vs.ExactInside wrapped)
    (hws : ws.ExactInside wrapped) : (vs ++ ws).ExactInside wrapped := by
  intro scope hscope
  rw [scopesIn_append, List.mem_append] at hscope
  exact hscope.elim (hvs scope) (hws scope)

theorem Scoped.flatBefore (hm : Flat wrapped frame m)
    (hk : ∀ a, Scoped wrapped frame inner (k a) (Visits.ExactInside wrapped)) :
    Scoped wrapped frame inner (m >>= k) (Visits.ExactInside wrapped) :=
  .before hm hk fun _ _ hxs _ hys => (Visits.ExactInside.of_isFlat hxs).append hys

theorem Scoped.flatAfter (hm : Scoped wrapped frame inner m (Visits.ExactInside wrapped))
    (hk : ∀ a, Flat wrapped frame (k a)) :
    Scoped wrapped frame inner (m >>= k) (Visits.ExactInside wrapped) :=
  hm.after (R := fun _ => True) (fun a => (hk a).mono fun _ h => ⟨h, trivial⟩)
    fun _ _ hxs hys _ => hxs.append (.of_isFlat hys)

theorem Scoped.of_flat (hm : Flat wrapped frame m) :
    Scoped wrapped frame inner m (Visits.ExactInside wrapped) := by
  intro s hframe _
  refine (hm s hframe).imp fun _ t ht => ⟨ht.1, fun hs _ => ?_⟩
  obtain ⟨hcounts, vs, hmarks, hspends, hflat⟩ := ht.2 hs
  have hmax := hspends.maxLevel_of_isFlat hflat (hs.le _)
  exact ⟨hcounts, vs, hmarks, fun i hi _ => hmax i hi, .of_isFlat hflat⟩

theorem ClosesBodies.body (hb : ClosesBodies wrapped walk) (isLambda : Bool) (v : Value)
    (site : Site) :
    Scoped wrapped frame site.frame (walk (.body isLambda) v site)
      (Visits.ExactInside wrapped) := by
  intro s hframe hinner
  refine (hb isLambda v site frame s hframe hinner).imp fun _ t ht => ⟨ht.1, fun hs hopen => ?_⟩
  obtain ⟨hcounts, vs, hmarks, hothers, type, code, rfl, hcode⟩ := ht.2 hs hopen
  refine ⟨hcounts, _, hmarks, hothers, fun scope hscope => ?_⟩
  rw [Visits.scopesIn, if_pos rfl, Visits.scopesIn, List.append_nil, List.mem_cons] at hscope
  rcases hscope with rfl | hscope
  · exact hcode.exact
  · exact hcode.scopes scope hscope

theorem Spends.congr {hs : Frames} (htemps : gs.temps = fs.temps)
    (h : Spends wrapped owner gs hs vs) : Spends wrapped owner fs hs vs := by
  have hlevel (i : FrameId) : gs.level i = fs.level i := by
    rw [Frames.level_eq, Frames.level_eq, htemps]
  have hmax (i : FrameId) : gs.maxLevel i = fs.maxLevel i := by
    rw [Frames.maxLevel_eq, Frames.maxLevel_eq, htemps]
  have hsize := (Frames.Kept.of_temps htemps).size
  refine ⟨fun i hi hne => ?_, ?_, ?_, h.exact⟩
  · rw [h.others i (Nat.lt_of_lt_of_le hi hsize) hne, hmax]
  · rw [h.most, hmax, hlevel]
  · rw [← hlevel]
    exact h.numbered

theorem SpentAs.quietBefore {count : Visits → Visits} (hm : Quiets m)
    (hk : ∀ a, SpentAs wrapped frame count (k a) P) : SpentAs wrapped frame count (m >>= k) P := by
  intro s hframe
  refine (hm s).bind fun a t ht => ?_
  obtain ⟨hkept, hquiet⟩ : Spending wrapped frame id (fun _ => True) s t :=
    Spending.of_quiet ht trivial
  refine (hk a t (Nat.lt_of_lt_of_le hframe hkept.size)).imp fun b u hu => ?_
  refine ⟨hkept.trans hu.1, fun hs => ?_⟩
  obtain ⟨hcounts, vs, hmarks, hspends, hvs⟩ := hu.2 (hquiet hs).1
  rw [hkept.varFrame hframe] at hspends
  refine ⟨hcounts, vs, ?_, hspends.congr ht.temps, hvs⟩
  rw [hmarks, (ht.refs hs.refs).2]

end ObjectiveJ
