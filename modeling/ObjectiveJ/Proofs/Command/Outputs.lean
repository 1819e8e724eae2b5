import Mathlib.Data.List.Nodup
import ObjectiveJ.Command.Run
import ObjectiveJ.Host.Memory

/-!
# Where the code of several inputs goes

Each input gets a file in the output directory, which is named after the last name in the path of
the input, without its suffix. Inputs from different directories, or with different suffixes, may
get the same file. Then each of them writes its code there, and the last one of them stays
(`perform_outputs`).
-/

namespace ObjectiveJ

variable {text : String}

variable {ε α : Type} {s t u : Memory} {cwd : List String}

/-! ### Files in a directory -/

namespace Memory

variable {place : List String}

/-- Where names lead from a place. -/
def follow (place names : List String) : List String :=
  names.foldl (fun place name => if name = "." then place else Path.follow place name) place

theorem locate_ok {start names : List String} (h : s.locate start names = .ok place) :
    place = follow start names := by
  induction names generalizing start with
  | nil =>
    cases h
    rfl
  | cons name rest ih =>
    rw [locate, List.foldlM_cons] at h
    cases hstep : s.step start name with
    | error e =>
      rw [hstep] at h
      cases h
    | ok next =>
      rw [hstep] at h
      have hnext : next = if name = "." then start else Path.follow start name := by
        unfold step at hstep
        split at hstep
        · cases hstep
        split at hstep
        · cases hstep
        · exact (Except.ok.inj hstep).symm
      rw [follow, List.foldl_cons, ← hnext]
      exact ih h

def directory (cwd : List String) (dir : Path) : List String :=
  follow (if dir.root = "" then cwd else []) dir.parts

theorem key_concat_inj {a b : String} : key (place ++ [a]) = key (place ++ [b]) ↔ a = b := by
  unfold key
  induction place with
  | nil => simp
  | cons x rest ih =>
    cases rest with
    | nil => simp [String.intercalate_cons_cons]
    | cons y ys => simpa [String.intercalate_cons_cons] using ih

theorem find_child {dir : Path} {name : String} (hname : name ∉ [".", ".."])
    (h : s.find (dir.child name) = .ok place) : place = directory s.cwd dir ++ [name] := by
  unfold find at h
  cases hcheck : checkText (dir.child name).text with
  | error e =>
    rw [hcheck] at h
    cases h
  | ok _ =>
    rw [hcheck] at h
    have hplace := locate_ok h
    simp only [List.mem_cons, List.not_mem_nil, or_false, not_or] at hname
    rw [hplace, Path.child, follow, List.foldl_append, List.foldl_cons, List.foldl_nil,
      if_neg hname.1, Path.follow, if_neg hname.2]
    rfl

/-- A file that is written in a directory has the text, and the others there are what they were. -/
theorem file?_write {dir : Path} {name : String} (hname : name ∉ [".", ".."])
    (h : s.write (dir.child name) text = .ok t) : t.cwd = s.cwd ∧ ∀ other,
      t.file? (directory s.cwd dir ++ [other]) =
        if other = name then some text else s.file? (directory s.cwd dir ++ [other]) := by
  unfold write at h
  cases hfind : s.find (dir.child name) with
  | error e =>
    rw [hfind] at h
    cases h
  | ok place =>
    obtain rfl := find_child hname hfind
    rw [hfind] at h
    dsimp only [bind, Except.bind] at h
    split at h
    · cases h
    · cases h
      refine ⟨rfl, fun other => ?_⟩
      by_cases hother : other = name
      · rw [if_pos hother, hother]
        exact Table.get?_set_self ..
      · rw [if_neg hother]
        exact Table.get?_set_ne _ (fun hkey => hother (key_concat_inj.1 hkey)) _

theorem run_attempt (f : Memory → Except FileError Memory) (s : Memory) :
    (attempt f).run s = match f s with
    | .ok s => (.ok (), s)
    | .error e => (.error e, s) := rfl

end Memory

/-! ### Steps over files in memory -/

/-- If a step comes to a result, then the result and the memory afterwards are as required. -/
def Ends (x : ExceptT ε (StateM Memory) α) (Q : α → Memory → Prop) (s : Memory) : Prop :=
  ∀ a t, x.run.run s = (.ok a, t) → Q a t

namespace Ends

variable {β : Type} {Q : α → Memory → Prop}

theorem pure {a : α} (h : Q a s) : Ends (pure a : ExceptT ε (StateM Memory) α) Q s := by
  rintro a t hrun
  cases hrun
  exact h

theorem throw (e : ε) : Ends (throw e : ExceptT ε (StateM Memory) α) Q s := nofun

theorem bind {x : ExceptT ε (StateM Memory) β} {f : β → ExceptT ε (StateM Memory) α}
    (h : Ends x (fun b t => Ends (f b) Q t) s) : Ends (x >>= f) Q s := by
  intro a u hrun
  simp only [ExceptT.run, StateT.run, Bind.bind, ExceptT.bind, ExceptT.mk, StateT.bind,
    ExceptT.bindCont] at hrun
  rcases hx : x s with ⟨e | b, t⟩
  · rw [hx] at hrun
    cases hrun
  · rw [hx] at hrun
    exact h b t hx a u hrun

theorem mono {Q' : α → Memory → Prop} {x : ExceptT ε (StateM Memory) α} (h : Ends x Q s)
    (hQ : ∀ a t, Q a t → Q' a t) : Ends x Q' s := fun a t hrun => hQ a t (h a t hrun)

theorem mk {r : Except ε α} (h : ∀ a, r = .ok a → Q a s) :
    Ends (ExceptT.mk (Pure.pure r) : ExceptT ε (StateM Memory) α) Q s := by
  rintro a t hrun
  cases hrun
  exact h a rfl

theorem sayError {Q : Unit → Memory → Prop} (h : ∀ errors, Q () { s with errors }) :
    Ends (liftM ((Memory.host cwd).sayError text) : ExceptT ε (StateM Memory) Unit) Q s := by
  rintro a t hrun
  cases hrun
  exact h _

theorem adapt {δ : Type} {f : δ → ε} {x : ExceptT δ (StateM Memory) α} (h : Ends x Q s) :
    Ends (ExceptT.adapt f x) Q s := by
  intro a t hrun
  change (((x s).1.mapError f, (x s).2) : Except ε α × Memory) = (.ok a, t) at hrun
  rcases hx : x s with ⟨e | b, u⟩
  · rw [hx] at hrun
    cases hrun
  · rw [hx] at hrun
    cases hrun
    exact h _ _ hx

theorem sayIf {p : Prop} [Decidable p] {k : Unit → ExceptT ε (StateM Memory) α}
    (h : ∀ errors, Ends (k ()) Q { s with errors }) :
    Ends (if p then liftM ((Memory.host cwd).sayError text) >>= k else k ()) Q s := by
  split
  · exact bind (sayError h)
  · exact h s.errors

theorem readText {path : Path} {Q : String → Memory → Prop} (h : ∀ text, Q text s) :
    Ends ((Memory.host cwd).readText path) Q s := by
  refine bind (x := liftM ((Memory.host cwd).read path)) ?_
  rintro r t hrun
  cases hrun
  cases s.read path with
  | error e => exact throw _
  | ok text => exact pure (h _)

theorem writeText {path : Path} {Q : Unit → Memory → Prop}
    (h : ∀ t, s.write path text = .ok t → Q () t) :
    Ends ((Memory.host cwd).writeText path text) Q s := by
  refine bind (x := liftM ((Memory.host cwd).write path text)) ?_
  rintro r t hrun
  have hattempt : (r, t) = (Memory.attempt fun s => s.write path text).run s := by
    cases hrun
    rfl
  rw [Memory.run_attempt] at hattempt
  cases hwrite : s.write path text with
  | error e =>
    rw [hwrite] at hattempt
    cases hattempt
    exact throw _
  | ok u =>
    rw [hwrite] at hattempt
    cases hattempt
    exact pure (h t hwrite)

end Ends

namespace Command

/-- The name of the file for the code of an input. -/
def fileName (input : String) : String :=
  (if input = standardInput then "stdin" else (Path.ofText input).stem) ++ ".js"

variable {dir : Path} {c : Compiler} {verbose : Bool} {symbols : Symbols} {job : Job}

/-- A job that starts with some memory compiles its program to a result. -/
def Produces (cwd : List String) (c : Compiler) (symbols : Symbols) (s : Memory) (job : Job)
    (r : CompileResult) : Prop :=
  ∃ errors file tree t unit,
    (readProgram (Memory.host cwd) job.input file).run.run { s with errors } = (.ok tree, t) ∧
      unit.program = .tree tree ∧ (c.compile symbols unit).1 = .ok r ∧ r.success = true

/-- A code is stored in the file of an input, the files of other inputs are what they were. -/
structure Stores (dir : Path) (s : Memory) (input code : String) (u : Memory) : Prop where
  cwd : u.cwd = s.cwd
  files : ∀ other, u.file? (Memory.directory s.cwd dir ++ [fileName other]) =
    if fileName other = fileName input then some code
    else s.file? (Memory.directory s.cwd dir ++ [fileName other])

theorem Stores.congr {input code : String} (h : Stores dir t input code u)
    (hfiles : t.files = s.files) (hcwd : t.cwd = s.cwd) : Stores dir s input code u where
  cwd := h.cwd.trans hcwd
  files other := by
    rw [← hcwd, h.files other, Memory.file?, Memory.file?, hfiles]

/-- A source map does not get the name of a file for code. -/
theorem fileName_ne_map (input other : String) : fileName other ≠ fileName input ++ ".map" := by
  intro h
  have hlast := congrArg (·.toList.getLast?) h
  simp [fileName] at hlast

theorem fileName_notMem (input text : String) : fileName input ++ text ∉ [".", ".."] := by
  intro h
  have hletter : 'j' ∈ (fileName input ++ text).toList := by simp [fileName]
  rcases List.mem_pair.1 h with h | h <;> simp [h] at hletter

theorem ends_writeResult (input : String) (r : CompileResult) :
    Ends ((Memory.host cwd).writeResult (outputIn dir input) r)
      (fun _ u => Stores dir s input r.code u) s := by
  refine Ends.bind (Ends.writeText fun t ht => ?_)
  have hname : fileName input ∉ [".", ".."] := by simpa using fileName_notMem input ""
  have hstored := Memory.file?_write hname ht
  cases hmap : r.sourceMap with
  | none => exact Ends.pure ⟨hstored.1, fun other => hstored.2 _⟩
  | some map =>
    have hpath : (outputIn dir input).withName? ((outputIn dir input).name ++ ".map") =
        some (dir.child (fileName input ++ ".map")) := by
      simp [outputIn, Path.child, Path.withName?, Path.name, fileName]
    dsimp only
    rw [hpath]
    refine Ends.writeText fun u hu => ?_
    have hmapped := Memory.file?_write (fileName_notMem input ".map") hu
    refine ⟨hmapped.1.trans hstored.1, fun other => ?_⟩
    rw [← hstored.1, hmapped.2, if_neg (fileName_ne_map input other), hstored.1, hstored.2]

theorem ends_readProgram (name file : String) : Ends (readProgram (Memory.host cwd) name file)
    (fun _ t => t.files = s.files ∧ t.cwd = s.cwd) s := by
  refine Ends.bind (Ends.mono (Q := fun _ t => t.files = s.files ∧ t.cwd = s.cwd) ?_
    fun text t ht => ?_)
  · unfold readInput
    split
    · rintro text t hrun
      cases hrun
      exact ⟨rfl, rfl⟩
    · exact Ends.readText fun _ => ⟨rfl, rfl⟩
  · split
    · exact Ends.pure ht
    · exact Ends.throw _

theorem ends_source {k : Json → ExceptT CompileError (StateM Memory) (Symbols × Bool)}
    {Q : Symbols × Bool → Memory → Prop} (hk : ∀ source, Ends (k source) Q s) :
    Ends (match job.source with
      | some p => do
        let text ← (Memory.host cwd).readText (Path.ofText p)
        let source ← pure (Json.str text)
        k source
      | none => do
        let source ← pure Json.null
        k source) Q s := by
  cases job.source with
  | none => exact Ends.bind (Ends.pure (hk _))
  | some p => exact Ends.bind (Ends.readText fun _ => Ends.bind (Ends.pure (hk _)))

theorem ends_compileJob (houtput : job.output = some (outputIn dir job.input)) :
    Ends (compileJob (Memory.host cwd) c verbose symbols job) (fun result u => result.2 = true →
      ∃ r, Produces cwd c symbols s job r ∧ Stores dir s job.input r.code u) s := by
  have hreport {report : Except CompileError String} {p : Prop} [Decidable p] {t : Memory}
      {k : Unit → ExceptT CompileError (StateM Memory) (Symbols × Bool)} {Q}
      (hk : ∀ errors, Ends (k ()) Q { t with errors }) : Ends (if p then do
          let text ← ExceptT.mk (pure report)
          let r ← liftM ((Memory.host cwd).sayError (text ++ "\n"))
          k r
        else k ()) Q t := by
    split
    · exact Ends.bind (Ends.mk fun _ _ => Ends.bind (Ends.sayError hk))
    · exact hk t.errors
  unfold compileJob
  refine ends_source fun source => Ends.sayIf fun errors => Ends.bind fun tree t hread => ?_
  obtain ⟨hfiles, hcwd⟩ := ends_readProgram _ _ tree t hread
  rw [houtput]
  dsimp only
  refine Ends.bind (Ends.mk fun r hr => hreport fun errors' => ?_)
  by_cases hsuccess : r.success = true
  · rw [if_neg (by simp [hsuccess])]
    refine Ends.bind ((ends_writeResult job.input r).mono fun _ u hu =>
      Ends.sayIf fun errors'' => ?_)
    refine Ends.pure fun _ => ⟨r, ⟨_, _, tree, t, _, hread, rfl, hr, hsuccess⟩, ?_⟩
    exact Stores.congr ⟨hu.cwd, hu.files⟩ hfiles hcwd
  · rw [if_pos (by simpa using hsuccess)]
    exact Ends.pure fun h => absurd h Bool.false_ne_true

/-! ### All inputs -/

/-- The inputs are compiled one after the other, each with what is known and stored by then. -/
inductive Session (cwd : List String) (c : Compiler) (dir : Path) :
    Memory → List String → List String → Memory → Prop
  | nil {s : Memory} : Session cwd c dir s [] [] s
  | cons {symbols : Symbols} {job : Job} {r : CompileResult} {s t u : Memory}
      {inputs codes : List String}
      (result : Produces cwd c symbols s job r) (stored : Stores dir s job.input r.code t)
      (rest : Session cwd c dir t inputs codes u) :
      Session cwd c dir s (job.input :: inputs) (r.code :: codes) u

theorem ends_compileJobs {js : List Job}
    (houtputs : ∀ job ∈ js, job.output = some (outputIn dir job.input)) :
    Ends (compileJobs (Memory.host cwd) c verbose symbols js) (fun good u => good = true →
      ∃ codes, Session cwd c dir s (js.map Job.input) codes u) s := by
  induction js generalizing symbols s with
  | nil => exact Ends.pure fun _ => ⟨[], .nil⟩
  | cons job rest ih =>
    refine Ends.bind ((ends_compileJob (houtputs job (.head _))).mono fun result t ht => ?_)
    refine Ends.bind ((ih fun j hj => houtputs j (.tail _ hj)).mono fun good u hu => ?_)
    refine Ends.pure fun hgood => ?_
    obtain ⟨hresult, hgood⟩ := Bool.and_eq_true_iff.1 hgood
    obtain ⟨r, hproduces, hstores⟩ := ht hresult
    obtain ⟨codes, hsession⟩ := hu hgood
    exact ⟨r.code :: codes, .cons hproduces hstores hsession⟩

/-- The code of the last input that has a file of some name. -/
def lastCode? (inputs codes : List String) (name : String) : Option String :=
  ((inputs.zip codes).filter fun p => fileName p.1 = name).getLast?.map (·.2)

variable {inputs codes : List String}

/-- The last code stored in a file stays. -/
theorem Session.files (h : Session cwd c dir s inputs codes u) : u.cwd = s.cwd ∧ ∀ other,
    u.file? (Memory.directory s.cwd dir ++ [fileName other]) =
      (lastCode? inputs codes (fileName other)).or
        (s.file? (Memory.directory s.cwd dir ++ [fileName other])) := by
  induction h with
  | nil => exact ⟨rfl, fun _ => rfl⟩
  | @cons _ job _ _ _ _ inputs codes _ stored _ ih =>
    refine ⟨ih.1.trans stored.cwd, fun other => ?_⟩
    rw [← stored.cwd, ih.2, stored.cwd, stored.files, lastCode?, lastCode?, List.zip_cons_cons]
    by_cases hother : fileName job.input = fileName other
    · rw [if_pos hother.symm, List.filter_cons_of_pos (by simpa using hother), List.getLast?_cons]
      cases (List.filter _ (inputs.zip codes)).getLast? <;> rfl
    · rw [if_neg (Ne.symm hother), List.filter_cons_of_neg (by simpa using hother)]

theorem Session.length_eq (h : Session cwd c dir s inputs codes u) :
    codes.length = inputs.length := by
  induction h with
  | nil => rfl
  | cons _ _ _ ih => rw [List.length_cons, List.length_cons, ih]

theorem exists_lastCode? (hlength : codes.length = inputs.length) {input : String}
    (h : input ∈ inputs) : ∃ p ∈ inputs.zip codes, fileName p.1 = fileName input ∧
      lastCode? inputs codes (fileName input) = some p.2 := by
  rw [← List.map_fst_zip (Nat.le_of_eq hlength.symm), List.mem_map] at h
  obtain ⟨own, hown, rfl⟩ := h
  have hmem : own ∈ (inputs.zip codes).filter fun p => fileName p.1 = fileName own.1 :=
    List.mem_filter.2 ⟨hown, decide_eq_true rfl⟩
  have hlast := List.getLast?_eq_some_getLast (List.ne_nil_of_mem hmem)
  have hp := List.mem_filter.1 (List.mem_of_getLast? hlast)
  exact ⟨_, hp.1, of_decide_eq_true hp.2, by rw [lastCode?, hlast, Option.map_some]⟩

/-- Each input has a job, and its code goes to its file. -/
theorem jobs_outputs (inputs sources : List String) (dir : Path) :
    (jobs inputs sources (inputs.map (outputIn dir))).map Job.input = inputs ∧
      ∀ job ∈ jobs inputs sources (inputs.map (outputIn dir)), job.output =
        some (outputIn dir job.input) := by
  constructor
  · rw [jobs, List.map_map]
    exact List.map_fst_zip (Nat.le_of_eq List.length_range.symm)
  · intro job hjob
    obtain ⟨⟨input, i⟩, hp, rfl⟩ := List.mem_map.1 hjob
    obtain ⟨k, hk⟩ := List.mem_iff_getElem?.1 hp
    obtain ⟨hinput, hi⟩ := List.getElem?_zip_eq_some.1 hk
    have hki : k = i := by
      have hrange := List.getElem?_eq_some_iff.1 hi
      simpa using hrange.2
    simp only [List.getElem?_map, ← hki, hinput, Option.map_some]

theorem ends_prepareOutputs {a : Arguments} {output : String} (hseveral : 1 < a.inputs.length)
    (houtput : a.output = some output) : Ends (prepareOutputs (Memory.host cwd) a)
      (fun outputs _ => outputs = a.inputs.map (outputIn (Path.ofText output))) s := by
  have hdirectory (isDirectory : Bool) :
      isDirectoryOutput a.inputs (Path.ofText output) isDirectory = true := by
    simp [isDirectoryOutput, hseveral]
  have hpaths (isDirectory : Bool) : outputPaths a.inputs (Path.ofText output) isDirectory =
      a.inputs.map (outputIn (Path.ofText output)) := if_pos (hdirectory isDirectory)
  unfold prepareOutputs
  rw [houtput]
  dsimp only [Option.map_some]
  rw [if_pos hseveral]
  refine Ends.bind (Ends.pure ?_)
  rw [if_pos (hdirectory false)]
  refine Ends.bind fun r t _ => ?_
  cases r with
  | error e => exact Ends.throw _
  | ok _ => exact Ends.pure (hpaths false)

/-- Several inputs are compiled into a directory, and all of them successfully. Afterwards the file
of an input has the code of the last one among the inputs with this file. Files of different inputs
are different if and only if the last names of the inputs, without suffix, are; and then each input
has its own code in its file. -/
theorem perform_outputs {a : Arguments} {output : String} (hseveral : 1 < a.inputs.length)
    (houtput : a.output = some output) (hcompiles : a.has .dependencies = false)
    (h : (perform (Memory.host cwd) a).run.run s = (.ok true, u)) :
    ((a.inputs.map (outputIn (Path.ofText output))).Nodup ↔ (a.inputs.map fileName).Nodup) ∧
    ∃ c t codes, Session cwd c (Path.ofText output) t a.inputs codes u ∧
      (∀ input ∈ a.inputs, u.file?
        (Memory.directory u.cwd (Path.ofText output) ++ [fileName input]) =
        lastCode? a.inputs codes (fileName input)) ∧
      ((a.inputs.map fileName).Nodup → ∀ p ∈ a.inputs.zip codes,
        u.file? (Memory.directory u.cwd (Path.ofText output) ++ [fileName p.1]) = some p.2) := by
  have hends : Ends (perform (Memory.host cwd) a) (fun good u => good = true →
      ∃ c t codes, Session cwd c (Path.ofText output) t a.inputs codes u) s := by
    unfold perform
    cases check a with
    | error message => exact Ends.bind (Ends.throw _)
    | ok _ =>
      dsimp only
      cases optionsOf a with
      | error e => exact Ends.bind (Ends.throw _)
      | ok options =>
        refine Ends.adapt (Ends.bind fun c t _ => ?_)
        dsimp only
        rw [if_neg (by simp [hcompiles])]
        refine Ends.bind ((ends_prepareOutputs hseveral houtput).mono fun outputs t' houtputs => ?_)
        subst houtputs
        obtain ⟨hinputs, hjobs⟩ := jobs_outputs a.inputs a.sources (Path.ofText output)
        refine (ends_compileJobs hjobs).mono fun good u hu hgood => ?_
        obtain ⟨codes, hsession⟩ := hu hgood
        exact ⟨c, t', codes, hinputs ▸ hsession⟩
  constructor
  · have hchild : Function.Injective (Path.child (Path.ofText output)) := by
      intro x y hxy
      simpa [Path.child] using hxy
    rw [← List.nodup_map_iff hchild, List.map_map]
    rfl
  obtain ⟨c, t, codes, hsession⟩ := hends true u h rfl
  obtain ⟨hcwd, hfiles⟩ := hsession.files
  have hlast {input : String} (hinput : input ∈ a.inputs) :=
    exists_lastCode? hsession.length_eq hinput
  have hcontents (input : String) (hinput : input ∈ a.inputs) :
      u.file? (Memory.directory u.cwd (Path.ofText output) ++ [fileName input]) =
        lastCode? a.inputs codes (fileName input) := by
    obtain ⟨p, -, -, hcode⟩ := hlast hinput
    rw [hcwd, hfiles, hcode, Option.some_or]
  refine ⟨c, t, codes, hsession, hcontents, fun hnodup own hown => ?_⟩
  have hinput := (List.of_mem_zip hown).1
  obtain ⟨p, hp, hname, hcode⟩ := hlast hinput
  -- no other input has the file
  have hself : p = own := by
    refine List.inj_on_of_nodup_map (f := fun p => fileName p.1) ?_ hp hown hname
    rw [← List.map_fst_zip (Nat.le_of_eq hsession.length_eq.symm), List.map_map] at hnodup
    exact hnodup
  rw [hcontents own.1 hinput, hcode, hself]

/-- Two programs in files with the same last name. -/
def namesakes : Memory where
  cwd := []
  files :=
    let program (body : String) := "\x7b\"type\": \"Program\", \"body\": [" ++ body ++ "]\x7d"
    ⟨[("a/Main.json", program "\x7b\"type\": \"EmptyStatement\"\x7d"), ("b/Main.json", program "")]⟩

theorem perform_namesakes :
    let a : Arguments := { inputs := ["a/Main.json", "b/Main.json"], output := some "build" }
    ∃ u, (perform (Memory.host []) a).run.run namesakes = (.ok true, u) ∧
      ¬ (a.inputs.map (outputIn (Path.ofText "build"))).Nodup ∧
      ∃ c t codes, Session [] c (Path.ofText "build") t a.inputs codes u ∧
        u.file? (Memory.directory u.cwd (Path.ofText "build") ++ [fileName "a/Main.json"]) =
          lastCode? a.inputs codes (fileName "a/Main.json") := by
  intro a
  have hgood : ((perform (Memory.host []) a).run.run namesakes).1.toOption =
      some true := by decide +kernel
  rcases hrun : (perform (Memory.host []) a).run.run namesakes with ⟨e | good, u⟩
  · rw [hrun] at hgood
    cases hgood
  · rw [hrun] at hgood
    cases hgood
    obtain ⟨hnodup, c, t, codes, hsession, hcontents, -⟩ :=
      perform_outputs (by decide) rfl rfl hrun
    refine ⟨u, rfl, ?_, c, t, codes, hsession, hcontents _ (.head _)⟩
    rw [hnodup]
    decide +kernel

theorem run_namesakes :
    let outcome := (run (Memory.host []) ["a/Main.json", "b/Main.json", "-o", "build"]).run
      namesakes
    outcome.1 = .success ∧ outcome.2.files.names = ["a/Main.json", "b/Main.json", "build/Main.js"] ∧
      outcome.2.file? ["build", "Main.js"] = some "(function()\n\x7b\n\x7d)();\n" := by
  decide +kernel

end Command

end ObjectiveJ
