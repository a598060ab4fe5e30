import SmokeBench.Proofs.ScopePaths

/-! Where the bench works. A setup step digs for its own path below the scope, and stores there what
the step says; a subject is started once, with the arguments that were rendered, and looked after
at the paths that were resolved. Nothing else is made, stored or looked at. -/

namespace SmokeBench

open Dialogue

inductive Path.ClimbsTo (target : Path) : Path → Prop
  | here : target.ClimbsTo target
  | up {p above : Path} (h : target.ClimbsTo p) (hup : p.parent = some above) :
      target.ClimbsTo above

theorem Path.exists_join_eq (p q : Path) : ∃ front, (p.join q).bytes = front ++ q.bytes := by
  unfold join
  split_ifs
  · exact ⟨[], rfl⟩
  · split
    · exact ⟨[], rfl⟩
    · split_ifs
      · exact ⟨p.bytes, rfl⟩
      · exact ⟨p.bytes ++ [Bytes.slash], by rw [List.append_assoc]; rfl⟩

/-- The path that a setup step is about, below the scope. -/
def SetupStep.relative : SetupStep → Path
  | createDir p | writeFile p _ => p

namespace Request

/-- Makes a path, or one above it, or looks whether it is there. -/
def DigsFor (target : Path) (r : Request) : Prop :=
  ∃ p, target.ClimbsTo p ∧ (r = .makeDir p ∨ r = .metadata p)

/-- Takes part in a setup step. -/
def Performs (scope : Scope) (step : SetupStep) (r : Request) : Prop :=
  ∃ p, scope.path step.relative = .ok p ∧
    (r.DigsFor p ∨ ∃ content, step = .writeFile step.relative content ∧ r = .store p content)

/-- Looks after a subject, at these paths and no others. -/
def Minds (paths : List Path) : Request → Prop
  | metadata p => p ∈ paths
  | sleep _ => True
  | r => r.handles

/-- Starts a subject with these arguments, and looks after it. -/
def Employs (path : Path) (args : List String) (paths : List Path) : Request → Prop
  | spawn p a => p = path ∧ a = args
  | r => r.Minds paths

def spawns : Request → Bool
  | spawn _ _ => true
  | _ => false

theorem minds_of_handles {paths : List Path} {r : Request} (h : r.handles) : r.Minds paths := by
  cases r <;> first | exact h | cases h

theorem minds_of_attends {pid : Pid} {paths : List Path} {r : Request} (h : r.Attends pid) :
    r.Minds paths :=
  minds_of_handles (handles_of_attends h)

theorem Minds.employs {path : Path} {args : List String} {paths : List Path} {r : Request}
    (h : r.Minds paths) : r.Employs path args paths := by
  cases r <;> first | exact h | cases h

theorem Minds.spares {paths : List Path} {r : Request} (h : r.Minds paths) : r.spawns = false := by
  cases r <;> first | rfl | cases h

end Request

open Request

theorem isDirectory_digs {target p : Path} (hp : target.ClimbsTo p) :
    (isDirectory p).Only (DigsFor target) := by
  refine Only.bind (only_ask ⟨p, hp, .inr rfl⟩) fun reply => ?_
  split <;> exact only_pure _

theorem makeDirsWithin_digs (depth : Nat) {target p : Path} (hp : target.ClimbsTo p) :
    (makeDirsWithin depth p).Only (DigsFor target) := by
  have hdir (e : IoError) {q : Path} (hq : target.ClimbsTo q) : (do
      return if ← isDirectory q then .ok () else .error e :
        Dialogue (Except IoError Unit)).Only (DigsFor target) :=
    (isDirectory_digs hq).bind fun _ => only_pure _
  have hmake {q : Path} (hq : target.ClimbsTo q) :
      (SmokeBench.ask (.makeDir q)).Only (DigsFor target) := only_ask ⟨q, hq, .inl rfl⟩
  induction depth generalizing p with
  | zero =>
    unfold makeDirsWithin
    split
    · exact only_pure _
    · refine (hmake hp).bind fun reply => ?_
      split
      · exact only_pure _
      · exact only_pure _
      · exact hdir _ hp
  | succ depth ih =>
    unfold makeDirsWithin
    split
    · exact only_pure _
    · refine (hmake hp).bind fun reply => ?_
      split
      · exact only_pure _
      · split
        · rename_i above heq hup
          obtain rfl := Nat.succ.inj heq
          refine (ih (hp.up hup)).bind fun made => ?_
          split
          · exact only_pure _
          · refine (hmake hp).bind fun again => ?_
            split
            · exact only_pure _
            · exact hdir _ hp
        · exact only_pure _
      · exact hdir _ hp

namespace Scope

variable {scope : Scope} {relative : Path}

theorem createDir_performs : (scope.createDir relative).Only (Performs scope (.createDir relative)) := by
  unfold createDir
  cases hpath : scope.path relative with
  | error e => exact only_pure _
  | ok p =>
    have hdig : (makeDirs p).Only (Performs scope (.createDir relative)) :=
      (makeDirsWithin_digs _ .here).mono fun r hr => ⟨p, hpath, .inl hr⟩
    refine hdig.bind fun made => ?_
    split <;> exact only_pure _

theorem makeParent_digs (p : Path) : (makeParent p).Only (DigsFor p) := by
  unfold makeParent
  cases hup : p.parent with
  | none => exact only_pure _
  | some above =>
    have hdig : (makeDirs above).Only (DigsFor p) := makeDirsWithin_digs _ (Path.ClimbsTo.here.up hup)
    refine hdig.bind fun made => ?_
    split <;> exact only_pure _

theorem writeFile_performs (content : Bytes) :
    (scope.writeFile relative content).Only (Performs scope (.writeFile relative content)) := by
  unfold writeFile
  cases hpath : scope.path relative with
  | error e => exact only_pure _
  | ok p =>
    refine ((makeParent_digs p).mono fun r hr => ⟨p, hpath, .inl hr⟩).bind fun made => ?_
    split
    · exact only_pure _
    · refine (only_ask ⟨p, hpath, .inr ⟨content, rfl, rfl⟩⟩).bind fun stored => ?_
      split <;> exact only_pure _

end Scope

namespace Scenario

theorem prepare_performs (scope : Scope) (steps : List SetupStep) :
    (prepare scope steps).Only fun r => ∃ step ∈ steps, r.Performs scope step := by
  induction steps with
  | nil => exact only_pure _
  | cons step rest ih =>
    have hrest : (prepare scope rest).Only fun r => ∃ st ∈ step :: rest, r.Performs scope st :=
      ih.mono fun r ⟨st, hst, hr⟩ => ⟨st, List.mem_cons_of_mem _ hst, hr⟩
    have hfirst (r : Request) (hr : r.Performs scope step) :
        ∃ st ∈ step :: rest, r.Performs scope st := ⟨step, List.mem_cons_self, hr⟩
    unfold prepare
    cases step with
    | createDir path =>
      refine (Scope.createDir_performs.mono hfirst).bind fun made => ?_
      dsimp only
      split
      · exact hrest
      · exact only_pure _
    | writeFile path content =>
      refine ((Scope.writeFile_performs content).mono hfirst).bind fun made => ?_
      dsimp only
      split
      · exact hrest
      · exact only_pure _

/-- A step that was performed has made its directory, unless that had no name, or stored its file. -/
def Performed (scope : Scope) (j : List Exchange) (step : SetupStep) : Prop :=
  ∃ p, scope.path step.relative = .ok p ∧
    match step with
    | .createDir _ => p.bytes ≠ [] → ∃ reply, ⟨.makeDir p, reply⟩ ∈ j
    | .writeFile _ content => ⟨.store p content, .ok ()⟩ ∈ j

theorem Performed.append_right {scope : Scope} {i j : List Exchange} {step : SetupStep}
    (h : Performed scope i step) : Performed scope (i ++ j) step := by
  obtain ⟨p, hp, hdone⟩ := h
  refine ⟨p, hp, ?_⟩
  cases step with
  | createDir path =>
    intro hne
    obtain ⟨reply, hreply⟩ := hdone hne
    exact ⟨reply, List.mem_append_left _ hreply⟩
  | writeFile path content => exact List.mem_append_left _ hdone

theorem Performed.append_left {scope : Scope} {i j : List Exchange} {step : SetupStep}
    (h : Performed scope j step) : Performed scope (i ++ j) step := by
  obtain ⟨p, hp, hdone⟩ := h
  refine ⟨p, hp, ?_⟩
  cases step with
  | createDir path =>
    intro hne
    obtain ⟨reply, hreply⟩ := hdone hne
    exact ⟨reply, List.mem_append_right _ hreply⟩
  | writeFile path content => exact List.mem_append_right _ hdone

section Performed

variable {σ : Type} {host : Host σ} {scope : Scope} {path p : Path}

variable (host) in
theorem makeDirs_tries (hne : p.bytes ≠ []) (st : σ) :
    ∃ reply, ⟨.makeDir p, reply⟩ ∈ (makeDirs p).journal host st := by
  have hempty : p.bytes.isEmpty = false := by simpa using hne
  unfold makeDirs makeDirsWithin
  rw [hempty, if_neg Bool.false_ne_true, journal_bind]
  exact ⟨_, List.mem_append_left _ (List.mem_singleton_self _)⟩

theorem createDir_performed {st : σ} (h : ((scope.createDir path).run host st).1 = .ok p) :
    Performed scope ((scope.createDir path).journal host st) (.createDir path) := by
  unfold Scope.createDir at h ⊢
  cases hpath : scope.path path with
  | error e =>
    rw [hpath] at h
    cases h
  | ok q =>
    refine ⟨q, hpath, ?_⟩
    intro hne
    obtain ⟨reply, hreply⟩ := makeDirs_tries host hne st
    rw [journal_bind]
    exact ⟨reply, List.mem_append_left _ hreply⟩

theorem writeFile_performed {content : Bytes} {st : σ}
    (h : ((scope.writeFile path content).run host st).1 = .ok p) :
    Performed scope ((scope.writeFile path content).journal host st) (.writeFile path content) := by
  unfold Scope.writeFile at h ⊢
  cases hpath : scope.path path with
  | error e =>
    rw [hpath] at h
    cases h
  | ok q =>
    rw [hpath] at h
    refine ⟨q, hpath, ?_⟩
    dsimp only at h ⊢
    rw [run_bind] at h
    rw [journal_bind]
    split at h
    · cases h
    · rename_i hparent
      rw [run_bind, run_ask] at h
      rw [journal_bind, journal_ask]
      split at h
      · rename_i hstored
        rw [hstored]
        exact List.mem_append_right _ (List.mem_append_left _ (List.mem_singleton_self _))
      · cases h

/-- A scope that was filled has had every step performed. -/
theorem prepare_done {steps : List SetupStep} {st : σ}
    (h : ((prepare scope steps).run host st).1 = .ok ()) :
    ∀ step ∈ steps, Performed scope ((prepare scope steps).journal host st) step := by
  induction steps generalizing st with
  | nil => simp
  | cons step rest ih =>
    unfold prepare at h ⊢
    intro x hx
    cases step with
    | createDir path =>
      dsimp only at h ⊢
      rw [run_bind] at h
      rw [journal_bind]
      cases hmade : ((scope.createDir path).run host st).1 with
      | error e =>
        rw [hmade] at h
        cases h
      | ok p =>
        rw [hmade] at h
        rcases List.mem_cons.mp hx with rfl | hx
        · exact (createDir_performed hmade).append_right
        · exact (ih h x hx).append_left
    | writeFile path content =>
      dsimp only at h ⊢
      rw [run_bind] at h
      rw [journal_bind]
      cases hmade : ((scope.writeFile path content).run host st).1 with
      | error e =>
        rw [hmade] at h
        cases h
      | ok p =>
        rw [hmade] at h
        rcases List.mem_cons.mp hx with rfl | hx
        · exact (writeFile_performed hmade).append_right
        · exact (ih h x hx).append_left

end Performed

end Scenario

namespace Request

/-- Stores nothing but what one of the steps says, and under the name that the step gives. -/
def StoresFor (steps : List SetupStep) : Request → Prop
  | store p content => ∃ root name : Path, .writeFile name content ∈ steps ∧ p = root.join name
  | _ => True

theorem storesFor_of_performs {scope : Scope} {steps : List SetupStep} {step : SetupStep}
    (hstep : step ∈ steps) {r : Request} (h : r.Performs scope step) : r.StoresFor steps := by
  obtain ⟨p, hpath, ⟨q, -, rfl | rfl⟩ | ⟨content, hcontent, rfl⟩⟩ := h
  · trivial
  · trivial
  · refine ⟨scope.root, step.relative, hcontent ▸ hstep, ?_⟩
    unfold Scope.path at hpath
    split at hpath
    · cases hpath
    · exact (Except.ok.inj hpath).symm

end Request

namespace Scenario

/-- In the course of a scenario only its own files are stored, if it is judged without storing. -/
theorem execute_stores {s : Scenario} (hjudges : s.Judges (Request.StoresFor s.setup))
    (bench : Bench) (available : Availability) :
    (s.execute bench available).Only (Request.StoresFor s.setup) := by
  refine execute_only_of bench available ?_ ?_ ?_ ?_ hjudges
  · intro scope
    apply (prepare_performs scope s.setup).mono
    rintro r ⟨step, hstep, hr⟩
    exact storesFor_of_performs hstep hr
  · intro r hr
    cases r <;> trivial
  · intro r hr
    cases r <;> trivial
  · intro r hr
    cases r <;> trivial

end Scenario

namespace Observation

theorem observe_minds (pid : Pid) (w : Watch) : (observe pid w).Only (Minds w.paths) :=
  observe_asks (fun _ hp => hp) (minds_of_handles rfl) (minds_of_handles rfl) fun _ => trivial

end Observation

def started (j : List Exchange) : List (Path × List String) :=
  j.filterMap fun x => match x.request with
    | .spawn path args => some (path, args)
    | _ => none

theorem started_append (i j : List Exchange) : started (i ++ j) = started i ++ started j :=
  List.filterMap_append

theorem started_of_spares {α σ : Type} {d : Dialogue α} (h : d.Only fun r => r.spawns = false)
    (host : Host σ) (st : σ) : started (d.journal host st) = [] := by
  rw [started, List.filterMap_eq_nil_iff]
  intro x hx
  have hspares := h.journal st x hx
  obtain ⟨r, reply⟩ := x
  cases r <;> first | rfl | cases hspares

namespace Runner

variable {σ : Type} (r : Runner) (path : Path) (args : List String) (paths : List Path)

theorem spawn_employs : (spawn path args).Only (Employs path args paths) := by
  have hclock : now.Only (Employs path args paths) := only_ask (minds_of_handles rfl).employs
  have hspawn : (SmokeBench.ask (.spawn path args)).Only (Employs path args paths) :=
    only_ask ⟨rfl, rfl⟩
  refine hclock.bind fun _ => hspawn.bind fun reply => ?_
  split <;> exact only_pure _

theorem spawn_starts (host : Host σ) (st : σ) :
    started ((spawn path args).journal host st) = [(path, args)] := by
  have hclock : started (now.journal host st) = [] := started_of_spares (only_ask rfl) host st
  unfold spawn
  rw [journal_bind, journal_bind, started_append, started_append, hclock]
  split <;> rfl

theorem runBounded_employs (timeout : Duration) :
    (r.runBounded path args timeout).Only (Employs path args paths) := by
  rw [runBounded_eq]
  refine (spawn_employs path args paths).bind fun spawned => ?_
  split
  · exact only_pure _
  · exact (r.conclude_only _ timeout).mono fun _ h => (minds_of_attends h).employs

theorem runBounded_starts (timeout : Duration) (host : Host σ) (st : σ) :
    started ((r.runBounded path args timeout).journal host st) = [(path, args)] := by
  rw [runBounded_eq, journal_bind, started_append, spawn_starts]
  split
  · rfl
  · rename_i subject _
    have hspares : (r.conclude subject timeout).Only fun q => q.spawns = false :=
      (r.conclude_only subject timeout).mono fun q h => (minds_of_attends h : q.Minds []).spares
    rw [started_of_spares hspares]
    rfl

end Runner

namespace Scenario

variable {σ : Type} (s : Scenario) (bench : Bench) (paths : List Path) (grace : Duration)

def lookAfter (subject : Subject) : Dialogue (Except ScenarioFault (RunResult × Observation)) := do
  let observation ← Observation.observe subject.pid ⟨paths, s.timeout, bench.pollInterval⟩
  match ← bench.runner.stop subject grace with
  | .ok run => return .ok (run, observation)
  | .error e => return .error (.run e)

/-- What is left to supervise once the watched paths are resolved. -/
def attend (args : List String) : Dialogue (Except ScenarioFault (RunResult × Observation)) := do
  match ← Runner.spawn s.binary.path args with
  | .error e => return .error (.run e)
  | .ok subject => s.lookAfter bench paths grace subject

theorem supervise_none (args : List String) :
    s.supervise bench none grace args = s.attend bench [] grace args := rfl

theorem supervise_some {scope : Scope} (h : ∀ r ∈ s.watch, ¬ r.Strays) (args : List String) :
    s.supervise bench (some scope) grace args =
      s.attend bench (s.watch.map scope.root.join) grace args :=
  s.supervise_of_not_strays bench grace args h

theorem lookAfter_minds (subject : Subject) :
    (s.lookAfter bench paths grace subject).Only (Minds paths) := by
  have hobserve := Observation.observe_minds subject.pid ⟨paths, s.timeout, bench.pollInterval⟩
  refine hobserve.bind fun observation => ?_
  refine ((bench.runner.stop_only _ _).mono fun _ => minds_of_attends).bind fun stopped => ?_
  split <;> exact only_pure _

theorem attend_employs (args : List String) :
    (s.attend bench paths grace args).Only (Employs s.binary.path args paths) := by
  refine (Runner.spawn_employs s.binary.path args paths).bind fun spawned => ?_
  split
  · exact only_pure _
  · exact (s.lookAfter_minds bench paths grace _).mono fun _ h => h.employs

theorem attend_starts (args : List String) (host : Host σ) (st : σ) :
    started ((s.attend bench paths grace args).journal host st) = [(s.binary.path, args)] := by
  unfold attend
  rw [journal_bind, started_append, Runner.spawn_starts]
  split
  · rfl
  · rename_i subject _
    have hspares : (s.lookAfter bench paths grace subject).Only fun q => q.spawns = false :=
      (s.lookAfter_minds bench paths grace subject).mono fun _ h => h.spares
    rw [started_of_spares hspares]
    rfl

def watched : Option Scope → List Path
  | some scope => s.watch.map scope.root.join
  | none => []

theorem subjectRun_employs (scope : Option Scope) (mode : RunMode) :
    (s.subjectRun bench scope mode).Only
      (Employs s.binary.path (s.renderArgs (scope.map (·.root))) (s.watched scope)) := by
  unfold subjectRun
  cases mode with
  | bounded =>
    refine (bench.runner.runBounded_employs _ _ _ s.timeout).bind fun ran => ?_
    split <;> exact only_pure _
  | supervised grace =>
    cases scope with
    | none => exact s.attend_employs bench [] grace _
    | some scope =>
      by_cases hstrays : ∃ r ∈ s.watch, r.Strays
      · obtain ⟨r, -, -, hrefused⟩ :=
          s.supervise_of_strays scope bench grace (s.renderArgs (some scope.root)) hstrays
        dsimp only [Option.map_some]
        rw [hrefused]
        exact only_pure _
      · dsimp only [Option.map_some]
        rw [s.supervise_some bench grace (by simpa using hstrays)]
        exact s.attend_employs bench _ grace _

theorem subjectRun_starts_bounded (scope : Option Scope) (host : Host σ) (st : σ) :
    started ((s.subjectRun bench scope .bounded).journal host st) =
      [(s.binary.path, s.renderArgs (scope.map (·.root)))] := by
  unfold subjectRun
  dsimp only
  rw [journal_bind, started_append, Runner.runBounded_starts]
  split <;> rfl

theorem subjectRun_starts (scope : Option Scope) (mode : RunMode)
    (h : scope.isSome → ∀ r ∈ s.watch, ¬ r.Strays) (host : Host σ) (st : σ) :
    started ((s.subjectRun bench scope mode).journal host st) =
      [(s.binary.path, s.renderArgs (scope.map (·.root)))] := by
  cases mode with
  | bounded => exact s.subjectRun_starts_bounded bench scope host st
  | supervised grace =>
    unfold subjectRun
    cases scope with
    | none => exact s.attend_starts bench [] grace _ host st
    | some scope =>
      dsimp only [Option.map_some]
      rw [s.supervise_some bench grace (h rfl)]
      exact s.attend_starts bench _ grace _ host st

end Scenario

end SmokeBench
