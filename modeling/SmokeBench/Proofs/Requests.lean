import SmokeBench.Proofs.Journal
import SmokeBench.Suite

/-! Which requests each part of the bench can put. The parts fall into four kinds: those that make a
scope, those that fill it, those that tend a subject, and the removal of a scope. An evaluator is
not part of the bench, so what is said of a scenario is said relative to its evaluator. -/

namespace SmokeBench

namespace Request

def orients : Request → Bool
  | environment _ | workingDir => true
  | _ => false

def founds : Request → Bool
  | environment _ | workingDir | randomSuffix | makeDir _ => true
  | _ => false

def digs : Request → Bool
  | metadata _ | makeDir _ => true
  | _ => false

def fills : Request → Bool
  | metadata _ | makeDir _ | store _ _ => true
  | _ => false

def handles : Request → Bool
  | clock | awaitExit _ _ | pollExit _ | signalGroup _ _ | killLeader _ | drain _ _ _
  | release _ => true
  | _ => false

/-- What it takes to wait for the subject with this number and to end it. -/
def Attends (pid : Pid) : Request → Prop
  | clock => True
  | awaitExit p _ | pollExit p | signalGroup p _ | killLeader p | drain p _ _ | release p => p = pid
  | _ => False

def watches : Request → Bool
  | metadata _ | clock | pollExit _ | sleep _ => true
  | _ => false

def tends : Request → Bool
  | metadata _ | sleep _ | spawn _ _ => true
  | r => r.handles

def removes : Request → Bool
  | removeTree _ => true
  | _ => false

/-- What the bench asks for in the course of one scenario. -/
def serves (r : Request) : Bool := r.founds || r.fills || r.tends || r.removes

theorem fills_of_digs {r : Request} (h : r.digs) : r.fills := by
  cases r <;> first | rfl | cases h

theorem handles_of_attends {pid : Pid} {r : Request} (h : r.Attends pid) : r.handles := by
  cases r <;> first | rfl | cases h

theorem tends_of_handles {r : Request} (h : r.handles) : r.tends := by
  cases r <;> first | rfl | exact h

theorem tends_of_watches {r : Request} (h : r.watches) : r.tends := by
  cases r <;> first | rfl | cases h

end Request

open Dialogue Request

theorem isDirectory_only (p : Path) : (isDirectory p).Only (digs ·) :=
  (only_ask (by rfl)).bind fun
    | .ok _ => only_pure _
    | .error _ => only_pure _

theorem makeDirsWithin_only (depth : Nat) (p : Path) :
    (makeDirsWithin depth p).Only (digs ·) := by
  have hdir (e : IoError) (q : Path) : (do
      return if ← isDirectory q then .ok () else .error e :
        Dialogue (Except IoError Unit)).Only (digs ·) :=
    (isDirectory_only q).bind fun _ => only_pure _
  induction depth generalizing p with
  | zero =>
    unfold makeDirsWithin
    split
    · exact only_pure _
    · refine (only_ask (by rfl)).bind fun reply => ?_
      split
      · exact only_pure _
      · exact only_pure _
      · exact hdir _ p
  | succ depth ih =>
    unfold makeDirsWithin
    split
    · exact only_pure _
    · refine (only_ask (by rfl)).bind fun reply => ?_
      split
      · exact only_pure _
      · split
        · rename_i above heq _
          obtain rfl := Nat.succ.inj heq
          refine (ih above).bind fun made => ?_
          split
          · exact only_pure _
          · refine (only_ask (by rfl)).bind fun again => ?_
            split
            · exact only_pure _
            · exact hdir _ p
        · exact only_pure _
      · exact hdir _ p

namespace Observation

section

variable {P : Request → Prop} {pid : Pid} {w : Watch}

theorem look_asks {paths : List Path} (hlook : ∀ p ∈ paths, P (.metadata p)) (seen : List Path) :
    (look seen paths).Only P := by
  induction paths generalizing seen with
  | nil => exact only_pure _
  | cons p rest ih =>
    obtain ⟨hp, hrest⟩ := List.forall_mem_cons.mp hlook
    unfold look
    split
    · exact ih hrest seen
    · refine (only_ask hp).bind fun reply => ?_
      split
      · exact ih hrest _
      · exact ih hrest _

theorem isRunning_asks (hpoll : P (.pollExit pid)) : (isRunning pid).Only P := by
  refine (only_ask hpoll).bind fun reply => ?_
  split <;> exact only_pure _

theorem pollUntil_asks (hlook : ∀ p ∈ w.paths, P (.metadata p)) (hpoll : P (.pollExit pid))
    (hclock : P .clock) (hsleep : ∀ span, P (.sleep span)) (started : Instant) (seen : List Path)
    (n : Nat) : (pollUntil pid w started seen n).Only P := by
  induction n generalizing seen with
  | zero => exact only_pure _
  | succ n ih =>
    unfold pollUntil
    refine (look_asks hlook _).bind fun seen => ?_
    split
    · exact only_pure _
    · refine (isRunning_asks hpoll).bind fun running => ?_
      split
      · exact only_pure _
      · refine (only_ask hclock).bind fun time => ?_
        dsimp only
        split
        · exact only_pure _
        · exact (only_ask (hsleep _)).bind fun _ => ih seen

theorem observe_asks (hlook : ∀ p ∈ w.paths, P (.metadata p)) (hpoll : P (.pollExit pid))
    (hclock : P .clock) (hsleep : ∀ span, P (.sleep span)) : (observe pid w).Only P :=
  (only_ask hclock).bind fun _ => (pollUntil_asks hlook hpoll hclock hsleep _ _ _).bind fun _ =>
    (only_ask hclock).bind fun _ => only_pure _

end

theorem observe_only (pid : Pid) (w : Watch) : (observe pid w).Only (watches ·) :=
  observe_asks (fun _ _ => rfl) rfl rfl fun _ => rfl

end Observation

namespace Runner

variable (r : Runner)

theorem spawn_only (path : Path) (args : List String) : (spawn path args).Only (tends ·) := by
  refine (only_ask (by rfl)).bind fun _ => (only_ask (by rfl)).bind fun reply => ?_
  split <;> exact only_pure _

theorem sendSignal_only {P : Request → Prop} {s : Subject} {signal : Signal}
    (h : P (.signalGroup s.pid signal)) : (sendSignal s signal).Only P :=
  (only_ask h).bind fun _ => only_pure _

theorem awaitFor_only (s : Subject) (span : Duration) : (awaitFor s span).Only (Attends s.pid) :=
  (only_ask trivial).bind fun _ => only_ask (by exact rfl)

theorem killAndReap_only (s : Subject) : (r.killAndReap s).Only (Attends s.pid) := by
  unfold killAndReap
  refine (sendSignal_only (by exact rfl)).bind fun reply => ?_
  split
  · refine Only.bind (only_ask (by exact rfl)).discard fun _ => (awaitFor_only s _).bind fun reply => ?_
    split <;> exact only_pure _
  · refine (awaitFor_only s _).bind fun reply => ?_
    split <;> exact only_pure _

theorem finish_only (s : Subject) (status : Option ExitStatus) (c : Completion) :
    (r.finish s status c).Only (Attends s.pid) :=
  (only_ask trivial).bind fun _ => (sendSignal_only (by exact rfl)).discard.bind fun _ =>
    (only_ask trivial).bind fun _ => (only_ask (by exact rfl)).bind fun _ =>
      (only_ask (by exact rfl)).bind fun _ => (only_ask (by exact rfl)).bind fun _ => only_pure _

theorem giveUp_only {α : Type} (s : Subject) (e : IoError) :
    (giveUp s e : Dialogue (Except RunError α)).Only (Attends s.pid) :=
  (only_ask (by exact rfl)).bind fun _ => only_pure _

/-- What a bounded run does with the subject it has started. -/
def conclude (s : Subject) (timeout : Duration) : Dialogue (Except RunError RunResult) := do
  match ← awaitFor s timeout with
  | .error e => giveUp s e
  | .ok (some status) => .ok <$> r.finish s (some status) .exited
  | .ok none =>
    let status ← r.killAndReap s
    .ok <$> r.finish s status .timedOut

theorem runBounded_eq (path : Path) (args : List String) (timeout : Duration) :
    r.runBounded path args timeout = (do
      match ← spawn path args with
      | .error e => return .error e
      | .ok s => r.conclude s timeout) := rfl

theorem conclude_only (s : Subject) (timeout : Duration) :
    (r.conclude s timeout).Only (Attends s.pid) := by
  refine (awaitFor_only _ timeout).bind fun reply => ?_
  split
  · exact giveUp_only _ _
  · exact (r.finish_only _ _ _).map _
  · exact (r.killAndReap_only _).bind fun _ => (r.finish_only _ _ _).map _

theorem runBounded_only (path : Path) (args : List String) (timeout : Duration) :
    (r.runBounded path args timeout).Only (tends ·) := by
  rw [runBounded_eq]
  refine (spawn_only path args).bind fun spawned => ?_
  split
  · exact only_pure _
  · exact (r.conclude_only _ timeout).mono fun _ h => tends_of_handles (handles_of_attends h)

theorem escalate_only (s : Subject) : (r.escalate s).Only (Attends s.pid) :=
  (r.killAndReap_only s).bind fun _ => (r.finish_only _ _ _).map _

theorem stop_only (s : Subject) (grace : Duration) : (r.stop s grace).Only (Attends s.pid) := by
  refine (only_ask (by exact rfl)).bind fun polled => ?_
  split
  · exact giveUp_only _ _
  · exact (r.finish_only _ _ _).map _
  · refine (sendSignal_only (by exact rfl)).bind fun asked => ?_
    split
    · exact r.escalate_only s
    · refine (awaitFor_only s grace).bind fun reply => ?_
      split
      · exact giveUp_only _ _
      · exact (r.finish_only _ _ _).map _
      · exact r.escalate_only s

end Runner

namespace Scope

theorem createIn_only (base : Path) (namePrefix : String) (attempts : Nat) :
    (createIn base namePrefix attempts).Only (founds ·) := by
  induction attempts with
  | zero => exact only_pure _
  | succ attempts ih =>
    unfold createIn
    refine (only_ask (by rfl)).bind fun suffix => (only_ask (by rfl)).bind fun reply => ?_
    split
    · exact only_pure _
    · exact ih
    · exact only_pure _

theorem systemParent_only : systemParent.Only (orients ·) := by
  refine (only_ask (by rfl)).bind fun value => ?_
  split <;> exact only_pure _

/-- The directory for scopes as it is given and as an absolute path, if there is one. -/
def baseOf (parent : Option Path) : Dialogue (Path × Except IoError Path) := do
  let parent ← match parent with
    | some p => pure p
    | none => systemParent
  return (parent, ← anchor parent)

/-- Makes a scope's directory once it is known where. -/
def rootIn (namePrefix : String) : Except IoError Path → Dialogue (Except IoError Path)
  | .ok base => createIn base namePrefix nameAttempts
  | .error e => return .error e

/-- What a scope is made of: the directory, which it holds, or why there is none. -/
def granted (parent : Path) : Except IoError Path → Except ScopeError Scope
  | .ok root => .ok ⟨root, true⟩
  | .error e => .error (.create parent e)

theorem create_eq (parent : Option Path) (namePrefix : String) :
    create parent namePrefix = (do
      let found ← baseOf parent
      granted found.1 <$> rootIn namePrefix found.2) := by
  have hbase (p : Path) : create (some p) namePrefix = (do
      let found ← baseOf (some p)
      granted found.1 <$> rootIn namePrefix found.2) := by
    simp only [create, baseOf, pure_bind, LawfulMonad.bind_assoc]
    refine bind_congr fun base => ?_
    cases base with
    | error e => rfl
    | ok base =>
      rw [← bind_pure_comp]
      exact bind_congr fun made => by cases made <;> rfl
  cases parent with
  | some p => exact hbase p
  | none =>
    have hnone : create none namePrefix = systemParent >>= fun p => create (some p) namePrefix :=
      rfl
    have hfound : baseOf none = systemParent >>= fun p => baseOf (some p) := rfl
    rw [hnone, hfound, LawfulMonad.bind_assoc]
    exact bind_congr hbase

theorem anchor_only (p : Path) : (anchor p).Only (orients ·) := by
  unfold anchor
  split
  · exact only_pure _
  · refine (only_ask (by rfl)).bind fun reply => ?_
    split <;> exact only_pure _

theorem baseOf_only (parent : Option Path) : (baseOf parent).Only (orients ·) := by
  have hbase (p : Path) : (do
      return (p, ← anchor p) : Dialogue (Path × Except IoError Path)).Only (orients ·) :=
    (anchor_only p).bind fun _ => only_pure _
  unfold baseOf
  cases parent with
  | none => exact systemParent_only.bind fun p => hbase p
  | some p => exact hbase p

theorem rootIn_only (namePrefix : String) (base : Except IoError Path) :
    (rootIn namePrefix base).Only (founds ·) := by
  cases base with
  | error e => exact only_pure _
  | ok base => exact createIn_only _ _ _

theorem create_only (parent : Option Path) (namePrefix : String) :
    (create parent namePrefix).Only (founds ·) := by
  rw [create_eq]
  have hfounds (r : Request) (h : r.orients) : r.founds := by cases r <;> first | rfl | cases h
  exact ((baseOf_only parent).mono hfounds).bind fun _ => (rootIn_only _ _).map _

theorem createDir_only (scope : Scope) (relative : Path) :
    (scope.createDir relative).Only (fills ·) := by
  unfold createDir
  split
  · exact only_pure _
  · refine ((makeDirsWithin_only _ _).mono fun _ => fills_of_digs).bind fun made => ?_
    split <;> exact only_pure _

theorem makeParent_only (path : Path) : (makeParent path).Only (fills ·) := by
  unfold makeParent
  split
  · exact only_pure _
  · refine ((makeDirsWithin_only _ _).mono fun _ => fills_of_digs).bind fun made => ?_
    split <;> exact only_pure _

theorem writeFile_only (scope : Scope) (relative : Path) (content : Bytes) :
    (scope.writeFile relative content).Only (fills ·) := by
  unfold writeFile
  split
  · exact only_pure _
  · refine (makeParent_only _).bind fun made => ?_
    split
    · exact only_pure _
    · refine (only_ask (by rfl)).bind fun stored => ?_
      split <;> exact only_pure _

theorem close_only (scope : Scope) : scope.close.Only (removes ·) := by
  unfold close
  split
  · refine (only_ask (by rfl)).bind fun reply => ?_
    split <;> exact only_pure _
  · exact only_pure _

end Scope

namespace Scenario

variable (s : Scenario)

theorem prepare_only (scope : Scope) (steps : List SetupStep) :
    (prepare scope steps).Only (fills ·) := by
  induction steps with
  | nil => exact only_pure _
  | cons step rest ih =>
    unfold prepare
    cases step with
    | createDir path =>
      refine (scope.createDir_only path).bind fun made => ?_
      dsimp only
      split
      · exact ih
      · exact only_pure _
    | writeFile path content =>
      refine (scope.writeFile_only path content).bind fun made => ?_
      dsimp only
      split
      · exact ih
      · exact only_pure _

theorem supervise_only (bench : Bench) (scope : Option Scope) (grace : Duration)
    (args : List String) : (s.supervise bench scope grace args).Only (tends ·) := by
  unfold supervise
  dsimp only
  split
  · exact only_pure _
  · refine (Runner.spawn_only _ _).bind fun spawned => ?_
    split
    · exact only_pure _
    · refine ((Observation.observe_only _ _).mono fun _ => tends_of_watches).bind fun _ => ?_
      refine ((bench.runner.stop_only _ _).mono fun _ h =>
        tends_of_handles (handles_of_attends h)).bind fun stopped => ?_
      split <;> exact only_pure _

theorem subjectRun_only (bench : Bench) (scope : Option Scope) (mode : RunMode) :
    (s.subjectRun bench scope mode).Only (tends ·) := by
  unfold subjectRun
  cases mode with
  | supervised grace => exact s.supervise_only bench scope grace _
  | bounded =>
    refine (bench.runner.runBounded_only _ _ _).bind fun ran => ?_
    split <;> exact only_pure _

/-- Whatever the evaluator of a scenario asks for is of one kind. -/
def Judges (P : Request → Prop) : Prop :=
  ∀ mode evaluate, s.action = .run mode evaluate → ∀ e, (evaluate e).Only P

/-- What is left of a scenario once its scope is filled: the subject runs and is judged. -/
def work (bench : Bench) (scope : Option Scope) (mode : RunMode) (evaluate : Evaluator) :
    Dialogue (Except ScenarioFault (List Verdict)) := do
  match ← s.subjectRun bench scope mode with
  | .error f => return .error f
  | .ok (run, observation) =>
    match ← evaluate ⟨s.name, s.binary, run, scope.map (·.root), observation⟩ with
    | .ok verdicts => return .ok verdicts
    | .error p => return .error (.panic p)

theorem drive_none (bench : Bench) (mode : RunMode) (evaluate : Evaluator) :
    s.drive bench none mode evaluate = s.work bench none mode evaluate := rfl

theorem drive_some (bench : Bench) (scope : Scope) (mode : RunMode) (evaluate : Evaluator) :
    s.drive bench (some scope) mode evaluate = (do
      match ← prepare scope s.setup with
      | .error f => return .error f
      | .ok () => s.work bench (some scope) mode evaluate) := rfl

variable {s} {P : Request → Prop}

theorem work_only (bench : Bench) (scope : Option Scope) {mode : RunMode} {evaluate : Evaluator}
    (htends : ∀ r, tends r → P r) (heval : ∀ e, (evaluate e).Only P) :
    (s.work bench scope mode evaluate).Only P := by
  refine ((s.subjectRun_only bench scope mode).mono htends).bind fun ran => ?_
  split
  · exact only_pure _
  · refine (heval _).bind fun judged => ?_
    split <;> exact only_pure _

/-- How its scope is filled is left open. -/
theorem drive_only (bench : Bench) (scope : Option Scope) {mode : RunMode} {evaluate : Evaluator}
    (hprepare : ∀ scope, (prepare scope s.setup).Only P) (htends : ∀ r, tends r → P r)
    (heval : ∀ e, (evaluate e).Only P) : (s.drive bench scope mode evaluate).Only P := by
  have hwork : (s.work bench scope mode evaluate).Only P := work_only bench scope htends heval
  cases scope with
  | none =>
    rw [drive_none]
    exact hwork
  | some scope =>
    rw [drive_some]
    refine (hprepare scope).bind fun prepared => ?_
    split
    · exact only_pure _
    · exact hwork

theorem execute_only_of (bench : Bench) (available : Availability)
    (hprepare : ∀ scope, (prepare scope s.setup).Only P) (hfounds : ∀ r, founds r → P r)
    (htends : ∀ r, tends r → P r) (hremoves : ∀ r, removes r → P r) (hjudges : s.Judges P) :
    (s.execute bench available).Only P := by
  unfold execute
  split
  · exact only_pure _
  · rename_i mode evaluate haction
    have hdrive (scope : Option Scope) : (s.drive bench scope mode evaluate).Only P :=
      drive_only bench scope hprepare htends (hjudges mode evaluate haction)
    split
    · refine Only.bind ?_ fun _ => only_pure _
      unfold driveIsolated
      split
      · refine ((Scope.create_only _ _).mono hfounds).bind fun made => ?_
        split
        · exact only_pure _
        · rename_i scope
          refine (hdrive _).bind fun result => ?_
          exact (scope.close_only.mono hremoves).discard.bind fun _ => only_pure _
      · exact hdrive none
    · exact only_pure _

theorem execute_only (bench : Bench) (available : Availability)
    (hserves : ∀ r, serves r → P r) (hjudges : s.Judges P) :
    (s.execute bench available).Only P := by
  have hprepare (scope : Scope) : (prepare scope s.setup).Only P :=
    (prepare_only scope s.setup).mono fun r h => hserves r (by simp [serves, h])
  refine execute_only_of bench available hprepare ?_ ?_ ?_ hjudges
  · exact fun r h => hserves r (by simp [serves, h])
  · exact fun r h => hserves r (by simp [serves, h])
  · exact fun r h => hserves r (by simp [serves, h])

end Scenario

end SmokeBench
