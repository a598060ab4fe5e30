import SmokeBench.Observation
import SmokeBench.Runner
import SmokeBench.Scenario
import SmokeBench.Scope
import SmokeBench.Transcript

/-!
A suite collects scenarios and runs them once, in order. A run reports each scenario whatever
becomes of it: a scenario that cannot be prepared, cannot be started or panics fails, and the next
one starts afresh. Only a transcript that cannot be written ends the run early.
-/

namespace SmokeBench

structure Bench where
  runner : Runner
  scopeParent : Option Path
  scopePrefix : String
  pollInterval : Duration
  deriving DecidableEq, Repr

namespace Bench

def standardPrefix : String := "lcc_test_"
def standardInterval : Duration := .ofMillis 100

def standard : Bench := ⟨.standard, none, standardPrefix, standardInterval⟩

end Bench

/-- Why a scenario could not be judged. -/
inductive ScenarioFault
  | scope (error : ScopeError)
  | run (error : RunError)
  | panic (cause : Panic)
  deriving DecidableEq, Repr

def ScenarioFault.verdict (name : String) : ScenarioFault → Verdict
  | scope e => .fail s!"{name} error: {e.message}"
  | run e => .fail s!"{name} error: {e.message}"
  | panic p => .fail s!"{name} aborted: {p.message}"

namespace Scenario

def prepare (scope : Scope) : List SetupStep → Dialogue (Except ScenarioFault Unit)
  | [] => return .ok ()
  | step :: rest => do
    let made ← match step with
      | .createDir path => scope.createDir path
      | .writeFile path content => scope.writeFile path content
    match made with
    | .ok _ => prepare scope rest
    | .error e => return .error (.scope e)

def watchPaths (scope : Scope) (watch : List Path) : Except ScopeError (List Path) :=
  watch.mapM scope.path

def supervise (s : Scenario) (bench : Bench) (scope : Option Scope) (grace : Duration)
    (args : List String) : Dialogue (Except ScenarioFault (RunResult × Observation)) := do
  let watch := match scope with
    | some scope => watchPaths scope s.watch
    | none => .ok []
  match watch with
  | .error e => return .error (.scope e)
  | .ok paths =>
    match ← Runner.spawn s.binary.path args with
    | .error e => return .error (.run e)
    | .ok subject =>
      let observation ← Observation.observe subject.pid ⟨paths, s.timeout, bench.pollInterval⟩
      match ← bench.runner.stop subject grace with
      | .ok run => return .ok (run, observation)
      | .error e => return .error (.run e)

def subjectRun (s : Scenario) (bench : Bench) (scope : Option Scope) (mode : RunMode) :
    Dialogue (Except ScenarioFault (RunResult × Observation)) := do
  let args := s.renderArgs (scope.map (·.root))
  match mode with
  | .supervised grace => s.supervise bench scope grace args
  | .bounded =>
    match ← bench.runner.runBounded s.binary.path args s.timeout with
    | .ok run => return .ok (run, .empty)
    | .error e => return .error (.run e)

def drive (s : Scenario) (bench : Bench) (scope : Option Scope) (mode : RunMode)
    (evaluate : Evaluator) : Dialogue (Except ScenarioFault (List Verdict)) := do
  let prepared ← match scope with
    | some scope => prepare scope s.setup
    | none => pure (.ok ())
  match prepared with
  | .error f => return .error f
  | .ok () =>
    match ← s.subjectRun bench scope mode with
    | .error f => return .error f
    | .ok (run, observation) =>
      match ← evaluate ⟨s.name, s.binary, run, scope.map (·.root), observation⟩ with
      | .ok verdicts => return .ok verdicts
      | .error p => return .error (.panic p)

/-- Drives a scenario inside a scope of its own, if it needs one. The scope is removed whatever
happens, and a removal that fails does not change the result. -/
def driveIsolated (s : Scenario) (bench : Bench) (mode : RunMode) (evaluate : Evaluator) :
    Dialogue (Except ScenarioFault (List Verdict)) := do
  if s.needsScope then
    match ← Scope.create bench.scopeParent bench.scopePrefix with
    | .error e => return .error (.scope e)
    | .ok scope =>
      let result ← s.drive bench (some scope) mode evaluate
      discard scope.close
      return result
  else s.drive bench none mode evaluate

def locateVerdict (b : Binary) : Availability → Verdict
  | .ready => .pass s!"{b.name} exists and is executable"
  | .notExecutable => .fail s!"{b.name} exists but is not executable"
  | .missing => .fail s!"{b.name} does not exist at {b.path.display}"

def verdictsOf (name : String) : Except ScenarioFault (List Verdict) → List Verdict
  | .ok [] => [.info s!"{name}: no checks evaluated"]
  | .ok vs => vs
  | .error f => [f.verdict name]

def execute (s : Scenario) (bench : Bench) (available : Availability) :
    Dialogue (List Verdict) := do
  match s.action with
  | .locate => return [locateVerdict s.binary available]
  | .run mode evaluate =>
    if available.present then return verdictsOf s.name (← s.driveIsolated bench mode evaluate)
    else return [.skip s!"{s.name} (binary not found)"]

end Scenario

inductive Phase
  | registered
  | running
  | aggregated
  | reported
  deriving DecidableEq, Repr

def Phase.name : Phase → String
  | registered => "registered"
  | running => "running"
  | aggregated => "aggregated"
  | reported => "reported"

inductive SuiteError
  | phase (title : String) (found expected : Phase)
  | transcript (cause : IoError)
  deriving DecidableEq, Repr

def SuiteError.message : SuiteError → String
  | phase title found expected => s!"suite \"{title}\" is {found.name}, expected {expected.name}"
  | transcript cause => s!"transcript write failed: {cause.message}"

structure Suite where
  title : String
  scenarios : List Scenario
  phase : Phase

namespace Suite

def empty (title : String) : Suite := ⟨title, [], .registered⟩

def expectRegistered (s : Suite) : Except SuiteError Unit :=
  if s.phase = .registered then .ok () else .error (.phase s.title s.phase .registered)

def register (s : Suite) (scenario : Scenario) : Except SuiteError Suite :=
  match s.expectRegistered with
  | .error e => .error e
  | .ok () => .ok { s with scenarios := s.scenarios ++ [scenario] }

/-- What has been found out about binaries in this run. -/
abbrev Known := List (Path × Availability)

def lookUp (known : Known) (b : Binary) : Dialogue (Availability × Known) := do
  match known.find? (·.1.sameAs b.path) with
  | some entry => return (entry.2, known)
  | none =>
    let found : Availability ← ask (.availability b.path)
    return (found, known ++ [(b.path, found)])

def printVerdicts (t : Transcript) : List Verdict → Transcript.Step
  | [] => return (.ok (), t)
  | v :: rest => do
    match ← t.verdict v with
    | (.ok (), t) => printVerdicts t rest
    | failed => return failed

/-- Runs one scenario after the other; the first line that cannot be written stops the run. -/
def runScenarios (bench : Bench) (t : Transcript) (known : Known) (done : List ScenarioReport) :
    List Scenario → Dialogue (Except IoError (List ScenarioReport) × Transcript)
  | [] => return (.ok done, t)
  | s :: rest => do
    match ← t.enter s.sectionName with
    | (.error e, t) => return (.error e, t)
    | (.ok (), t) =>
      let (available, known) ← lookUp known s.binary
      let verdicts ← s.execute bench available
      match ← printVerdicts t verdicts with
      | (.error e, t) => return (.error e, t)
      | (.ok (), t) =>
        runScenarios bench t known (done ++ [⟨s.sectionName, s.name, verdicts⟩]) rest

structure Outcome where
  result : Except SuiteError SuiteReport
  suite : Suite
  transcript : Transcript

def run (s : Suite) (bench : Bench) (t : Transcript) : Dialogue Outcome := do
  match s.expectRegistered with
  | .error e => return ⟨.error e, s, t⟩
  | .ok () =>
    let running := { s with phase := .running }
    match ← t.banner s.title with
    | (.error e, t) => return ⟨.error (.transcript e), running, t⟩
    | (.ok (), t) =>
      match ← runScenarios bench t [] [] s.scenarios with
      | (.error e, t) => return ⟨.error (.transcript e), running, t⟩
      | (.ok reports, t) =>
        let report : SuiteReport := ⟨s.title, reports⟩
        match ← t.suiteResult report with
        | (.error e, t) => return ⟨.error (.transcript e), { s with phase := .aggregated }, t⟩
        | (.ok (), t) => return ⟨.ok report, { s with phase := .reported }, t⟩

end Suite

end SmokeBench
