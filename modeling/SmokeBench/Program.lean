import SmokeBench.CommandLine
import SmokeBench.Summary.Basic

/-!
The program: what its arguments ask for, and the status it ends with. Zero says that no check failed,
one that a check or an output failed, two that the bench could not be set up.
-/

namespace SmokeBench.Program

/-- An error that ends the program, with its status. -/
structure Failure where
  message : String
  status : Nat
  deriving DecidableEq, Repr

def failedOutput (e : IoError) : Failure := ⟨s!"failed to write to stdout: {e.message}", 1⟩
def badSettings (message : String) : Failure := ⟨message, 2⟩
def failedRun (message : String) : Failure := ⟨message, 1⟩

abbrev Action (α : Type) := ExceptT Failure Dialogue α

def printLines (lines : List String) : Action Unit := do
  match ← (Transcript.printLines lines : Dialogue _) with
  | .ok () => return ()
  | .error e => throw (failedOutput e)

def orFail {ε α : Type} (d : Dialogue (Except ε α)) (failure : ε → Failure) : Action α := do
  match ← (d : Dialogue _) with
  | .ok a => return a
  | .error e => throw (failure e)

def suitesOf (i : Invocation) (s : Settings) : Action (List Suite) :=
  orFail (pure (Catalog.buildSelected i.suites s)) fun e => badSettings e.message

def suiteListing (kind : SuiteKind) (suite : Suite) : List String :=
  (CommandLine.padRight 10 kind.key ++ kind.title) ::
    suite.scenarios.map fun s => s!"  {s.sectionName}: {s.name}"

/-- Whether the command line asks for a suite. It asks for all if it names none. -/
def asksFor (i : Invocation) (kind : SuiteKind) : Bool :=
  i.suites.isEmpty || i.suites.contains kind

/-- Each suite is built when its lines are to be printed. -/
def list (i : Invocation) (s : Settings) : Action Nat := do
  for kind in SuiteKind.all.filter (asksFor i) do
    let suite ← orFail (pure (Catalog.build kind s)) fun e => badSettings e.message
    printLines (suiteListing kind suite)
  return 0

/-- Runs suites one after the other with one transcript. -/
def runAll (bench : Bench) (t : Transcript) (done : List SuiteReport) :
    List Suite → Action (List SuiteReport × Transcript)
  | [] => return (done, t)
  | suite :: rest => do
    let outcome : Suite.Outcome ← (suite.run bench t : Dialogue _)
    match outcome.result with
    | .ok report => runAll bench outcome.transcript (done ++ [report]) rest
    | .error e => throw (failedRun e.message)

def runSuites (i : Invocation) (s : Settings) : Action Nat := do
  let started ← (ask .calendar : Dialogue Nat)
  let suites ← suitesOf i s
  let (reports, t) ← runAll s.bench .start [] suites
  match ← (t.overall reports : Dialogue _) with
  | (.error e, _) => throw (failedOutput e)
  | (.ok (), _) =>
    match s.summaryDir with
    | some dir =>
      let summary ← (RunSummary.create started reports : Dialogue _)
      discard (orFail (summary.writeTo dir) fun e => failedRun e.message)
    | none => pure ()
    return if reports.any (·.failed) then 1 else 0

def act (i : Invocation) : Action Nat := do
  if i.showVersion then
    printLines [s!"{CommandLine.programName} {CommandLine.version}"]
    return 0
  else
    let settings ← orFail (Settings.load i.overrides) fun e => badSettings e.message
    if i.list then list i settings else runSuites i settings

/-- The whole program; the result is its exit status. -/
def main (args : List Bytes) : Dialogue Nat := do
  match CommandLine.parse args with
  | .error (.help detailed) =>
    discard (ask (.print (CommandLine.helpText detailed)))
    return 0
  | .error (.fault e) =>
    discard (ask (.printError s!"error: {e.message}\n"))
    return 2
  | .ok i =>
    match ← (act i).run with
    | .ok status => return status
    | .error f =>
      discard (ask (.printError s!"{CommandLine.programName}: {f.message}\n"))
      return f.status

end SmokeBench.Program
