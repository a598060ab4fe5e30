import SmokeBench.Binary
import SmokeBench.Observation
import SmokeBench.Text.Search
import SmokeBench.Verdict

/-!
A scenario names one check of a subject: the binary, its arguments, what to prepare and to watch,
and the evaluator that judges the evidence. It needs a scope exactly when an argument, a setup
step or a watched path mentions one.
-/

namespace SmokeBench

inductive RunMode
  | bounded
  | supervised (grace : Duration)
  deriving DecidableEq, Repr

inductive SetupStep
  | createDir (path : Path)
  | writeFile (path : Path) (content : Bytes)
  deriving DecidableEq, Repr

/-- How an evaluator can fail: with a text, or with something that is no text. -/
inductive Panic
  | text (message : String)
  | payload
  deriving DecidableEq, Repr

def Panic.message : Panic → String
  | text m => m
  | payload => "panicked with a non-string payload"

structure Evidence where
  /-- The name of the scenario. -/
  name : String
  binary : Binary
  run : RunResult
  scope : Option Path
  observation : Observation

def Evidence.scopePath (e : Evidence) (relative : Path) : Option Path :=
  e.scope.map (·.join relative)

abbrev Evaluator := Evidence → Dialogue (Except Panic (List Verdict))

inductive Action
  | locate
  | run (mode : RunMode) (evaluate : Evaluator)

structure Scenario where
  sectionName : String
  name : String
  binary : Binary
  action : Action
  args : List String
  timeout : Duration
  needsScope : Bool
  setup : List SetupStep
  watch : List Path

namespace Scenario

def scopeToken : String := "\x7bscope\x7d"

def build (sectionName name : String) (binary : Binary) (action : Action) (args : List String)
    (timeout : Duration) : Scenario where
  sectionName := sectionName
  name := name
  binary := binary
  action := action
  args := args
  timeout := timeout
  needsScope := args.any (Text.contains · scopeToken)
  setup := []
  watch := []

def locate (sectionName : String) (binary : Binary) : Scenario :=
  build sectionName binary.name binary .locate [] .zero

def bounded (sectionName name : String) (binary : Binary) (args : List String)
    (timeout : Duration) (evaluate : Evaluator) : Scenario :=
  build sectionName name binary (.run .bounded evaluate) args timeout

def supervised (sectionName name : String) (binary : Binary) (args : List String)
    (window grace : Duration) (evaluate : Evaluator) : Scenario :=
  build sectionName name binary (.run (.supervised grace) evaluate) args window

def withSetup (s : Scenario) (step : SetupStep) : Scenario :=
  { s with needsScope := true, setup := s.setup ++ [step] }

def watching (s : Scenario) (relative : Path) : Scenario :=
  { s with needsScope := true, watch := s.watch ++ [relative] }

def renderArgs (s : Scenario) : Option Path → List String
  | some root => s.args.map (Text.replaceToken scopeToken root.display)
  | none => s.args

end Scenario

end SmokeBench
