import SmokeBench.Settings.Environment
import SmokeBench.Settings.File
import SmokeBench.Suite

/-!
The settings of a run. Each is taken from the highest layer that sets it: the command line, then the
environment, then the file, then the default. Two settings stand out: the directory of the graphical
wallet defaults to a place below the source directory, and the environment's timeout is a floor
for the bounded timeout and not a replacement.
-/

namespace SmokeBench

structure Overrides where
  config : Option Path
  srcDir : Option Path
  qtDir : Option Path
  summaryDir : Option Path
  deriving DecidableEq, Repr

structure Timing where
  boundedTimeout : Duration
  stopGrace : Duration
  datadirWindow : Duration
  pidWindow : Duration
  pollInterval : Duration
  deriving DecidableEq, Repr

def Timing.standard : Timing := ⟨.ofSecs 10, .ofSecs 5, .ofSecs 3, .ofSecs 2, Bench.standardInterval⟩

structure Settings where
  srcDir : Path
  qtDir : Path
  timing : Timing
  scopeRoot : Option Path
  scopePrefix : String
  summaryDir : Option Path
  deriving DecidableEq, Repr

namespace Settings

def defaultSrcDir (runnerDir : Path) : Path :=
  ((runnerDir.join (.ofString "..")).join (.ofString "..")).join (.ofString "src")

def millisOr (value : Option Nat) (default : Duration) : Duration :=
  match value with
  | some n => .ofMillis n
  | none => default

def withFloor (value : Duration) : Option Duration → Duration
  | some floor => value.max floor
  | none => value

def resolveTiming (env : EnvironmentSettings) (file : TimingSection) : Timing where
  boundedTimeout :=
    withFloor (millisOr file.boundedTimeoutMs Timing.standard.boundedTimeout) env.timeout
  stopGrace := millisOr file.stopGraceMs Timing.standard.stopGrace
  datadirWindow := millisOr file.datadirWindowMs Timing.standard.datadirWindow
  pidWindow := millisOr file.pidWindowMs Timing.standard.pidWindow
  pollInterval := millisOr file.pollIntervalMs Timing.standard.pollInterval

def resolve (cli : Overrides) (env : EnvironmentSettings) (file : FileSettings)
    (runnerDir : Path) : Settings :=
  let srcDir := (cli.srcDir <|> env.srcDir <|> file.binaries.srcDir).getD (defaultSrcDir runnerDir)
  { srcDir := srcDir
    qtDir := (cli.qtDir <|> env.qtDir <|> file.binaries.qtDir).getD (srcDir.join (.ofString "qt"))
    timing := resolveTiming env file.timing
    scopeRoot := env.scopeRoot <|> file.scope.root
    scopePrefix := file.scope.namePrefix.getD Bench.standardPrefix
    summaryDir := cli.summaryDir <|> env.summaryDir <|> file.summary.dir }

def bench (s : Settings) : Bench := ⟨.standard, s.scopeRoot, s.scopePrefix, s.timing.pollInterval⟩

def load (cli : Overrides) : Dialogue (Except SettingsError Settings) := do
  match ← EnvironmentSettings.load with
  | .error e => return .error e
  | .ok env =>
    let file ← match cli.config with
      | some path => FileSettings.load path
      | none => pure (.ok .empty)
    match file with
    | .error e => return .error e
    | .ok file =>
      match ← ask .runnerPath with
      | .error e => return .error (.runnerUnknown e)
      | .ok runner =>
        match runner.parent with
        | none => return .error (.invalid "runner executable has no parent directory")
        | some dir => return .ok (resolve cli env file dir)

end Settings

end SmokeBench
