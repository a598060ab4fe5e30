import SmokeBench.Catalog.Subjects
import SmokeBench.Check

/-!
Third suite: a daemon started on a fresh data directory makes its files there. A file that is gone
again when the evidence is judged still counts if the watch saw it.
-/

namespace SmokeBench.Catalog

def dataDir : Path := .ofString "data"
def regtestDir : Path := .ofString "data/regtest"
def regtestLog : Path := .ofString "data/regtest/debug.log"
def rootLog : Path := .ofString "data/debug.log"
def pidFile : Path := .ofString "data/regtest/litecoincashd.pid"

def appeared (e : Evidence) (path : Path) (kind : PathKind) : Dialogue Bool := do
  match ← ask (.metadata path) with
  | .ok m => return kind.accepts m.kind
  | .error _ => return e.observation.saw path

def createsDataDir (e : Evidence) : Dialogue (List Verdict) := do
  match e.scopePath dataDir, e.scopePath regtestDir with
  | some data, some regtest =>
    if (← Check.pathExists data .directory).passed then
      let below : Verdict :=
        if ← appeared e regtest .directory then .pass "Regtest subdirectory created"
        else .info "Regtest subdirectory not found (may be normal for quick exit)"
      return [.pass s!"Data directory created at {data.display}", below]
    else return [.fail "Data directory was not created"]
  | _, _ => return [.fail "Datadir creation test ran without a scope"]

/-- The verdict that one place for the log settles, if it does. -/
def logAt (e : Evidence) (relative : Path) (location : String) : Dialogue (Option Verdict) := do
  match e.scopePath relative with
  | none => return none
  | some path =>
    match ← ask (.metadata path) with
    | .ok m =>
      return if m.kind = .file then some (.pass s!"debug.log created{location} ({m.size} bytes)")
        else none
    | .error _ =>
      return if e.observation.saw path then
          some (.pass s!"debug.log created{location} (removed at shutdown)")
        else none

def createsDebugLog (e : Evidence) : Dialogue (List Verdict) := do
  match ← logAt e regtestLog "" with
  | some v => return [v]
  | none =>
    match ← logAt e rootLog " in root" with
    | some v => return [v]
    | none => return [.info "debug.log not found (may be normal for quick exit)"]

def createsPidFile (e : Evidence) : Dialogue (List Verdict) := do
  let present ← match e.scopePath pidFile with
    | some path => appeared e path .file
    | none => pure false
  return [if present then .pass "PID file created"
    else .info "PID file not found (may be normal for non-daemon mode)"]

def inspect (f : Evidence → Dialogue (List Verdict)) : Evaluator := fun e => .ok <$> f e

def regtestArgs (extra : List String) : List String :=
  ["-regtest", "-datadir=" ++ Scenario.scopeToken ++ "/data", "-connect=0", "-listen=0"] ++ extra

def dataDirectory (b : Subjects) (t : Timing) : List Scenario :=
  [((Scenario.supervised "data directory creation" "Datadir creation test" b.daemon
      (regtestArgs ["-server=0", "-printtoconsole"]) t.datadirWindow t.stopGrace
      (inspect createsDataDir)).withSetup (.createDir dataDir)).watching regtestDir,
    (((Scenario.supervised "debug.log creation" "Debug log test" b.daemon
      (regtestArgs ["-server=0", "-debug=1"]) t.datadirWindow t.stopGrace
      (inspect createsDebugLog)).withSetup (.createDir dataDir)).watching regtestLog).watching
        rootLog,
    ((Scenario.supervised "PID file (optional)" "PID file test" b.daemon
      (regtestArgs ["-daemon=0", "-server=0"]) t.pidWindow t.stopGrace
      (inspect createsPidFile)).withSetup (.createDir dataDir)).watching pidFile]

end SmokeBench.Catalog
