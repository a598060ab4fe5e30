import SmokeBench.Dialogue

/-!
Running a subject. A bounded run waits for the end or the deadline; a supervised subject runs until
it is stopped, first by a request to its group and, once the grace has passed, by force. In every
case the rest of the group is killed and both pipes are drained within one common grace.
-/

namespace SmokeBench

inductive RunError
  | spawn (path : Path) (args : List String) (cause : IoError)
  | wait (path : Path) (cause : IoError)
  deriving DecidableEq, Repr

def RunError.message : RunError → String
  | spawn path args cause =>
    "failed to spawn " ++ path.display ++ " " ++ String.intercalate " " args ++ ": " ++ cause.message
  | wait path cause => s!"failed to wait for {path.display}: {cause.message}"

inductive Completion
  | exited
  | timedOut
  | escalated
  deriving DecidableEq, Repr

structure Runner where
  drainGrace : Duration
  reapTimeout : Duration
  deriving DecidableEq, Repr

/-- The handle of a subject: its leader, and when it was started. -/
structure Subject where
  path : Path
  pid : Pid
  started : Instant
  deriving DecidableEq, Repr

namespace Runner

def standard : Runner := ⟨.ofMillis 500, .ofSecs 2⟩

def spawn (path : Path) (args : List String) : Dialogue (Except RunError Subject) := do
  let started ← now
  match ← ask (.spawn path args) with
  | .ok pid => return .ok ⟨path, pid, started⟩
  | .error e => return .error (.spawn path args e)

def awaitFor (s : Subject) (span : Duration) : Dialogue (Except IoError (Option ExitStatus)) := do
  ask (.awaitExit s.pid ((← now) + span))

/-- A group that has vanished needs no signal any more. -/
def signalled : Except IoError Unit → Except IoError Unit
  | .error .noSuchProcess => .ok ()
  | reply => reply

def sendSignal (s : Subject) (signal : Signal) : Dialogue (Except IoError Unit) := do
  return signalled (← ask (.signalGroup s.pid signal))

/-- Kills the group and then the leader; a leader that still does not end is given up. -/
def killAndReap (r : Runner) (s : Subject) : Dialogue (Option ExitStatus) := do
  match ← sendSignal s .kill with
  | .ok () => discard (ask (.killLeader s.pid))
  | .error _ => pure ()
  match ← awaitFor s r.reapTimeout with
  | .ok status => return status
  | .error _ => return none

def resultOf (status : Option ExitStatus) (completion : Completion) (out err : Bytes)
    (elapsed : Duration) : RunResult where
  exitCode := if completion = .timedOut then none else status.bind (·.code)
  signal := status.bind (·.signal)
  stdout := Text.Utf8.lossy out
  stderr := Text.Utf8.lossy err
  elapsed := elapsed
  timedOut := completion = .timedOut
  escalated := completion = .escalated

def finish (r : Runner) (s : Subject) (status : Option ExitStatus) (completion : Completion) :
    Dialogue RunResult := do
  let elapsed := (← now) - s.started
  discard (sendSignal s .kill)
  let deadline := (← now) + r.drainGrace
  let out ← ask (.drain s.pid .out deadline)
  let err ← ask (.drain s.pid .err deadline)
  ask (.release s.pid)
  return resultOf status completion out err elapsed

def giveUp {α : Type} (s : Subject) (e : IoError) : Dialogue (Except RunError α) := do
  ask (.release s.pid)
  return .error (.wait s.path e)

def runBounded (r : Runner) (path : Path) (args : List String) (timeout : Duration) :
    Dialogue (Except RunError RunResult) := do
  match ← spawn path args with
  | .error e => return .error e
  | .ok s =>
    match ← awaitFor s timeout with
    | .error e => giveUp s e
    | .ok (some status) => .ok <$> r.finish s (some status) .exited
    | .ok none =>
      let status ← r.killAndReap s
      .ok <$> r.finish s status .timedOut

def escalate (r : Runner) (s : Subject) : Dialogue (Except RunError RunResult) := do
  let status ← r.killAndReap s
  .ok <$> r.finish s status .escalated

def stop (r : Runner) (s : Subject) (grace : Duration) : Dialogue (Except RunError RunResult) := do
  match ← ask (.pollExit s.pid) with
  | .error e => giveUp s e
  | .ok (some status) => .ok <$> r.finish s (some status) .exited
  | .ok none =>
    match ← sendSignal s .term with
    | .error _ => r.escalate s
    | .ok () =>
      match ← awaitFor s grace with
      | .error e => giveUp s e
      | .ok (some status) => .ok <$> r.finish s (some status) .exited
      | .ok none => r.escalate s

end Runner

end SmokeBench
