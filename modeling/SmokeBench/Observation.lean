import SmokeBench.Dialogue

/-!
Watching a running subject for files. One poll looks at every watched path not yet seen, in the
order of the list; the watch ends when all have been seen, when the subject is gone or when the
window has passed, tested in this order.
-/

namespace SmokeBench

structure Observation where
  seen : List Path
  waited : Duration
  exitedEarly : Bool
  deriving DecidableEq, Repr

namespace Observation

def empty : Observation := ⟨[], .zero, false⟩

def saw (o : Observation) (p : Path) : Bool := o.seen.any (·.sameAs p)

/-- One look at the watched paths, adding to those already seen. -/
def look (seen : List Path) : List Path → Dialogue (List Path)
  | [] => return seen
  | p :: rest => do
    if seen.any (·.sameAs p) then look seen rest
    else
      match ← ask (.metadata p) with
      | .ok _ => look (seen ++ [p]) rest
      | .error _ => look seen rest

/-- Whether the process is known to run still. -/
def isRunning (pid : Pid) : Dialogue Bool := do
  match ← ask (.pollExit pid) with
  | .ok none => return true
  | _ => return false

structure Watch where
  paths : List Path
  window : Duration
  interval : Duration

/-- Polls until a stop condition holds, at most `polls` times. The result tells what was seen and
whether the process ended the watch. -/
def pollUntil (pid : Pid) (w : Watch) (started : Instant) (seen : List Path) :
    Nat → Dialogue (List Path × Bool)
  | 0 => return (seen, false)
  | polls + 1 => do
    let seen ← look seen w.paths
    if !w.paths.isEmpty && seen.length == w.paths.length then return (seen, false)
    else if !(← isRunning pid) then return (seen, true)
    else
      let elapsed := (← now) - started
      if w.window ≤ elapsed then return (seen, false)
      else
        ask (.sleep (w.interval.min (w.window - elapsed)))
        pollUntil pid w started seen polls

/-- As many polls as the window has room for, the first and the last included. -/
def Watch.polls (w : Watch) : Nat := w.window.nanos / Nat.max w.interval.nanos 1 + 2

def observe (pid : Pid) (w : Watch) : Dialogue Observation := do
  let started ← now
  let (seen, exitedEarly) ← pollUntil pid w started [] w.polls
  return ⟨seen, (← now) - started, exitedEarly⟩

end Observation

end SmokeBench
