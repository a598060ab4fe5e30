import SmokeBench.Duration
import SmokeBench.Text.Blank

/-!
What is known of a subject once it is gone: how it ended, what it wrote and how long it took.
-/

namespace SmokeBench

inductive Stream
  | stdout
  | stderr
  | combined
  deriving DecidableEq, Repr

def Stream.label : Stream → String
  | stdout => "stdout"
  | stderr => "stderr"
  | combined => "output"

/-- How a process ended: with a code of its own or by a signal. -/
inductive ExitStatus
  | exited (code : Nat)
  | signaled (signal : Nat)
  deriving DecidableEq, Repr

def ExitStatus.code : ExitStatus → Option Int
  | exited c => some c
  | signaled _ => none

def ExitStatus.signal : ExitStatus → Option Int
  | exited _ => none
  | signaled s => some s

structure RunResult where
  exitCode : Option Int
  signal : Option Int
  stdout : String
  stderr : String
  elapsed : Duration
  timedOut : Bool
  escalated : Bool
  deriving DecidableEq, Repr

namespace RunResult

def text (r : RunResult) : Stream → String
  | .stdout => r.stdout
  | .stderr => r.stderr
  | .combined => r.stdout ++ r.stderr

/-- The first line of both streams together, without the blanks at its end. -/
def firstLine (r : RunResult) : String :=
  String.ofList (Text.trimEndChars (Text.firstLineChars (r.text .combined).toList))

def success (r : RunResult) : Bool := r.exitCode == some 0

end RunResult

end SmokeBench
