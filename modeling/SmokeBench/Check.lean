import SmokeBench.Dialogue
import SmokeBench.Text.Lowercase
import SmokeBench.Text.Search
import SmokeBench.Verdict

/-!
The checks that turn a run or a path into a verdict.
-/

namespace SmokeBench

inductive CaseMode
  | sensitive
  | insensitive
  deriving DecidableEq, Repr

def CaseMode.standard : CaseMode := .insensitive

inductive ExitExpectation
  | exactly (code : Int)
  | nonzero
  | anyOf (codes : List Int)
  deriving DecidableEq, Repr

namespace ExitExpectation

def accepts : ExitExpectation → Int → Bool
  | exactly expected, code => code == expected
  | nonzero, code => code != 0
  | anyOf codes, code => codes.contains code

def describe : ExitExpectation → String
  | exactly code => s!"exit code {code}"
  | nonzero => "a nonzero exit code"
  | anyOf codes => "one of exit codes [" ++ String.intercalate ", " (codes.map toString) ++ "]"

end ExitExpectation

namespace Check

def exitCodeIs (r : RunResult) (expected : ExitExpectation) : Verdict :=
  match r.exitCode, r.signal with
  | some code, _ =>
    if expected.accepts code then
      .pass s!"exited with code {code} (expected {expected.describe})"
    else .fail s!"exited with code {code}, expected {expected.describe}"
  | none, signal =>
    if r.timedOut then
      .fail (s!"no exit code: killed after {r.elapsed.millis} ms deadline, " ++
        s!"expected {expected.describe}")
    else
      match signal with
      | some n => .fail s!"no exit code: terminated by signal {n}, expected {expected.describe}"
      | none => .fail s!"no exit code observed, expected {expected.describe}"

def found (text needle : String) : CaseMode → Bool
  | .sensitive => Text.contains text needle
  | .insensitive => Text.contains (Text.lowercase text) (Text.lowercase needle)

def outputContains (r : RunResult) (needle : String) (stream : Stream) (mode : CaseMode) :
    Verdict :=
  if found (r.text stream) needle mode then .pass s!"{stream.label} contains \"{needle}\""
  else .fail s!"{stream.label} does not contain \"{needle}\""

def outputMinLength (r : RunResult) (stream : Stream) (least : Nat) : Verdict :=
  let length := (r.text stream).utf8ByteSize
  if least ≤ length then .pass s!"{stream.label} returned {length} bytes"
  else .fail s!"{stream.label} output too short ({length} bytes, need at least {least})"

def completedWithin (r : RunResult) (limit : Duration) : Verdict :=
  if r.timedOut then .fail s!"timed out after {r.elapsed.millis} ms"
  else if limit < r.elapsed then .fail s!"took {r.elapsed.millis} ms, limit {limit.millis} ms"
  else .pass s!"completed in {r.elapsed.millis} ms"

end Check

inductive PathKind
  | any
  | file
  | directory
  deriving DecidableEq, Repr

namespace PathKind

def noun : PathKind → String
  | any => "path"
  | file => "file"
  | directory => "directory"

def accepts : PathKind → FileKind → Bool
  | any, _ => true
  | file, kind => kind == .file
  | directory, kind => kind == .directory

end PathKind

namespace Check

def pathExists (path : Path) (kind : PathKind) : Dialogue Verdict := do
  let present := match ← ask (.metadata path) with
    | .ok m => kind.accepts m.kind
    | .error _ => false
  return if present then .pass s!"{kind.noun} exists at {path.display}"
    else .fail s!"{kind.noun} not found at {path.display}"

def fileNonempty (path : Path) : Dialogue Verdict := do
  match ← ask (.metadata path) with
  | .error _ => return .info s!"cannot check size, {path.display} not found"
  | .ok m =>
    if m.kind ≠ .file then return .fail s!"{path.display} is not a regular file"
    else if m.size = 0 then return .fail s!"{path.display} is empty"
    else return .pass s!"{path.display} has {m.size} bytes"

end Check

end SmokeBench
