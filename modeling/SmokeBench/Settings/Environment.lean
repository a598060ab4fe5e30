import SmokeBench.Dialogue
import SmokeBench.Settings.Error

/-!
Settings taken from environment variables. A variable that is set must be text and not blank; the
timeout must be a positive count of seconds below two to the sixty-fourth. The timeout is looked
at first, then the directories in their order.
-/

namespace SmokeBench

inductive EnvironmentKey
  | srcDir
  | qtDir
  | timeoutSeconds
  | scopeRoot
  | summaryDir
  | log
  deriving DecidableEq, Repr

namespace EnvironmentKey

def all : List EnvironmentKey := [srcDir, qtDir, timeoutSeconds, scopeRoot, summaryDir, log]

def name : EnvironmentKey → String
  | srcDir => "LCC_SANITY_SRC_DIR"
  | qtDir => "LCC_SANITY_QT_DIR"
  | timeoutSeconds => "LCC_SANITY_TIMEOUT_SEC"
  | scopeRoot => "LCC_SANITY_SCOPE_ROOT"
  | summaryDir => "LCC_SANITY_SUMMARY_DIR"
  | log => "LCC_SANITY_LOG"

end EnvironmentKey

structure EnvironmentSettings where
  srcDir : Option Path
  qtDir : Option Path
  timeout : Option Duration
  scopeRoot : Option Path
  summaryDir : Option Path
  deriving DecidableEq, Repr

namespace EnvironmentSettings

def none : EnvironmentSettings := ⟨.none, .none, .none, .none, .none⟩

/-- The value of a variable as text, if it is set and has some. -/
def textOf (key : EnvironmentKey) (raw : Option Bytes) : Except SettingsError (Option String) :=
  match raw with
  | .none => .ok .none
  | some bytes =>
    match Text.Utf8.strict bytes with
    | .none => .error (.environment s!"{key.name} must be valid UTF-8")
    | some text =>
      if Text.blank text then .error (.environment s!"{key.name} must not be empty")
      else .ok (some text)

def digitsValue (cs : List Char) : Option Nat :=
  if cs.isEmpty then .none
  else cs.foldl (fun acc c => acc.bind fun n =>
    if '0' ≤ c ∧ c ≤ '9' then some (n * 10 + (c.toNat - 48)) else .none) (some 0)

/-- One or more digits, after at most one plus sign, below two to the sixty-fourth. -/
def countOf (cs : List Char) : Option Nat :=
  let digits := match cs with
    | '+' :: rest => rest
    | cs => cs
  match digitsValue digits with
  | some n => if n < Nat.pow 2 64 then some n else .none
  | .none => .none

def secondsOf (key : EnvironmentKey) (text : String) : Except SettingsError Duration :=
  match countOf (Text.trimChars text.toList) with
  | .none => .error (.environment s!"{key.name} must be a positive integer number of seconds")
  | some 0 => .error (.environment s!"{key.name} must be greater than zero")
  | some n => .ok (.ofSecs n)

/-- The settings in an environment given as the value of every key. -/
def ofValues (value : EnvironmentKey → Option Bytes) :
    Except SettingsError EnvironmentSettings := do
  let timeout ← match ← textOf .timeoutSeconds (value .timeoutSeconds) with
    | some text => some <$> secondsOf .timeoutSeconds text
    | .none => .ok .none
  let path (key : EnvironmentKey) : Except SettingsError (Option Path) :=
    (·.map Path.ofString) <$> textOf key (value key)
  let srcDir ← path .srcDir
  let qtDir ← path .qtDir
  let scopeRoot ← path .scopeRoot
  let summaryDir ← path .summaryDir
  return ⟨srcDir, qtDir, timeout, scopeRoot, summaryDir⟩

def load : Dialogue (Except SettingsError EnvironmentSettings) := do
  let timeout ← ask (.environment EnvironmentKey.timeoutSeconds.name)
  let srcDir ← ask (.environment EnvironmentKey.srcDir.name)
  let qtDir ← ask (.environment EnvironmentKey.qtDir.name)
  let scopeRoot ← ask (.environment EnvironmentKey.scopeRoot.name)
  let summaryDir ← ask (.environment EnvironmentKey.summaryDir.name)
  return ofValues fun
    | .timeoutSeconds => timeout
    | .srcDir => srcDir
    | .qtDir => qtDir
    | .scopeRoot => scopeRoot
    | .summaryDir => summaryDir
    | .log => .none

end EnvironmentSettings

end SmokeBench
