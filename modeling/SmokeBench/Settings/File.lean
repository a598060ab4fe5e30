import SmokeBench.Dialogue
import SmokeBench.Settings.Error
import SmokeBench.Settings.Misfit
import SmokeBench.Toml.Parser

/-!
Settings taken from a file. Every section is a table with known keys, or an array whose items fill
the keys in their order. Keys are looked at in alphabetical order, and the first that does not fit
is told.
-/

namespace SmokeBench

structure BinariesSection where
  srcDir : Option Path
  qtDir : Option Path
  deriving DecidableEq, Repr

structure TimingSection where
  boundedTimeoutMs : Option Nat
  stopGraceMs : Option Nat
  datadirWindowMs : Option Nat
  pidWindowMs : Option Nat
  pollIntervalMs : Option Nat
  deriving DecidableEq, Repr

structure ScopeSection where
  root : Option Path
  namePrefix : Option String
  deriving DecidableEq, Repr

structure SummarySection where
  dir : Option Path
  deriving DecidableEq, Repr

structure FileSettings where
  binaries : BinariesSection
  timing : TimingSection
  scope : ScopeSection
  summary : SummarySection
  deriving DecidableEq, Repr

namespace FileSettings

open Toml (Value Entries)

abbrev Fit := Except SettingsError

def empty : FileSettings :=
  ⟨⟨none, none⟩, ⟨none, none, none, none, none⟩, ⟨none, none⟩, ⟨none⟩⟩

def fitPath : Value → Fit Path
  | .string s => .ok (Path.ofString s)
  | v => .error (.misfit (Misfit.describe "path string" v))

def fitText : Value → Fit String
  | .string s => .ok s
  | v => .error (.misfit (Misfit.describe "a string" v))

def fitCount : Value → Fit Nat
  | .integer n =>
    if 0 ≤ n ∧ n < Int.pow 2 64 then .ok n.toNat
    else if -Int.pow 2 63 ≤ n ∧ n < 0 then .error (.misfit (Misfit.negative n "u64"))
    else .error (.misfit (Misfit.describe "u64" (.integer n)))
  | v => .error (.misfit (Misfit.describe "u64" v))

/-- One key of a section: its name and what a value for it does to the section. -/
structure Field (α : Type) where
  name : String
  set : α → Value → Fit α

def binariesFields : List (Field BinariesSection) :=
  [⟨"src_dir", fun s v => return { s with srcDir := ← fitPath v }⟩,
    ⟨"qt_dir", fun s v => return { s with qtDir := ← fitPath v }⟩]

def timingFields : List (Field TimingSection) :=
  [⟨"bounded_timeout_ms", fun s v => return { s with boundedTimeoutMs := ← fitCount v }⟩,
    ⟨"stop_grace_ms", fun s v => return { s with stopGraceMs := ← fitCount v }⟩,
    ⟨"datadir_window_ms", fun s v => return { s with datadirWindowMs := ← fitCount v }⟩,
    ⟨"pid_window_ms", fun s v => return { s with pidWindowMs := ← fitCount v }⟩,
    ⟨"poll_interval_ms", fun s v => return { s with pollIntervalMs := ← fitCount v }⟩]

def scopeFields : List (Field ScopeSection) :=
  [⟨"root", fun s v => return { s with root := ← fitPath v }⟩,
    ⟨"prefix", fun s v => return { s with namePrefix := ← fitText v }⟩]

def summaryFields : List (Field SummarySection) :=
  [⟨"dir", fun s v => return { s with dir := ← fitPath v }⟩]

def sorted (entries : Entries) : Entries := entries.mergeSort fun a b => decide (a.1 ≤ b.1)

def setNamed {α : Type} (fields : List (Field α)) (s : α) (entry : String × Value) : Fit α :=
  match fields.find? (·.name == entry.1) with
  | some field => field.set s entry.2
  | none => .error (.misfit (Misfit.unknownField entry.1 (fields.map (·.name))))

def fillByName {α : Type} (fields : List (Field α)) (s : α) (entries : Entries) : Fit α :=
  (sorted entries).foldlM (setNamed fields) s

/-- Items fill the keys in order; items beyond the last key do not count. -/
def fillByPosition {α : Type} (fields : List (Field α)) (s : α) (items : List Value) : Fit α :=
  (fields.zip items).foldlM (fun s p => p.1.set s p.2) s

/-- The key under which a date would offer its text. -/
def momentKey : String := "$__toml_private_datetime"

def fill {α : Type} (label : String) (fields : List (Field α)) (s : α) : Value → Fit α
  | .table entries => fillByName fields s entries
  | .array items => fillByPosition fields s items
  | .moment => .error (.misfit (Misfit.unknownField momentKey (fields.map (·.name))))
  | v => .error (.misfit (Misfit.describe s!"struct {label}" v))

def sections : List (Field FileSettings) :=
  [⟨"binaries", fun s v =>
      return { s with binaries := ← fill "BinariesSection" binariesFields ⟨none, none⟩ v }⟩,
    ⟨"timing", fun s v => return { s with
      timing := ← fill "TimingSection" timingFields ⟨none, none, none, none, none⟩ v }⟩,
    ⟨"scope", fun s v =>
      return { s with scope := ← fill "ScopeSection" scopeFields ⟨none, none⟩ v }⟩,
    ⟨"summary", fun s v =>
      return { s with summary := ← fill "SummarySection" summaryFields ⟨none⟩ v }⟩]

def ofToml (v : Value) : Fit FileSettings := fill "FileConfig" sections empty v

def counts (s : FileSettings) : List (String × Option Nat) :=
  [("timing.bounded_timeout_ms", s.timing.boundedTimeoutMs),
    ("timing.stop_grace_ms", s.timing.stopGraceMs),
    ("timing.datadir_window_ms", s.timing.datadirWindowMs),
    ("timing.pid_window_ms", s.timing.pidWindowMs),
    ("timing.poll_interval_ms", s.timing.pollIntervalMs)]

def paths (s : FileSettings) : List (String × Option Path) :=
  [("binaries.src_dir", s.binaries.srcDir), ("binaries.qt_dir", s.binaries.qtDir),
    ("scope.root", s.scope.root), ("summary.dir", s.summary.dir)]

/-- Refuses counts of zero, then empty paths, then a blank name prefix. -/
def validate (s : FileSettings) : Fit Unit :=
  match s.counts.find? (·.2 == some 0) with
  | some (name, _) => .error (.invalid s!"{name} must be greater than zero")
  | none =>
    match s.paths.find? fun p => p.2.any (·.bytes.isEmpty) with
    | some (name, _) => .error (.invalid s!"{name} must be non-empty")
    | none =>
      if s.scope.namePrefix.any Text.blank then .error (.invalid "scope.prefix must be non-empty")
      else .ok ()

def parse (text : String) : Fit FileSettings := do
  match Toml.parse text with
  | none => .error .notADocument
  | some v =>
    let settings ← ofToml v
    settings.validate
    return settings

def sizeLimit : Nat := 64 * 1024

def ofBytes (content : Bytes) : Fit FileSettings :=
  if sizeLimit < content.length then .error (.invalid "config file exceeds size limit")
  else
    match Text.Utf8.strict content with
    | none => .error (.invalid "config file must be utf-8")
    | some text => parse text

def load (path : Path) : Dialogue (Fit FileSettings) := do
  match ← ask (.load path) with
  | .error e => return .error (.unreadable path e)
  | .ok content => return ofBytes content

end FileSettings

end SmokeBench
