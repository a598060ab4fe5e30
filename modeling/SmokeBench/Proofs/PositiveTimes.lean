import SmokeBench.Proofs.CatalogVerdicts
import SmokeBench.Proofs.TimeBounds

/-! Every time span that settings give is positive. A variable gives a positive count of seconds or
none at all, a file with a count of zero is refused, and no default is zero; the layers only choose
among these. So each subject of the catalog is given time to run and time to end, and no watch asks
again without a pause. -/

namespace SmokeBench

open Dialogue

theorem bind_eq_ok {ε α β : Type} {x : Except ε α} {f : α → Except ε β} {b : β} :
    (x >>= f) = .ok b ↔ ∃ a, x = .ok a ∧ f a = .ok b := by
  cases x with
  | error e => exact ⟨fun h => (nomatch h), fun ⟨_, h, _⟩ => nomatch h⟩
  | ok a => exact ⟨fun h => ⟨a, rfl, h⟩, fun ⟨_, h, hf⟩ => Except.ok.inj h ▸ hf⟩

namespace Duration

variable {a b : Duration}

theorem pos_ofMillis {n : Nat} (h : 0 < n) : zero < ofMillis n := Nat.mul_pos h (by decide)

theorem pos_of_le (ha : zero < a) (h : a ≤ b) : zero < b := Nat.lt_of_lt_of_le ha h

end Duration

namespace EnvironmentSettings

/-- The variables that hold settings, in the order in which they are read. -/
def asked : List EnvironmentKey := [.timeoutSeconds, .srcDir, .qtDir, .scopeRoot, .summaryDir]

def answers (value : EnvironmentKey → Option Bytes) : List Exchange :=
  asked.map fun key => ⟨.environment key.name, value key⟩

theorem load_yields {σ : Type} (host : Host σ) (s : σ) : ∃ value : EnvironmentKey → Option Bytes,
    Yields host load s (ofValues value) (answers value) := by
  let timeout := host.answer (.environment EnvironmentKey.timeoutSeconds.name) s
  let srcDir := host.answer (.environment EnvironmentKey.srcDir.name) timeout.2
  let qtDir := host.answer (.environment EnvironmentKey.qtDir.name) srcDir.2
  let scopeRoot := host.answer (.environment EnvironmentKey.scopeRoot.name) qtDir.2
  let summaryDir := host.answer (.environment EnvironmentKey.summaryDir.name) scopeRoot.2
  let value (key : EnvironmentKey) : Option Bytes :=
    if key = .timeoutSeconds then timeout.1
    else if key = .srcDir then srcDir.1
    else if key = .qtDir then qtDir.1
    else if key = .scopeRoot then scopeRoot.1
    else summaryDir.1
  exact ⟨value, rfl, rfl⟩

def timeoutOf (raw : Option Bytes) : Except SettingsError (Option Duration) := do
  match ← textOf .timeoutSeconds raw with
  | some text => some <$> secondsOf .timeoutSeconds text
  | .none => return .none

def pathOf (key : EnvironmentKey) (raw : Option Bytes) : Except SettingsError (Option Path) :=
  (·.map Path.ofString) <$> textOf key raw

theorem ofValues_eq (value : EnvironmentKey → Option Bytes) : ofValues value = (do
    let timeout ← timeoutOf (value .timeoutSeconds)
    let srcDir ← pathOf .srcDir (value .srcDir)
    let qtDir ← pathOf .qtDir (value .qtDir)
    let scopeRoot ← pathOf .scopeRoot (value .scopeRoot)
    let summaryDir ← pathOf .summaryDir (value .summaryDir)
    return ⟨srcDir, qtDir, timeout, scopeRoot, summaryDir⟩) := by
  unfold ofValues timeoutOf
  cases textOf .timeoutSeconds (value .timeoutSeconds) with
  | error e => rfl
  | ok text =>
    cases text with
    | none => rfl
    | some text => rfl

/-- A value is text that reads as a count of seconds, blanks around it aside. -/
def Counts (raw : Bytes) (n : Nat) : Prop :=
  ∃ text, Text.Utf8.strict raw = some text ∧ countOf (Text.trimChars text.toList) = some n

theorem textOf_ok {key : EnvironmentKey} {raw : Bytes} {found : Option String}
    (h : textOf key (some raw) = .ok found) :
    ∃ text, Text.Utf8.strict raw = some text ∧ found = some text := by
  unfold textOf at h
  dsimp only at h
  split at h
  · cases h
  · rename_i text htext
    split at h
    · cases h
    · exact ⟨text, htext, (Except.ok.inj h).symm⟩

theorem secondsOf_ok {key : EnvironmentKey} {text : String} {d : Duration}
    (h : secondsOf key text = .ok d) :
    ∃ n, countOf (Text.trimChars text.toList) = some n ∧ 0 < n ∧ d = .ofSecs n := by
  unfold secondsOf at h
  split at h
  · cases h
  · cases h
  · rename_i n hzero hcount
    exact ⟨n, hcount, Nat.pos_of_ne_zero hzero, (Except.ok.inj h).symm⟩

theorem timeoutOf_ok {raw : Bytes} {timeout : Option Duration}
    (h : timeoutOf (some raw) = .ok timeout) :
    ∃ n, Counts raw n ∧ 0 < n ∧ timeout = some (.ofSecs n) := by
  obtain ⟨found, hfound, h⟩ := bind_eq_ok.mp h
  obtain ⟨text, htext, rfl⟩ := textOf_ok hfound
  dsimp only at h
  cases hd : secondsOf .timeoutSeconds text with
  | error e =>
    rw [hd] at h
    cases h
  | ok d =>
    obtain ⟨n, hcount, hpos, rfl⟩ := secondsOf_ok hd
    rw [hd] at h
    exact ⟨n, ⟨text, htext, hcount⟩, hpos, (Except.ok.inj h).symm⟩

theorem ofValues_timeout {value : EnvironmentKey → Option Bytes} {env : EnvironmentSettings}
    (h : ofValues value = .ok env) : timeoutOf (value .timeoutSeconds) = .ok env.timeout := by
  rw [ofValues_eq] at h
  obtain ⟨timeout, htimeout, h⟩ := bind_eq_ok.mp h
  obtain ⟨srcDir, -, h⟩ := bind_eq_ok.mp h
  obtain ⟨qtDir, -, h⟩ := bind_eq_ok.mp h
  obtain ⟨scopeRoot, -, h⟩ := bind_eq_ok.mp h
  obtain ⟨summaryDir, -, h⟩ := bind_eq_ok.mp h
  rw [htimeout, ← Except.ok.inj h]

end EnvironmentSettings

namespace FileSettings

theorem validate_counts {s : FileSettings} (h : s.validate = .ok ()) :
    ∀ c ∈ s.counts, c.2 ≠ some 0 := by
  unfold validate at h
  split at h
  · cases h
  · rename_i hnone
    intro c hc
    have hno := List.find?_eq_none.mp hnone c hc
    simpa using hno

theorem parse_validate {text : String} {s : FileSettings} (h : parse text = .ok s) :
    s.validate = .ok () := by
  unfold parse at h
  split at h
  · cases h
  · obtain ⟨settings, -, h⟩ := bind_eq_ok.mp h
    obtain ⟨_, hvalid, h⟩ := bind_eq_ok.mp h
    rw [← Except.ok.inj h]
    exact hvalid

theorem ofBytes_validate {content : Bytes} {s : FileSettings} (h : ofBytes content = .ok s) :
    s.validate = .ok () := by
  unfold ofBytes at h
  split at h
  · cases h
  · split at h
    · cases h
    · exact parse_validate h

end FileSettings

/-- Time to run, time to end and a pause between two looks. -/
structure Timing.Positive (t : Timing) : Prop where
  boundedTimeout : .zero < t.boundedTimeout
  stopGrace : .zero < t.stopGrace
  datadirWindow : .zero < t.datadirWindow
  pidWindow : .zero < t.pidWindow
  pollInterval : .zero < t.pollInterval

namespace Settings

theorem standard_positive : Timing.standard.Positive := by
  constructor <;> decide

theorem pos_millisOr {value : Option Nat} (hvalue : value ≠ some 0) {default : Duration}
    (hdefault : .zero < default) : .zero < millisOr value default := by
  cases value with
  | none => exact hdefault
  | some n => exact Duration.pos_ofMillis (Nat.pos_of_ne_zero fun h => hvalue (by rw [h]))

theorem le_withFloor (value : Duration) (floor : Option Duration) : value ≤ withFloor value floor := by
  cases floor with
  | none => exact Nat.le_refl _
  | some floor => exact Duration.le_max_left value floor

theorem resolveTiming_positive (env : EnvironmentSettings) {file : FileSettings}
    (h : file.validate = .ok ()) : (resolveTiming env file.timing).Positive := by
  have hcounts := FileSettings.validate_counts h
  simp only [FileSettings.counts, List.forall_mem_cons, List.not_mem_nil] at hcounts
  obtain ⟨hbounded, hgrace, hdatadir, hpid, hpoll, -⟩ := hcounts
  exact {
    boundedTimeout :=
      Duration.pos_of_le (pos_millisOr hbounded standard_positive.boundedTimeout)
        (le_withFloor _ env.timeout)
    stopGrace := pos_millisOr hgrace standard_positive.stopGrace
    datadirWindow := pos_millisOr hdatadir standard_positive.datadirWindow
    pidWindow := pos_millisOr hpid standard_positive.pidWindow
    pollInterval := pos_millisOr hpoll standard_positive.pollInterval }

def fileOf : Option Path → Dialogue (FileSettings.Fit FileSettings)
  | some path => FileSettings.load path
  | none => return .ok .empty

theorem load_eq (cli : Overrides) : load cli = (do
    match ← EnvironmentSettings.load with
    | .error e => return .error e
    | .ok env =>
      match ← fileOf cli.config with
      | .error e => return .error e
      | .ok file =>
        match ← ask .runnerPath with
        | .error e => return .error (.runnerUnknown e)
        | .ok runner =>
          match runner.parent with
          | none => return .error (.invalid "runner executable has no parent directory")
          | some dir => return .ok (resolve cli env file dir)) := by
  obtain ⟨config, srcDir, qtDir, summaryDir⟩ := cli
  cases config <;> rfl

theorem fileOf_validate {σ : Type} {host : Host σ} {s : σ} {config : Option Path}
    {file : FileSettings} (h : ((fileOf config).run host s).1 = .ok file) :
    file.validate = .ok () := by
  cases config with
  | none =>
    cases h
    rfl
  | some path =>
    rw [fileOf, FileSettings.load, run_bind] at h
    split at h
    · cases h
    · exact FileSettings.ofBytes_validate h

theorem load_ok {σ : Type} {host : Host σ} {s : σ} {cli : Overrides} {settings : Settings}
    (h : ((load cli).run host s).1 = .ok settings) :
    ∃ (value : EnvironmentKey → Option Bytes) (env : EnvironmentSettings) (file : FileSettings)
      (runnerDir : Path),
      EnvironmentSettings.answers value <+: (load cli).journal host s ∧
      EnvironmentSettings.ofValues value = .ok env ∧ file.validate = .ok () ∧
      settings = resolve cli env file runnerDir := by
  obtain ⟨value, hread⟩ := EnvironmentSettings.load_yields host s
  rw [load_eq, run_bind, hread.result] at h
  rw [load_eq, journal_bind, hread.journal]
  cases henv : EnvironmentSettings.ofValues value with
  | error e =>
    rw [henv] at h
    cases h
  | ok env =>
    rw [henv] at h
    dsimp only at h
    rw [run_bind] at h
    cases hfile : ((fileOf cli.config).run host (EnvironmentSettings.load.run host s).2).1 with
    | error e =>
      rw [hfile] at h
      cases h
    | ok file =>
      rw [hfile, run_bind] at h
      split at h
      · cases h
      split at h
      · cases h
      · exact ⟨value, env, file, _, List.prefix_append _ _, henv, fileOf_validate hfile,
          (Except.ok.inj h).symm⟩

end Settings

/-- A scenario that gives its subject time to run and, if it has to stop it, time to end. -/
def Scenario.Patient (s : Scenario) : Prop :=
  ∀ mode evaluate, s.action = .run mode evaluate →
    .zero < s.timeout ∧ ∀ grace, mode = .supervised grace → .zero < grace

namespace Scenario.Patient

variable {s : Scenario} {sectionName name : String} {binary : Binary} {args : List String}
  {timeout grace : Duration} {evaluate : Evaluator}

theorem locate : (Scenario.locate sectionName binary).Patient := fun _ _ h => nomatch h

theorem bounded (h : .zero < timeout) :
    (Scenario.bounded sectionName name binary args timeout evaluate).Patient := by
  intro mode evaluate haction
  cases haction
  exact ⟨h, fun _ hmode => nomatch hmode⟩

theorem supervised (hwindow : .zero < timeout) (hgrace : .zero < grace) :
    (Scenario.supervised sectionName name binary args timeout grace evaluate).Patient := by
  intro mode evaluate haction
  cases haction
  refine ⟨hwindow, fun g hmode => ?_⟩
  cases hmode
  exact hgrace

theorem withSetup (h : s.Patient) (step : SetupStep) : (s.withSetup step).Patient := h

theorem watching (h : s.Patient) (relative : Path) : (s.watching relative).Patient := h

end Scenario.Patient

namespace Catalog

open Scenario

theorem basicResponse_patient (b : Subjects) {t : Timing} (ht : t.Positive) :
    ∀ s ∈ basicResponse b t, s.Patient := by
  simp only [basicResponse, List.forall_mem_append, List.forall_mem_map]
  exact ⟨⟨fun _ _ => .locate, fun _ _ => .bounded ht.boundedTimeout⟩,
    fun _ _ => .bounded ht.boundedTimeout⟩

theorem argumentParsing_patient (b : Subjects) {t : Timing} (ht : t.Positive) :
    ∀ s ∈ argumentParsing b t, s.Patient := by
  simp only [argumentParsing, List.forall_mem_cons]
  have hbounded := ht.boundedTimeout
  exact ⟨.bounded hbounded, .bounded hbounded, .bounded hbounded, (Patient.bounded hbounded).withSetup _,
    by simp⟩

theorem dataDirectory_patient (b : Subjects) {t : Timing} (ht : t.Positive) :
    ∀ s ∈ dataDirectory b t, s.Patient := by
  have hprepared {s : Scenario} (h : s.Patient) (path : Path) :
      ((s.withSetup (.createDir dataDir)).watching path).Patient := (h.withSetup _).watching path
  simp only [dataDirectory, List.forall_mem_cons]
  exact ⟨hprepared (.supervised ht.datadirWindow ht.stopGrace) _,
    (hprepared (.supervised ht.datadirWindow ht.stopGrace) _).watching _,
    hprepared (.supervised ht.pidWindow ht.stopGrace) _, by simp⟩

theorem buildSelected_eq (selected : List SuiteKind) (settings : Settings) :
    buildSelected selected settings =
      .ok ((selectedKinds selected).map fun k => ⟨k.title, k.scenarios settings, .registered⟩) := by
  unfold buildSelected
  induction selectedKinds selected with
  | nil => rfl
  | cons k rest ih =>
    rw [List.mapM_cons, build_eq, ih]
    rfl

theorem buildSelected_patient {settings : Settings} (h : settings.timing.Positive)
    (selected : List SuiteKind) : ∃ suites, buildSelected selected settings = .ok suites ∧
      ∀ suite ∈ suites, ∀ s ∈ suite.scenarios, s.Patient := by
  refine ⟨_, buildSelected_eq selected settings, fun suite hsuite => ?_⟩
  obtain ⟨kind, -, rfl⟩ := List.mem_map.mp hsuite
  cases kind with
  | binaries => exact basicResponse_patient _ h
  | config => exact argumentParsing_patient _ h
  | datadir => exact dataDirectory_patient _ h

end Catalog

namespace Settings

/-- Settings that load have positive times only, and the bounded timeout is not below the seconds
that the environment asks for. -/
theorem load_positive {σ : Type} (host : Host σ) (s : σ) (cli : Overrides) {settings : Settings}
    (h : ((load cli).run host s).1 = .ok settings) :
    settings.timing.Positive ∧
    (∃ value, EnvironmentSettings.answers value <+: (load cli).journal host s ∧
      ∀ raw, value .timeoutSeconds = some raw → ∃ n, EnvironmentSettings.Counts raw n ∧ 0 < n ∧
        .ofSecs n ≤ settings.timing.boundedTimeout) ∧
    .zero < settings.bench.pollInterval ∧
    ∀ selected, ∃ suites, Catalog.buildSelected selected settings = .ok suites ∧
      ∀ suite ∈ suites, ∀ x ∈ suite.scenarios, x.Patient := by
  obtain ⟨value, env, file, runnerDir, hread, henv, hvalid, rfl⟩ := load_ok h
  have hpositive : (resolve cli env file runnerDir).timing.Positive :=
    resolveTiming_positive env hvalid
  refine ⟨hpositive, ⟨value, hread, fun raw hraw => ?_⟩, hpositive.pollInterval,
    Catalog.buildSelected_patient hpositive⟩
  have htimeout := EnvironmentSettings.ofValues_timeout henv
  rw [hraw] at htimeout
  obtain ⟨n, hcounts, hpos, hn⟩ := EnvironmentSettings.timeoutOf_ok htimeout
  refine ⟨n, hcounts, hpos, ?_⟩
  have hfloor : (resolve cli env file runnerDir).timing.boundedTimeout =
      withFloor (millisOr file.timing.boundedTimeoutMs Timing.standard.boundedTimeout)
        (some (.ofSecs n)) := by
    rw [← hn]
    rfl
  rw [hfloor]
  exact Duration.le_max_right _ _

end Settings

def Host.configured (content : String) : Host Unit where
  answer r s := match r with
    | .environment name =>
      (if name = EnvironmentKey.timeoutSeconds.name then some (Bytes.ofString " 30 ") else none, s)
    | .load _ => (.ok (Bytes.ofString content), s)
    | r => Host.still.answer r s

namespace Settings

def hasty : String := "[timing]\nbounded_timeout_ms = 2500\n"

def hastyOverrides : Overrides := ⟨some (.ofString "/bench.toml"), some (.ofString "/src"), none, none⟩

def hastySettings : Settings where
  srcDir := .ofString "/src"
  qtDir := .ofString "/src/qt"
  timing := { Timing.standard with boundedTimeout := .ofSecs 30 }
  scopeRoot := none
  scopePrefix := Bench.standardPrefix
  summaryDir := none

/-- A file that allows less than the environment asks for. -/
theorem load_positive_hasty :
    ((load hastyOverrides).run (.configured hasty) ()).1 = .ok hastySettings ∧
    hastySettings.timing.Positive ∧
    ∃ suites, Catalog.buildSelected [.datadir, .config] hastySettings = .ok suites ∧
      ∀ suite ∈ suites, ∀ x ∈ suite.scenarios, x.Patient := by
  have hload : ((load hastyOverrides).run (.configured hasty) ()).1 = .ok hastySettings := by
    decide +kernel
  obtain ⟨hpositive, -, -, hsuites⟩ := load_positive (.configured hasty) () hastyOverrides hload
  exact ⟨hload, hpositive, hsuites _⟩

end Settings

end SmokeBench
