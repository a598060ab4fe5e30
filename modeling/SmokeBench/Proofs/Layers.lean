import SmokeBench.Proofs.TimeBounds
import SmokeBench.Settings.Resolved

/-! Settings in layers. What a setting is taken from is said once for all of them, by the highest
layer that sets it; and that alone tells what a change in one layer can do. The bounded timeout is
taken like the others and then raised to the environment's. -/

namespace SmokeBench

namespace Settings

inductive Item
  | srcDir
  | qtDir
  | scopeRoot
  | scopePrefix
  | summaryDir
  | boundedTimeout
  | stopGrace
  | datadirWindow
  | pidWindow
  | pollInterval
  deriving DecidableEq, Repr

abbrev Item.Value : Item → Type
  | srcDir | qtDir | scopeRoot | summaryDir => Path
  | scopePrefix => String
  | boundedTimeout | stopGrace | datadirWindow | pidWindow | pollInterval => Duration

inductive Layer
  | commandLine
  | environment
  | file
  deriving DecidableEq, Repr

namespace Layer

def rank : Layer → Nat
  | commandLine => 2
  | environment => 1
  | file => 0

def Above (a b : Layer) : Prop := b.rank < a.rank

instance (a b : Layer) : Decidable (a.Above b) := Nat.decLt _ _

theorem above_trichotomy (a b : Layer) : a.Above b ∨ a = b ∨ b.Above a := by
  cases a <;> cases b <;> decide

end Layer

structure Sources where
  cli : Overrides
  env : EnvironmentSettings
  file : FileSettings

namespace Sources

variable {s s' : Sources}

/-- What a layer sets. The environment's floor for the bounded timeout is no value of it. -/
def value (s : Sources) : Layer → (i : Item) → Option i.Value
  | .commandLine, .srcDir => s.cli.srcDir
  | .commandLine, .qtDir => s.cli.qtDir
  | .commandLine, .summaryDir => s.cli.summaryDir
  | .environment, .srcDir => s.env.srcDir
  | .environment, .qtDir => s.env.qtDir
  | .environment, .scopeRoot => s.env.scopeRoot
  | .environment, .summaryDir => s.env.summaryDir
  | .file, .srcDir => s.file.binaries.srcDir
  | .file, .qtDir => s.file.binaries.qtDir
  | .file, .scopeRoot => s.file.scope.root
  | .file, .scopePrefix => s.file.scope.namePrefix
  | .file, .summaryDir => s.file.summary.dir
  | .file, .boundedTimeout => s.file.timing.boundedTimeoutMs.map .ofMillis
  | .file, .stopGrace => s.file.timing.stopGraceMs.map .ofMillis
  | .file, .datadirWindow => s.file.timing.datadirWindowMs.map .ofMillis
  | .file, .pidWindow => s.file.timing.pidWindowMs.map .ofMillis
  | .file, .pollInterval => s.file.timing.pollIntervalMs.map .ofMillis
  | _, _ => none

def resolve (s : Sources) (runnerDir : Path) : Settings :=
  Settings.resolve s.cli s.env s.file runnerDir

def Sets (s : Sources) (layer : Layer) (i : Item) : Prop := (s.value layer i).isSome

/-- Two sources that differ at most in what one layer sets for one item. -/
structure AgreesBut (s s' : Sources) (layer : Layer) (i : Item) : Prop where
  value : ∀ k j, ¬(k = layer ∧ j = i) → s'.value k j = s.value k j
  timeout : s'.env.timeout = s.env.timeout

/-- The value that an item is taken from: that of the highest layer that sets it, and otherwise a
fallback. -/
inductive Taken (s : Sources) (i : Item) (fallback : Option i.Value) : Option i.Value → Prop
  | set {layer : Layer} {v : i.Value} (hset : s.value layer i = some v)
      (hhighest : ∀ higher : Layer, higher.Above layer → s.value higher i = none) :
      Taken s i fallback (some v)
  | unset (hunset : ∀ layer, s.value layer i = none) : Taken s i fallback fallback

namespace Taken

variable {i : Item} {fallback other v w : Option i.Value}

theorem unique (hv : Taken s i fallback v) (hw : Taken s i fallback w) : v = w := by
  cases hv with
  | @set k v hk hkhighest =>
    cases hw with
    | @set l w hl hlhighest =>
      rcases k.above_trichotomy l with habove | rfl | habove
      · rw [hlhighest k habove] at hk
        cases hk
      · exact hk.symm.trans hl
      · rw [hkhighest l habove] at hl
        cases hl
    | unset hunset =>
      rw [hunset k] at hk
      cases hk
  | unset hunset =>
    cases hw with
    | @set l w hl hlhighest =>
      rw [hunset l] at hl
      cases hl
    | unset => rfl

theorem congr (h : ∀ k, s'.value k i = s.value k i) (hv : Taken s i fallback v) :
    Taken s' i fallback v := by
  cases hv with
  | set hset hhighest => exact .set ((h _).trans hset) fun k hk => (h k).trans (hhighest k hk)
  | unset hunset => exact .unset fun k => (h k).trans (hunset k)

theorem of_sets {layer : Layer} (hsets : s.Sets layer i) (hv : Taken s i fallback v) :
    Taken s i other v := by
  cases hv with
  | set hset hhighest => exact .set hset hhighest
  | unset hunset =>
    rw [Sets, hunset layer] at hsets
    cases hsets

theorem of_hidden {layer higher : Layer} (h : s.AgreesBut s' layer i) (habove : higher.Above layer)
    (hsets : s.Sets higher i) (hv : Taken s i fallback v) : Taken s' i fallback v := by
  have hother {k : Layer} (hk : k ≠ layer) : s'.value k i = s.value k i :=
    h.value k i fun hsame => hk hsame.1
  have hne {k : Layer} (hk : k.Above layer) : k ≠ layer := by
    rintro rfl
    exact Nat.lt_irrefl _ hk
  cases hv with
  | @set k v hset hhighest =>
    have hnotabove : ¬higher.Above k := fun hk => by
      rw [Sets, hhighest higher hk] at hsets
      cases hsets
    have hlayer : k.Above layer := Nat.lt_of_lt_of_le habove (Nat.le_of_not_lt hnotabove)
    refine .set ((hother (hne hlayer)).trans hset) fun l hl => ?_
    exact (hother (hne (Nat.lt_trans hlayer hl))).trans (hhighest l hl)
  | unset hunset =>
    rw [Sets, hunset higher] at hsets
    cases hsets

end Taken

theorem taken_first (s : Sources) (i : Item) (fallback : Option i.Value) :
    Taken s i fallback
      ((s.value .commandLine i <|> s.value .environment i <|> s.value .file i).or fallback) := by
  cases hcli : s.value .commandLine i with
  | some v =>
    refine .set hcli fun k hk => absurd hk ?_
    cases k <;> decide
  | none =>
    cases henv : s.value .environment i with
    | some v =>
      refine .set henv fun k hk => ?_
      cases k with
      | commandLine => exact hcli
      | environment => exact absurd hk (by decide)
      | file => exact absurd hk (by decide)
    | none =>
      cases hfile : s.value .file i with
      | some v =>
        refine .set hfile fun k hk => ?_
        cases k with
        | commandLine => exact hcli
        | environment => exact henv
        | file => exact absurd hk (by decide)
      | none =>
        refine .unset fun k => ?_
        cases k with
        | commandLine => exact hcli
        | environment => exact henv
        | file => exact hfile

end Sources

/-- What resolved settings hold of an item; two of the directories may be left open. -/
def value (r : Settings) : (i : Item) → Option i.Value
  | .srcDir => r.srcDir
  | .qtDir => r.qtDir
  | .scopeRoot => r.scopeRoot
  | .scopePrefix => r.scopePrefix
  | .summaryDir => r.summaryDir
  | .boundedTimeout => r.timing.boundedTimeout
  | .stopGrace => r.timing.stopGrace
  | .datadirWindow => r.timing.datadirWindow
  | .pidWindow => r.timing.pidWindow
  | .pollInterval => r.timing.pollInterval

/-- What holds where no layer sets an item. The directory of the graphical wallet goes by the source
directory that was resolved. -/
def fallback (runnerDir srcDir : Path) : (i : Item) → Option i.Value
  | .srcDir => some (defaultSrcDir runnerDir)
  | .qtDir => some (srcDir.join (.ofString "qt"))
  | .scopeRoot => none
  | .scopePrefix => some Bench.standardPrefix
  | .summaryDir => none
  | .boundedTimeout => some Timing.standard.boundedTimeout
  | .stopGrace => some Timing.standard.stopGrace
  | .datadirWindow => some Timing.standard.datadirWindow
  | .pidWindow => some Timing.standard.pidWindow
  | .pollInterval => some Timing.standard.pollInterval

theorem ext_value {r r' : Settings} (h : ∀ i, r.value i = r'.value i) : r = r' := by
  obtain ⟨srcDir, qtDir, ⟨bounded, grace, datadir, pid, poll⟩, root, name, summary⟩ := r
  obtain ⟨srcDir', qtDir', ⟨bounded', grace', datadir', pid', poll'⟩, root', name', summary'⟩ := r'
  obtain rfl := Option.some.inj (h .srcDir)
  obtain rfl := Option.some.inj (h .qtDir)
  obtain rfl := Option.some.inj (h .boundedTimeout)
  obtain rfl := Option.some.inj (h .stopGrace)
  obtain rfl := Option.some.inj (h .datadirWindow)
  obtain rfl := Option.some.inj (h .pidWindow)
  obtain rfl := Option.some.inj (h .pollInterval)
  obtain rfl : root = root' := h .scopeRoot
  obtain rfl := Option.some.inj (h .scopePrefix)
  obtain rfl : summary = summary' := h .summaryDir
  rfl

theorem millisOr_eq (count : Option Nat) (d : Duration) :
    (some (millisOr count d) : Option Duration) = (count.map .ofMillis).or (some d) := by
  cases count <;> rfl

namespace Sources

variable {s s' : Sources} {runnerDir : Path}

/-- The bounded timeout before it is raised to the floor of the environment. -/
def unraised (s : Sources) : Duration :=
  millisOr s.file.timing.boundedTimeoutMs Timing.standard.boundedTimeout

theorem resolve_boundedTimeout (s : Sources) (runnerDir : Path) :
    (s.resolve runnerDir).timing.boundedTimeout = withFloor s.unraised s.env.timeout := rfl

theorem unraised_taken (s : Sources) (runnerDir : Path) :
    Taken s .boundedTimeout (fallback runnerDir (s.resolve runnerDir).srcDir .boundedTimeout)
      (some s.unraised) := by
  rw [unraised, millisOr_eq]
  exact s.taken_first .boundedTimeout _

theorem resolve_taken (s : Sources) (runnerDir : Path) {i : Item} (h : i ≠ .boundedTimeout) :
    Taken s i (fallback runnerDir (s.resolve runnerDir).srcDir i)
      ((s.resolve runnerDir).value i) := by
  have hfirst {v : Option i.Value}
      (hv : (s.value .commandLine i <|> s.value .environment i <|> s.value .file i).or
        (fallback runnerDir (s.resolve runnerDir).srcDir i) = v) :
      Taken s i (fallback runnerDir (s.resolve runnerDir).srcDir i) v := hv ▸ s.taken_first i _
  apply hfirst
  cases i with
  | boundedTimeout => exact absurd rfl h
  | srcDir | qtDir | scopePrefix => exact Option.or_some
  | scopeRoot | summaryDir => exact Option.or_none
  | stopGrace | datadirWindow | pidWindow | pollInterval => exact (millisOr_eq _ _).symm

variable {j : Item}

theorem fallback_congr {srcDir srcDir' : Path} (h : j = .qtDir → srcDir' = srcDir) :
    fallback runnerDir srcDir' j = fallback runnerDir srcDir j := by
  cases j with
  | qtDir => rw [h rfl]
  | _ => rfl

theorem value_eq_of_taken
    (htaken : ∀ v, Taken s j (fallback runnerDir (s.resolve runnerDir).srcDir j) v →
      Taken s' j (fallback runnerDir (s'.resolve runnerDir).srcDir j) v)
    (htimeout : j = .boundedTimeout → s'.env.timeout = s.env.timeout) :
    (s'.resolve runnerDir).value j = (s.resolve runnerDir).value j := by
  by_cases hj : j = .boundedTimeout
  · subst hj
    have hunraised := (s'.unraised_taken runnerDir).unique (htaken _ (s.unraised_taken runnerDir))
    change some (withFloor s'.unraised s'.env.timeout) = some (withFloor s.unraised s.env.timeout)
    rw [Option.some.inj hunraised, htimeout rfl]
  · exact (s'.resolve_taken runnerDir hj).unique (htaken _ (s.resolve_taken runnerDir hj))

theorem value_eq_of_agree (h : ∀ k, s'.value k j = s.value k j)
    (hsrcDir : j = .qtDir → (s'.resolve runnerDir).srcDir = (s.resolve runnerDir).srcDir)
    (htimeout : j = .boundedTimeout → s'.env.timeout = s.env.timeout) :
    (s'.resolve runnerDir).value j = (s.resolve runnerDir).value j :=
  value_eq_of_taken (fun _ hv => fallback_congr hsrcDir ▸ hv.congr h) htimeout

theorem srcDir_eq_of_agree (h : ∀ k, s'.value k .srcDir = s.value k .srcDir) :
    (s'.resolve runnerDir).srcDir = (s.resolve runnerDir).srcDir :=
  Option.some.inj (value_eq_of_agree (j := .srcDir) h nofun nofun)

namespace AgreesBut

variable {layer : Layer} {i : Item}

/-- A change in one layer leaves the other items as they were; only a source directory moves the
directory of the graphical wallet, where no layer sets this one. -/
theorem value_eq (h : s.AgreesBut s' layer i) (hj : j ≠ i)
    (hqtDir : i = .srcDir → j = .qtDir → ∃ k, s.Sets k .qtDir) :
    (s'.resolve runnerDir).value j = (s.resolve runnerDir).value j := by
  have hsame (k : Layer) : s'.value k j = s.value k j := h.value k j fun hk => hj hk.2
  by_cases hmoved : i = .srcDir ∧ j = .qtDir
  · obtain ⟨rfl, rfl⟩ := hmoved
    obtain ⟨k, hk⟩ := hqtDir rfl rfl
    have hk' : s'.Sets k .qtDir := by rwa [Sets, hsame k]
    exact value_eq_of_taken (fun _ hv => (hv.congr hsame).of_sets hk') fun _ => h.timeout
  · refine value_eq_of_agree hsame (fun hwallet => srcDir_eq_of_agree fun k => ?_) fun _ => h.timeout
    exact h.value k .srcDir fun hk => hmoved ⟨hk.2.symm, hwallet⟩

/-- A change of what a higher layer hides changes nothing. -/
theorem resolve_eq (h : s.AgreesBut s' layer i) {higher : Layer} (habove : higher.Above layer)
    (hsets : s.Sets higher i) : s'.resolve runnerDir = s.resolve runnerDir := by
  have htaken (j : Item) (fallback v : Option j.Value) (hv : Taken s j fallback v) :
      Taken s' j fallback v := by
    by_cases hj : j = i
    · subst hj
      exact hv.of_hidden h habove hsets
    · exact hv.congr fun k => h.value k j fun hk => hj hk.2
  have hsrcDir : (s'.resolve runnerDir).srcDir = (s.resolve runnerDir).srcDir :=
    Option.some.inj (value_eq_of_taken (j := .srcDir) (fun v hv => htaken .srcDir _ v hv) nofun)
  exact ext_value fun j => value_eq_of_taken
    (fun v hv => fallback_congr (fun _ => hsrcDir) ▸ htaken j _ v hv) fun _ => h.timeout

end AgreesBut

end Sources

theorem withFloor_above (v : Duration) (floor : Option Duration) :
    v ≤ withFloor v floor ∧ ∀ d ∈ floor, d ≤ withFloor v floor := by
  cases floor with
  | none => exact ⟨Nat.le_refl _, nofun⟩
  | some d =>
    refine ⟨v.le_max_left d, fun d' hd => ?_⟩
    obtain rfl := Option.some.inj hd
    exact v.le_max_right d

theorem withFloor_eq (v : Duration) (floor : Option Duration) :
    withFloor v floor = v ∨ withFloor v floor ∈ floor := by
  cases floor with
  | none => exact .inl rfl
  | some d =>
    by_cases h : v ≤ d
    · exact .inr (congrArg some (if_pos h).symm)
    · exact .inl (if_neg h)

namespace Sources

/-- Every item but the bounded timeout is taken from the highest layer that sets it, and that
timeout is the greater of what is taken for it and the floor of the environment. So what a higher
layer hides does not count, a change in one layer leaves the other items alone, but for a wallet
directory that no layer sets, and a higher floor of the environment moves the bounded timeout and
nothing else, and not down. -/
theorem resolve_layered (s : Sources) (runnerDir : Path) :
    (∀ i, i ≠ .boundedTimeout →
      Taken s i (fallback runnerDir (s.resolve runnerDir).srcDir i)
        ((s.resolve runnerDir).value i)) ∧
    (∃ v, Taken s .boundedTimeout (some Timing.standard.boundedTimeout) (some v) ∧
      let bounded := (s.resolve runnerDir).timing.boundedTimeout
      (bounded = v ∨ bounded ∈ s.env.timeout) ∧ v ≤ bounded ∧
        ∀ floor ∈ s.env.timeout, floor ≤ bounded) ∧
    (∀ s' layer i, s.AgreesBut s' layer i →
      (∀ j, j ≠ i → (i = .srcDir → j = .qtDir → ∃ k, s.Sets k .qtDir) →
        (s'.resolve runnerDir).value j = (s.resolve runnerDir).value j) ∧
      ∀ higher : Layer, higher.Above layer → s.Sets higher i →
        s'.resolve runnerDir = s.resolve runnerDir) ∧
    ∀ s' : Sources, (∀ k i, s'.value k i = s.value k i) →
      (∀ j, j ≠ .boundedTimeout →
        (s'.resolve runnerDir).value j = (s.resolve runnerDir).value j) ∧
      ((∀ floor ∈ s.env.timeout, ∃ raised ∈ s'.env.timeout, floor ≤ raised) →
        (s.resolve runnerDir).timing.boundedTimeout ≤
          (s'.resolve runnerDir).timing.boundedTimeout) := by
  refine ⟨fun i hi => s.resolve_taken runnerDir hi, ⟨s.unraised, s.unraised_taken runnerDir,
    withFloor_eq _ _, withFloor_above _ _⟩, fun s' layer i h => ⟨fun j hj => h.value_eq hj,
    fun higher => h.resolve_eq⟩, fun s' h => ⟨fun j hj => ?_, fun hraised => ?_⟩⟩
  · exact value_eq_of_agree (fun k => h k j) (fun _ => srcDir_eq_of_agree fun k => h k .srcDir)
      fun hbounded => absurd hbounded hj
  · have hunraised : s'.unraised = s.unraised := Option.some.inj <|
      (s'.unraised_taken runnerDir).unique ((s.unraised_taken runnerDir).congr fun k => h k _)
    obtain ⟨hself, hfloor⟩ := withFloor_above s'.unraised s'.env.timeout
    rw [resolve_boundedTimeout, resolve_boundedTimeout]
    rcases withFloor_eq s.unraised s.env.timeout with heq | hmem
    · rw [heq, ← hunraised]
      exact hself
    · obtain ⟨raised, hmem', hle⟩ := hraised _ hmem
      exact Nat.le_trans hle (hfloor raised hmem')

/-- A source directory for each layer, and a file that asks for less time than the environment. -/
def stacked : Sources where
  cli := ⟨none, some (.ofString "/cli"), none, none⟩
  env := ⟨some (.ofString "/env"), none, some (.ofSecs 30), none, none⟩
  file := { FileSettings.empty with timing := ⟨some 2000, some 750, none, none, none⟩ }

def stackedHidden : Sources := { stacked with env := { stacked.env with srcDir := none } }

def stackedHasty : Sources :=
  { stacked with
    file := { stacked.file with timing := { stacked.file.timing with stopGraceMs := some 9 } } }

def stackedPatient : Sources :=
  { stacked with env := { stacked.env with timeout := some (.ofSecs 60) } }

theorem stacked_hidden : stacked.AgreesBut stackedHidden .environment .srcDir where
  value k j h := by cases k <;> cases j <;> first | rfl | exact absurd ⟨rfl, rfl⟩ h
  timeout := rfl

theorem stacked_hasty : stacked.AgreesBut stackedHasty .file .stopGrace where
  value k j h := by cases k <;> cases j <;> first | rfl | exact absurd ⟨rfl, rfl⟩ h
  timeout := rfl

/-- The command line hides the source directory of the environment, a grace in the file moves no
other item, and a higher floor of the environment does not lower the timeout. -/
theorem resolve_layered_stacked :
    Layer.commandLine.Above .environment ∧ stacked.Sets .commandLine .srcDir ∧
      stackedHidden.resolve (.ofString "/x") = stacked.resolve (.ofString "/x") ∧
      (stackedHasty.resolve (.ofString "/x")).value .qtDir = some (.ofString "/cli/qt") ∧
      (stacked.resolve (.ofString "/x")).timing.boundedTimeout ≤
        (stackedPatient.resolve (.ofString "/x")).timing.boundedTimeout := by
  obtain ⟨-, -, hchange, hfloor⟩ := resolve_layered stacked (.ofString "/x")
  have hset : stacked.Sets .commandLine .srcDir := rfl
  have hhasty := (hchange _ _ _ stacked_hasty).1 .qtDir (by decide) (fun h => nomatch h)
  have hwallet : (stacked.resolve (.ofString "/x")).value .qtDir = some (.ofString "/cli/qt") := by
    decide
  refine ⟨by decide, hset, (hchange _ _ _ stacked_hidden).2 .commandLine (by decide) hset,
    hhasty.trans hwallet, (hfloor stackedPatient fun k i => ?_).2 fun floor h => ?_⟩
  · cases k <;> cases i <;> rfl
  · obtain rfl := Option.some.inj h
    exact ⟨.ofSecs 60, rfl, by decide⟩

end Sources

end Settings

end SmokeBench
