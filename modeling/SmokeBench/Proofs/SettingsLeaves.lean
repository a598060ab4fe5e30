import SmokeBench.Proofs.SectionFields

/-! What becomes of the values of a settings document. Every setting of a file that is taken has exactly
one value of the document behind it; a value that is behind none stands in a section that is an
array, beyond the last key. -/

namespace SmokeBench

open FileSettings

def BinariesSection.table (s : BinariesSection) : Table :=
  [("src_dir", s.srcDir.map .path), ("qt_dir", s.qtDir.map .path)]

def TimingSection.table (s : TimingSection) : Table :=
  [("bounded_timeout_ms", s.boundedTimeoutMs.map .count),
    ("stop_grace_ms", s.stopGraceMs.map .count),
    ("datadir_window_ms", s.datadirWindowMs.map .count),
    ("pid_window_ms", s.pidWindowMs.map .count),
    ("poll_interval_ms", s.pollIntervalMs.map .count)]

def ScopeSection.table (s : ScopeSection) : Table :=
  [("root", s.root.map .path), ("prefix", s.namePrefix.map .text)]

def SummarySection.table (s : SummarySection) : Table := [("dir", s.dir.map .path)]

namespace FileSettings

open Toml (Value Entries Step Leaf)

def tables (s : FileSettings) : List (String × Table) :=
  [("binaries", s.binaries.table), ("timing", s.timing.table), ("scope", s.scope.table),
    ("summary", s.summary.table)]

def tableOf (s : FileSettings) (sectionName : String) : Table :=
  (s.tables.lookup sectionName).getD []

/-- A setting, told by its section and its key, if it is set. -/
def settingOf (s : FileSettings) (sectionName key : String) : Option Setting :=
  (s.tableOf sectionName).get key

theorem Sound.of_fitted {β : Type} {get : α → String → Option Setting} {name : String}
    {fit : Value → Fit β} {make : β → Setting} {update : α → β → α}
    (hfit : ∀ v b, fit v = .ok b → (make b).Says v)
    (hget : ∀ s b, get (update s b) name = some (make b))
    (hkeep : ∀ s b other, other ≠ name → get (update s b) other = get s other) :
    Sound get Takes ⟨name, fun s v => return update s (← fit v)⟩ := by
  refine .of_fit ?_ hkeep
  intro s v b hb
  exact ⟨make b, hget s b, hfit v b hb⟩

theorem binaries_fields : Fields binariesFields (·.table.get) Takes where
  names := by decide
  sound := by
    simp only [binariesFields, List.forall_mem_cons]
    refine ⟨.of_fitted (fun _ _ => fitPath_says) (fun _ _ => rfl) ?_,
      .of_fitted (fun _ _ => fitPath_says) (fun _ _ => rfl) ?_, by simp⟩
    all_goals
      intro s p other hother
      simp [BinariesSection.table, Table.get, lookup_cons_ite, hother]

theorem timing_fields : Fields timingFields (·.table.get) Takes where
  names := by decide
  sound := by
    simp only [timingFields, List.forall_mem_cons]
    refine ⟨.of_fitted (fun _ _ => fitCount_says) (fun _ _ => rfl) ?_,
      .of_fitted (fun _ _ => fitCount_says) (fun _ _ => rfl) ?_,
      .of_fitted (fun _ _ => fitCount_says) (fun _ _ => rfl) ?_,
      .of_fitted (fun _ _ => fitCount_says) (fun _ _ => rfl) ?_,
      .of_fitted (fun _ _ => fitCount_says) (fun _ _ => rfl) ?_, by simp⟩
    all_goals
      intro s n other hother
      simp [TimingSection.table, Table.get, lookup_cons_ite, hother]

theorem scope_fields : Fields scopeFields (·.table.get) Takes where
  names := by decide
  sound := by
    simp only [scopeFields, List.forall_mem_cons]
    refine ⟨.of_fitted (fun _ _ => fitPath_says) (fun _ _ => rfl) ?_,
      .of_fitted (fun _ _ => fitText_says) (fun _ _ => rfl) ?_, by simp⟩
    all_goals
      intro s x other hother
      simp [ScopeSection.table, Table.get, lookup_cons_ite, hother]

theorem summary_fields : Fields summaryFields (·.table.get) Takes where
  names := by decide
  sound := by
    simp only [summaryFields, List.forall_mem_cons]
    refine ⟨.of_fitted (fun _ _ => fitPath_says) (fun _ _ => rfl) ?_, by simp⟩
    intro s p other hother
    simp [SummarySection.table, Table.get, lookup_cons_ite, hother]

def sectionKeys : List (String × List String) :=
  [("binaries", namesOf binariesFields), ("timing", namesOf timingFields),
    ("scope", namesOf scopeFields), ("summary", namesOf summaryFields)]

def keysOf (sectionName : String) : List String := (sectionKeys.lookup sectionName).getD []

theorem keysOf_nodup {sectionName : String} (h : sectionName ∈ namesOf sections) :
    (keysOf sectionName).Nodup := by
  revert sectionName
  decide

/-- A section holds what its value holds. -/
def Decides (sectionName : String) (v : Value) (get : String → Option Setting) : Prop :=
  v.Distinct → Holds (keysOf sectionName) v get

theorem empty_unset (sectionName key : String) : (empty.tableOf sectionName).get key = none := by
  refine Table.get_unset ?_ key
  simp only [tableOf, tables, lookup_cons_ite, List.lookup_nil]
  split_ifs
  all_goals simp [empty, BinariesSection.table, TimingSection.table, ScopeSection.table,
    SummarySection.table]

theorem sections_fields : Fields sections (fun s name => (s.tableOf name).get) Decides where
  names := by decide
  sound := by
    simp only [sections, List.forall_mem_cons]
    refine ⟨.of_fit ?_ ?_, .of_fit ?_ ?_, .of_fit ?_ ?_, .of_fit ?_ ?_, by simp⟩
    · intro s v b hb hv
      exact binaries_fields.holds (Table.get_unset (by simp [BinariesSection.table])) hv hb
    · intro s b other hother
      simp [tableOf, tables, lookup_cons_ite, hother]
    · intro s v b hb hv
      exact timing_fields.holds (Table.get_unset (by simp [TimingSection.table])) hv hb
    · intro s b other hother
      simp [tableOf, tables, lookup_cons_ite, hother]
    · intro s v b hb hv
      exact scope_fields.holds (Table.get_unset (by simp [ScopeSection.table])) hv hb
    · intro s b other hother
      simp [tableOf, tables, lookup_cons_ite, hother]
    · intro s v b hb hv
      exact summary_fields.holds (Table.get_unset (by simp [SummarySection.table])) hv hb
    · intro s b other hother
      simp [tableOf, tables, lookup_cons_ite, hother]

/-- The setting, by section and key, that a value at this place is meant for. -/
def settingAt : List Step → Option (String × String)
  | [a, b] => do
    let sectionName ← a.stands (namesOf sections)
    let key ← b.stands (keysOf sectionName)
    return (sectionName, key)
  | _ => none

/-- A place in a section that is an array, beyond the last key. -/
def Spare : List Step → Prop
  | .key sectionName :: .item i :: _ =>
    sectionName ∈ namesOf sections ∧ (keysOf sectionName).length ≤ i
  | _ => False

theorem settingAt_eq_some {place : List Step} {sectionName key : String}
    (h : settingAt place = some (sectionName, key)) :
    ∃ a b, place = [a, b] ∧ a.stands (namesOf sections) = some sectionName ∧
      b.stands (keysOf sectionName) = some key := by
  match place with
  | [a, b] =>
    obtain ⟨name, hname, h⟩ := Option.bind_eq_some_iff.mp h
    obtain ⟨found, hfound, h⟩ := Option.bind_eq_some_iff.mp h
    cases h
    exact ⟨a, b, rfl, hname, hfound⟩
  | [] => cases h
  | [_] => cases h
  | _ :: _ :: _ :: _ => cases h

theorem settingAt_of_spare {place : List Step} (h : Spare place) : settingAt place = none := by
  match place, h with
  | [.key sectionName, .item i], ⟨hknown, hle⟩ =>
    simp [settingAt, Step.stands, hknown, List.getElem?_eq_none hle]
  | .key _ :: .item _ :: _ :: _, _ => rfl

/-- What a document and the settings read from it have to do with each other. -/
structure Fits (tree : Value) (s : FileSettings) : Prop where
  distinct : tree.Distinct
  inside : ¬ tree.Plain
  known : ∀ m ∈ tree.members, ∃ sectionName ∈ namesOf sections, m.1 = .key sectionName
  holds : ∀ e ∈ tree.assigned (namesOf sections),
    Holds (keysOf e.1) e.2 (s.tableOf e.1).get
  sourced : ∀ sectionName key x, s.settingOf sectionName key = some x →
    ∃ v, (sectionName, v) ∈ tree.assigned (namesOf sections)

theorem ofToml_fits {entries : Entries} {s : FileSettings} (hv : (Value.table entries).Distinct)
    (h : ofToml (.table entries) = .ok s) : Fits (.table entries) s := by
  obtain ⟨pairs, hfilled⟩ := fill_ok h
  have hnodup : ((given pairs).map Prod.fst).Nodup :=
    (hfilled.perm.map Prod.fst).nodup_iff.mpr (Toml.assigned_keys_nodup sections_fields.names hv)
  have hsets := sections_fields.setAll_sets hfilled.known hnodup hfilled.done
  refine ⟨hv, id, ?_, ?_, ?_⟩
  · intro m hm
    obtain ⟨e, he, rfl⟩ := List.mem_map.mp hm
    by_contra hnot
    have hstands : (Step.key e.1).stands (namesOf sections) = none :=
      if_neg fun hknown => hnot ⟨e.1, hknown, rfl⟩
    obtain ⟨i, hi, -⟩ := hfilled.spare _ hm hstands
    cases hi
  · intro e he
    obtain ⟨m, hm, -, hvalue⟩ := Toml.mem_assigned.mp he
    have hdistinct : e.2.Distinct := by
      rw [← hvalue]
      exact hv.of_member hm
    exact hsets e (hfilled.perm.mem_iff.mpr he) hdistinct
  · intro sectionName key x hx
    have hset : sectionName ∈ (given pairs).map Prod.fst := by
      by_contra hnot
      have hget := sections_fields.setAll_keeps hfilled.known hfilled.done hnot
      rw [settingOf, hget, empty_unset] at hx
      cases hx
    obtain ⟨e, he, rfl⟩ := List.mem_map.mp hset
    exact ⟨e.2, hfilled.perm.mem_iff.mp he⟩

namespace Fits

variable {tree : Value} {s : FileSettings}

/-- A leaf is in a section, and there it is a setting of the section or spare. -/
theorem leaf_cases (h : Fits tree s) {l : Leaf} (hl : l ∈ tree.leaves) :
    (∃ sectionName key x, settingAt l.place = some (sectionName, key) ∧
      s.settingOf sectionName key = some x ∧ x.Says l.value) ∨ Spare l.place := by
  obtain ⟨m, hm, l', hl', rfl⟩ := (Value.mem_leaves h.inside).mp hl
  obtain ⟨sectionName, hknown, hstep⟩ := h.known m hm
  have hstands : m.1.stands (namesOf sections) = some sectionName := by
    rw [hstep]
    exact if_pos hknown
  have hholds := h.holds (sectionName, m.2) (Toml.mem_assigned.mpr ⟨m, hm, hstands, rfl⟩)
  obtain ⟨n, hn, l'', hl'', rfl⟩ := (Value.mem_leaves hholds.inside).mp hl'
  cases hkey : n.1.stands (keysOf sectionName) with
  | none =>
    right
    obtain ⟨i, hi, hle⟩ := hholds.spare n hn hkey
    change Spare (m.1 :: n.1 :: l''.place)
    rw [hstep, hi]
    exact ⟨hknown, hle⟩
  | some key =>
    left
    obtain ⟨x, hx, hsays⟩ := hholds.taken (key, n.2) (Toml.mem_assigned.mpr ⟨n, hn, hkey, rfl⟩)
    rw [Value.leaves_of_plain hsays.plain, List.mem_singleton] at hl''
    subst hl''
    refine ⟨sectionName, key, x, ?_, hx, hsays⟩
    change settingAt [m.1, n.1] = _
    simp [settingAt, hstands, hkey]

theorem leaf_behind (h : Fits tree s) {sectionName key : String} {x : Setting}
    (hx : s.settingOf sectionName key = some x) :
    ∃ l ∈ tree.leaves, settingAt l.place = some (sectionName, key) ∧ x.Says l.value := by
  obtain ⟨v, hv⟩ := h.sourced sectionName key x hx
  obtain ⟨m, hm, hstands, rfl⟩ := Toml.mem_assigned.mp hv
  have hholds := h.holds _ hv
  obtain ⟨w, hw, hsays⟩ := hholds.sourced key x hx
  obtain ⟨n, hn, hkey, rfl⟩ := Toml.mem_assigned.mp hw
  have hinner : (⟨[], n.2⟩ : Leaf) ∈ n.2.leaves := by
    rw [Value.leaves_of_plain hsays.plain]
    exact List.mem_singleton_self _
  have hmiddle := (Value.mem_leaves hholds.inside).mpr ⟨n, hn, _, hinner, rfl⟩
  refine ⟨_, (Value.mem_leaves h.inside).mpr ⟨m, hm, _, hmiddle, rfl⟩, ?_, hsays⟩
  change settingAt [m.1, n.1] = _
  simp only at hstands hkey
  simp [settingAt, hstands, hkey]

theorem nodup_below {sectionName : String} (hnames : (keysOf sectionName).Nodup) {first : Step}
    {v : Value} {get : String → Option Setting} (hv : v.Distinct)
    (hholds : Holds (keysOf sectionName) v get)
    (hfirst : first.stands (namesOf sections) = some sectionName) :
    (v.leaves.filterMap fun l => settingAt (first :: l.place)).Nodup := by
  have hstands {m : Step × Value} {p : List Step} {b : String × String}
      (hb : settingAt (first :: m.1 :: p) = some b) :
      m.1.stands (keysOf sectionName) = some b.2 := by
    obtain ⟨_, _, hplace, hname, hkey⟩ := settingAt_eq_some hb
    cases hplace
    rw [hfirst] at hname
    cases hname
    exact hkey
  refine Toml.nodup_leaves (f := fun p => settingAt (first :: p)) hv hholds.inside ?_ ?_
  · intro m hm
    cases hkey : m.1.stands (keysOf sectionName) with
    | none =>
      have hnone (l : Leaf) (_ : l ∈ m.2.leaves) : settingAt (first :: m.1 :: l.place) = none := by
        rw [Option.eq_none_iff_forall_ne_some]
        intro b hb
        cases hkey.symm.trans (hstands hb)
      rw [List.filterMap_eq_nil_iff.mpr hnone]
      exact List.nodup_nil
    | some key =>
      obtain ⟨x, -, hsays⟩ := hholds.taken (key, m.2) (Toml.mem_assigned.mpr ⟨m, hm, hkey, rfl⟩)
      rw [Value.leaves_of_plain hsays.plain, List.filterMap_cons]
      split
      · exact List.nodup_nil
      · exact List.nodup_singleton _
  · intro m hm n hn p q b hp hq
    exact Toml.step_eq_of_stands hnames hm hn (hstands hp) (hstands hq)

/-- No two leaves are meant for one setting. -/
theorem nodup (h : Fits tree s) : (tree.leaves.filterMap fun l => settingAt l.place).Nodup := by
  refine Toml.nodup_leaves h.distinct h.inside ?_ ?_
  · intro m hm
    obtain ⟨sectionName, hknown, hstep⟩ := h.known m hm
    have hstands : m.1.stands (namesOf sections) = some sectionName := by
      rw [hstep]
      exact if_pos hknown
    exact nodup_below (keysOf_nodup hknown) (h.distinct.of_member hm)
      (h.holds (sectionName, m.2) (Toml.mem_assigned.mpr ⟨m, hm, hstands, rfl⟩)) hstands
  · intro m hm n hn p q b hp hq
    obtain ⟨_, _, hplace, hname, -⟩ := settingAt_eq_some hp
    obtain ⟨_, _, hplace', hname', -⟩ := settingAt_eq_some hq
    cases hplace
    cases hplace'
    exact Toml.step_eq_of_stands sections_fields.names hm hn hname hname'

end Fits

def Used (s : FileSettings) (l : Leaf) : Prop :=
  ∃ sectionName key x, settingAt l.place = some (sectionName, key) ∧
    s.settingOf sectionName key = some x ∧ x.Says l.value

def leavesFor (tree : Value) (sectionName key : String) : List Leaf :=
  tree.leaves.filter (settingAt ·.place = some (sectionName, key))

/-- A document and the settings read from it say the same, leaf by leaf. -/
structure Accounts (tree : Value) (s : FileSettings) : Prop where
  used : ∀ l ∈ tree.leaves, s.Used l
  sourced : ∀ sectionName key x, s.settingOf sectionName key = some x →
    ∃ l, leavesFor tree sectionName key = [l] ∧ x.Says l.value

theorem Fits.sourced_once {tree : Value} {s : FileSettings} (h : Fits tree s)
    {sectionName key : String} {x : Setting} (hx : s.settingOf sectionName key = some x) :
    ∃ l, leavesFor tree sectionName key = [l] ∧ x.Says l.value := by
  obtain ⟨l, hl, hplace, hsays⟩ := h.leaf_behind hx
  exact ⟨l, Toml.filter_eq_singleton h.nodup hl hplace, hsays⟩

theorem not_used_of_spare {s : FileSettings} {l : Leaf} (h : Spare l.place) : ¬ s.Used l := by
  rintro ⟨sectionName, key, x, hplace, -⟩
  rw [settingAt_of_spare h] at hplace
  cases hplace

theorem Fits.accounts_iff {tree : Value} {s : FileSettings} (h : Fits tree s) :
    Accounts tree s ↔ ∀ l ∈ tree.leaves, ¬ Spare l.place := by
  constructor
  · intro haccounts l hl hspare
    exact not_used_of_spare hspare (haccounts.used l hl)
  · intro hspare
    refine ⟨?_, fun _ _ _ hx => h.sourced_once hx⟩
    intro l hl
    exact (h.leaf_cases hl).resolve_right (hspare l hl)

theorem parse_fits {text : String} {s : FileSettings} (h : parse text = .ok s) :
    ∃ tree, Toml.parse text = some tree ∧ Fits tree s := by
  unfold parse at h
  cases hread : Toml.parse text with
  | none =>
    rw [hread] at h
    cases h
  | some tree =>
    rw [hread] at h
    obtain ⟨t, ht, h⟩ := bind_eq_ok.mp h
    obtain ⟨-, -, h⟩ := bind_eq_ok.mp h
    cases h
    obtain ⟨hdistinct, entries, rfl⟩ := Toml.parse_distinct hread
    exact ⟨_, rfl, ofToml_fits hdistinct ht⟩

/-- Of a file that is taken, every value is a setting, except what stands in a section that is an
array beyond its last key; and every setting has exactly one value behind it. -/
theorem parse_accounts {text : String} {s : FileSettings} (h : parse text = .ok s) :
    ∃ tree, Toml.parse text = some tree ∧
      (Accounts tree s ↔ ∀ l ∈ tree.leaves, ¬ Spare l.place) ∧
      (∀ l ∈ tree.leaves, s.Used l ∨ Spare l.place) ∧
      ∀ sectionName key x, s.settingOf sectionName key = some x →
        ∃ l, leavesFor tree sectionName key = [l] ∧ x.Says l.value := by
  obtain ⟨tree, hread, hfits⟩ := parse_fits h
  exact ⟨tree, hread, hfits.accounts_iff, fun l hl => hfits.leaf_cases hl,
    fun _ _ _ hx => hfits.sourced_once hx⟩

def placesOf (text : String) : Option (List (List Step)) :=
  (Toml.parse text).map fun tree => tree.leaves.map (·.place)

theorem places_of_read {text : String} {tree : Value} (h : Toml.parse text = some tree)
    {places : List (List Step)} (hplaces : placesOf text = some places) :
    tree.leaves.map (·.place) = places := by
  rw [placesOf, h] at hplaces
  exact Option.some.inj hplaces

theorem parse_accounts_array :
    parse "timing = [5, 7]\n" = .ok { empty with timing := ⟨some 5, some 7, none, none, none⟩ } ∧
    ∃ tree, Toml.parse "timing = [5, 7]\n" = some tree ∧
      Accounts tree { empty with timing := ⟨some 5, some 7, none, none, none⟩ } := by
  have hparse : parse "timing = [5, 7]\n" =
      .ok { empty with timing := ⟨some 5, some 7, none, none, none⟩ } := by
    decide +kernel
  have hplaces : placesOf "timing = [5, 7]\n" =
      some [[.key "timing", .item 0], [.key "timing", .item 1]] := by
    decide +kernel
  obtain ⟨tree, hread, haccounts, -⟩ := parse_accounts hparse
  refine ⟨hparse, tree, hread, haccounts.mpr ?_⟩
  intro l hl
  have hplace : l.place ∈ tree.leaves.map (·.place) := List.mem_map_of_mem hl
  rw [places_of_read hread hplaces] at hplace
  simp only [List.mem_cons, List.not_mem_nil, or_false] at hplace
  rcases hplace with hplace | hplace
  · rw [hplace]
    exact fun hspare => absurd hspare.2 (by decide)
  · rw [hplace]
    exact fun hspare => absurd hspare.2 (by decide)

/-- A second directory for the summary is taken and then forgotten. -/
theorem second_item_forgotten :
    ∃ s tree, parse "summary = ['d', 'e']\n" = .ok s ∧
      Toml.parse "summary = ['d', 'e']\n" = some tree ∧
      s = { empty with summary := ⟨some (.ofString "d")⟩ } ∧
      (∃ l ∈ tree.leaves, l.place = [.key "summary", .item 1] ∧ ¬ s.Used l) ∧
      ¬ Accounts tree s := by
  have hparse : parse "summary = ['d', 'e']\n" =
      .ok { empty with summary := ⟨some (.ofString "d")⟩ } := by
    decide +kernel
  have hplaces : placesOf "summary = ['d', 'e']\n" =
      some [[.key "summary", .item 0], [.key "summary", .item 1]] := by
    decide +kernel
  obtain ⟨tree, hread, -⟩ := parse_fits hparse
  have hmem : [.key "summary", .item 1] ∈ tree.leaves.map (·.place) := by
    rw [places_of_read hread hplaces]
    exact List.mem_cons_of_mem _ (List.mem_singleton_self _)
  obtain ⟨l, hl, hplace⟩ := List.mem_map.mp hmem
  have hspare : Spare l.place := by
    rw [hplace]
    exact ⟨by decide, by decide⟩
  have hunused := not_used_of_spare (s := { empty with summary := ⟨some (.ofString "d")⟩ }) hspare
  exact ⟨_, tree, hparse, hread, rfl, ⟨l, hl, hplace, hunused⟩, fun h => hunused (h.used l hl)⟩

end FileSettings

end SmokeBench
