import Mathlib.Data.List.Nodup
import SmokeBench.Proofs.DocumentKeys

/-! The leaves of a settings document: the values that hold no others, each at its place. A step into a
table stands for its key, a step into an array for the key at that position, so two different steps
can stand for one key only in different values. -/

namespace SmokeBench.Toml

inductive Step
  | key (name : String)
  | item (index : Nat)
  deriving DecidableEq, Repr

/-- A value that has none inside, and where it stands. -/
structure Leaf where
  place : List Step
  value : Value

def Leaf.under (s : Step) (l : Leaf) : Leaf := ⟨s :: l.place, l.value⟩

mutual

def Value.leaves : Value → List Leaf
  | .array items => leavesFrom 0 items
  | .table entries => leavesOf entries
  | v => [⟨[], v⟩]

def leavesFrom (i : Nat) : List Value → List Leaf
  | [] => []
  | v :: rest => v.leaves.map (.under (.item i)) ++ leavesFrom (i + 1) rest

def leavesOf : Entries → List Leaf
  | [] => []
  | (key, v) :: rest => v.leaves.map (.under (.key key)) ++ leavesOf rest

end

def Value.members : Value → List (Step × Value)
  | .array items => items.zipIdx.map fun p => (.item p.2, p.1)
  | .table entries => entries.map fun e => (.key e.1, e.2)
  | _ => []

def Value.Plain : Value → Prop
  | .array _ | .table _ => False
  | _ => True

theorem leavesFrom_eq (i : Nat) (items : List Value) :
    leavesFrom i items = (items.zipIdx i).flatMap fun p => p.1.leaves.map (.under (.item p.2)) := by
  induction items generalizing i with
  | nil => rfl
  | cons v rest ih => rw [leavesFrom, ih, List.zipIdx_cons, List.flatMap_cons]

theorem leavesOf_eq (entries : Entries) :
    leavesOf entries = entries.flatMap fun e => e.2.leaves.map (.under (.key e.1)) := by
  induction entries with
  | nil => rfl
  | cons e rest ih => rw [leavesOf, ih, List.flatMap_cons]

namespace Value

variable {v : Value}

theorem leaves_of_plain (h : v.Plain) : v.leaves = [⟨[], v⟩] := by
  cases v with
  | array items => exact h.elim
  | table entries => exact h.elim
  | _ => rfl

theorem leaves_of_not_plain (h : ¬ v.Plain) :
    v.leaves = v.members.flatMap fun m => m.2.leaves.map (.under m.1) := by
  cases v with
  | array items =>
    rw [leaves, leavesFrom_eq, members, List.flatMap_map]
  | table entries =>
    rw [leaves, leavesOf_eq, members, List.flatMap_map]
  | _ => exact (h trivial).elim

end Value

theorem Value.mem_leaves {v : Value} (h : ¬ v.Plain) {l : Leaf} :
    l ∈ v.leaves ↔ ∃ m ∈ v.members, ∃ l' ∈ m.2.leaves, l = l'.under m.1 := by
  rw [leaves_of_not_plain h, List.mem_flatMap]
  simp only [List.mem_map, eq_comm]

/-- The key that a step stands for among the keys of a section. -/
def Step.stands (names : List String) : Step → Option String
  | key name => if name ∈ names then some name else none
  | item i => names[i]?

/-- The values one step inside that stand for a key, each with its key. -/
def Value.assigned (names : List String) (v : Value) : Entries :=
  v.members.filterMap fun m => (m.1.stands names).map (·, m.2)

theorem mem_assigned {names : List String} {v : Value} {e : String × Value} :
    e ∈ v.assigned names ↔ ∃ m ∈ v.members, m.1.stands names = some e.1 ∧ m.2 = e.2 := by
  rw [Value.assigned, List.mem_filterMap]
  refine exists_congr fun m => and_congr_right fun _ => ?_
  rw [Option.map_eq_some_iff]
  constructor
  · rintro ⟨key, hkey, rfl⟩
    exact ⟨hkey, rfl⟩
  · rintro ⟨hkey, hvalue⟩
    exact ⟨e.1, hkey, by rw [hvalue]⟩

theorem zip_drop_eq (names : List String) (items : List Value) (n : Nat) :
    ((items.zipIdx n).map fun p => (Step.item p.2, p.1)).filterMap
      (fun m => (m.1.stands names).map (·, m.2)) = (names.drop n).zip items := by
  induction items generalizing n with
  | nil => simp
  | cons v rest ih =>
    rw [List.zipIdx_cons, List.map_cons, List.filterMap_cons]
    by_cases hn : n < names.length
    · rw [List.drop_eq_getElem_cons hn, List.zip_cons_cons, ← ih (n + 1)]
      simp [Step.stands, hn]
    · have hdrop : names.drop n = [] := List.drop_eq_nil_of_le (by omega)
      have hdrop' : names.drop (n + 1) = [] := List.drop_eq_nil_of_le (by omega)
      have hnone : names[n]? = none := List.getElem?_eq_none (by omega)
      have hrest := ih (n + 1)
      rw [hdrop'] at hrest
      rw [hdrop]
      simpa [Step.stands, hnone] using hrest

theorem assigned_array (names : List String) (items : List Value) :
    (Value.array items).assigned names = names.zip items := by
  rw [Value.assigned, Value.members, zip_drop_eq, List.drop_zero]

theorem assigned_table (names : List String) (entries : Entries) :
    (Value.table entries).assigned names = entries.filter (·.1 ∈ names) := by
  rw [Value.assigned, Value.members, List.filterMap_map]
  induction entries with
  | nil => rfl
  | cons e rest ih =>
    by_cases he : e.1 ∈ names
    · simp [Step.stands, he, ← ih]
    · simp [Step.stands, he, ← ih]

theorem keys_zip_sublist (names : List String) (items : List Value) :
    ((names.zip items).map Prod.fst).Sublist names := by
  induction names generalizing items with
  | nil => simp
  | cons name rest ih =>
    cases items with
    | nil => simp
    | cons v items => simpa using ih items

theorem assigned_keys_nodup {names : List String} (hnames : names.Nodup) {v : Value}
    (hv : v.Distinct) : ((v.assigned names).map Prod.fst).Nodup := by
  cases hv with
  | @array items _ =>
    rw [assigned_array]
    exact hnames.sublist (keys_zip_sublist names items)
  | @table entries keys _ =>
    rw [assigned_table]
    exact keys.sublist (List.filter_sublist.map Prod.fst)
  | _ => exact List.nodup_nil

theorem Value.Distinct.of_member {v : Value} (hv : v.Distinct) {m : Step × Value}
    (hm : m ∈ v.members) : m.2.Distinct := by
  cases hv with
  | array h =>
    obtain ⟨p, hp, rfl⟩ := List.mem_map.mp hm
    exact h _ (List.fst_mem_of_mem_zipIdx hp)
  | table keys h =>
    obtain ⟨e, he, rfl⟩ := List.mem_map.mp hm
    exact h e he
  | _ => cases hm

theorem steps_nodup {v : Value} (hv : v.Distinct) : (v.members.map Prod.fst).Nodup := by
  cases hv with
  | @array items _ =>
    have hsteps : ((Value.array items).members.map Prod.fst) =
        (List.range' 0 items.length).map Step.item := by
      rw [Value.members, List.map_map, ← List.zipIdx_map_snd 0 items, List.map_map]
      rfl
    rw [hsteps]
    exact List.Nodup.map (fun _ _ h => Step.item.inj h) List.nodup_range'
  | @table entries keys _ =>
    have hsteps : ((Value.table entries).members.map Prod.fst) =
        (entries.map Prod.fst).map Step.key := by
      rw [Value.members, List.map_map, List.map_map]
      rfl
    rw [hsteps]
    exact keys.map fun _ _ h => Step.key.inj h
  | _ => exact List.nodup_nil

theorem step_eq_of_stands {names : List String} (hnames : names.Nodup) {v : Value}
    {m n : Step × Value} (hm : m ∈ v.members) (hn : n ∈ v.members) {key : String}
    (hmkey : m.1.stands names = some key) (hnkey : n.1.stands names = some key) : m.1 = n.1 := by
  cases v with
  | array items =>
    obtain ⟨p, -, rfl⟩ := List.mem_map.mp hm
    obtain ⟨q, -, rfl⟩ := List.mem_map.mp hn
    obtain ⟨hp, hpkey⟩ := List.getElem?_eq_some_iff.mp hmkey
    obtain ⟨hq, hqkey⟩ := List.getElem?_eq_some_iff.mp hnkey
    exact congrArg Step.item ((hnames.getElem_inj_iff).mp (hpkey.trans hqkey.symm))
  | table entries =>
    obtain ⟨e, -, rfl⟩ := List.mem_map.mp hm
    obtain ⟨f, -, rfl⟩ := List.mem_map.mp hn
    simp only [Step.stands, Option.ite_none_right_eq_some, Option.some.injEq] at hmkey hnkey
    rw [hmkey.2, hnkey.2]
  | _ => cases hm

/-- What is told of leaves by their places is told once, if it is inside every member and if no two
members share it. -/
theorem nodup_leaves {β : Type} {f : List Step → Option β} {v : Value} (hv : v.Distinct)
    (hinside : ¬ v.Plain)
    (hmembers : ∀ m ∈ v.members, (m.2.leaves.filterMap fun l => f (m.1 :: l.place)).Nodup)
    (hapart : ∀ m ∈ v.members, ∀ n ∈ v.members, ∀ p q b, f (m.1 :: p) = some b →
      f (n.1 :: q) = some b → m.1 = n.1) :
    (v.leaves.filterMap fun l => f l.place).Nodup := by
  rw [Value.leaves_of_not_plain hinside, List.filterMap_flatMap, List.nodup_flatMap]
  constructor
  · intro m hm
    rw [List.filterMap_map]
    exact hmembers m hm
  · have hsteps : v.members.Pairwise fun m n => m.1 ≠ n.1 :=
      List.pairwise_map.mp (steps_nodup hv)
    refine hsteps.imp_of_mem ?_
    intro m n hm hn hne b hb hb'
    dsimp only at hb hb'
    rw [List.filterMap_map] at hb hb'
    obtain ⟨l, -, hl⟩ := List.mem_filterMap.mp hb
    obtain ⟨l', -, hl'⟩ := List.mem_filterMap.mp hb'
    exact hne (hapart m hm n hn _ _ b hl hl')

theorem filter_eq_singleton {α β : Type} [DecidableEq β] {f : α → Option β} {xs : List α}
    (h : (xs.filterMap f).Nodup) {a : α} (ha : a ∈ xs) {b : β} (hab : f a = some b) :
    xs.filter (f · = some b) = [a] := by
  induction xs with
  | nil => cases ha
  | cons x rest ih =>
    by_cases hx : f x = some b
    · rw [List.filterMap_cons_some hx] at h
      obtain ⟨hnot, -⟩ := List.nodup_cons.mp h
      have hother (y : α) (hy : y ∈ rest) : f y ≠ some b := by
        intro hyb
        exact hnot (List.mem_filterMap.mpr ⟨y, hy, hyb⟩)
      have hxa : a = x := by
        rcases List.mem_cons.mp ha with rfl | hrest
        · rfl
        · exact absurd hab (hother a hrest)
      rw [List.filter_cons_of_pos (by simpa using hx), hxa,
        List.filter_eq_nil_iff.mpr (by simpa using hother)]
    · have hrest : (rest.filterMap f).Nodup := by
        cases hfx : f x with
        | none => rwa [List.filterMap_cons_none hfx] at h
        | some c =>
          rw [List.filterMap_cons_some hfx] at h
          exact (List.nodup_cons.mp h).2
      have hmem : a ∈ rest := by
        rcases List.mem_cons.mp ha with rfl | hrest
        · exact absurd hab hx
        · exact hrest
      rw [List.filter_cons_of_neg (by simpa using hx), ih hrest hmem]

end SmokeBench.Toml
