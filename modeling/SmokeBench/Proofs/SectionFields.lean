import SmokeBench.Proofs.DocumentLeaves
import SmokeBench.Proofs.PositiveTimes

/-! How a section is filled. Each field decides its own part of the section and leaves the others, so
after all values are given the section holds exactly what stands for its keys, and what stands for
none is an item of an array beyond the last key. -/

namespace SmokeBench.FileSettings

open Toml (Value Entries Step Leaf)

variable {α γ : Type}

/-- What a field does to the parts `get` of a state, told by the value it is given: it decides the
part that has its name and leaves the others. -/
structure Sound (get : α → String → γ) (Decides : String → Value → γ → Prop) (f : Field α) :
    Prop where
  sets : ∀ s v s', f.set s v = .ok s' → Decides f.name v (get s' f.name)
  keeps : ∀ s v s', f.set s v = .ok s' → ∀ name, name ≠ f.name → get s' name = get s name

structure Fields (fields : List (Field α)) (get : α → String → γ)
    (Decides : String → Value → γ → Prop) : Prop where
  names : (fields.map (·.name)).Nodup
  sound : ∀ f ∈ fields, Sound get Decides f

theorem Sound.of_fit {β : Type} {get : α → String → γ} {Decides : String → Value → γ → Prop}
    {name : String} {fit : Value → Fit β} {update : α → β → α}
    (hset : ∀ s v b, fit v = .ok b → Decides name v (get (update s b) name))
    (hkeep : ∀ s b other, other ≠ name → get (update s b) other = get s other) :
    Sound get Decides ⟨name, fun s v => return update s (← fit v)⟩ where
  sets s v s' h := by
    obtain ⟨b, hb, h⟩ := bind_eq_ok.mp h
    cases h
    exact hset s v b hb
  keeps s v s' h other hother := by
    obtain ⟨b, -, h⟩ := bind_eq_ok.mp h
    cases h
    exact hkeep s b other hother

def setAll (pairs : List (Field α × Value)) (s : α) : Fit α :=
  pairs.foldlM (fun s p => p.1.set s p.2) s

def given (pairs : List (Field α × Value)) : Entries := pairs.map fun p => (p.1.name, p.2)

section Fill

variable {fields : List (Field α)} {get : α → String → γ} {Decides : String → Value → γ → Prop}
  (hfields : Fields fields get Decides)

include hfields

theorem Fields.setAll_keeps {pairs : List (Field α × Value)} (hpairs : ∀ p ∈ pairs, p.1 ∈ fields)
    {s s' : α} (h : setAll pairs s = .ok s') {name : String}
    (hname : name ∉ (given pairs).map Prod.fst) : get s' name = get s name := by
  induction pairs generalizing s with
  | nil =>
    cases h
    rfl
  | cons p rest ih =>
    obtain ⟨t, ht, h⟩ := bind_eq_ok.mp h
    simp only [given, List.map_cons, List.mem_cons, not_or] at hname
    have hrest := ih (fun q hq => hpairs q (List.mem_cons_of_mem _ hq)) h hname.2
    rw [hrest]
    exact (hfields.sound p.1 (hpairs p List.mem_cons_self)).keeps s p.2 t ht name hname.1

theorem Fields.setAll_sets {pairs : List (Field α × Value)} (hpairs : ∀ p ∈ pairs, p.1 ∈ fields)
    (hnames : ((given pairs).map Prod.fst).Nodup) {s s' : α} (h : setAll pairs s = .ok s') :
    ∀ e ∈ given pairs, Decides e.1 e.2 (get s' e.1) := by
  induction pairs generalizing s with
  | nil => simp [given]
  | cons p rest ih =>
    obtain ⟨t, ht, h⟩ := bind_eq_ok.mp h
    obtain ⟨hfirst, hnames⟩ := List.nodup_cons.mp hnames
    have hpairs' : ∀ q ∈ rest, q.1 ∈ fields := fun q hq => hpairs q (List.mem_cons_of_mem _ hq)
    intro e he
    rcases List.mem_cons.mp he with rfl | he
    · rw [hfields.setAll_keeps hpairs' h hfirst]
      exact (hfields.sound p.1 (hpairs p List.mem_cons_self)).sets s p.2 t ht
    · exact ih hpairs' hnames h e he

end Fill

abbrev namesOf (fields : List (Field α)) : List String := fields.map (·.name)

theorem setNamed_ok {fields : List (Field α)} {s s' : α} {e : String × Value}
    (h : setNamed fields s e = .ok s') :
    ∃ f ∈ fields, f.name = e.1 ∧ f.set s e.2 = .ok s' := by
  unfold setNamed at h
  split at h
  · rename_i f hfind
    exact ⟨f, List.mem_of_find?_eq_some hfind, by simpa using List.find?_some hfind, h⟩
  · cases h

theorem foldlM_setNamed_ok {fields : List (Field α)} {entries : Entries} {s s' : α}
    (h : entries.foldlM (setNamed fields) s = .ok s') :
    ∃ pairs : List (Field α × Value), (∀ p ∈ pairs, p.1 ∈ fields) ∧ given pairs = entries ∧
      setAll pairs s = .ok s' := by
  induction entries generalizing s with
  | nil => exact ⟨[], by simp, rfl, h⟩
  | cons e rest ih =>
    rw [List.foldlM_cons] at h
    obtain ⟨t, ht, h⟩ := bind_eq_ok.mp h
    obtain ⟨f, hf, hname, hset⟩ := setNamed_ok ht
    obtain ⟨pairs, hpairs, hgiven, hall⟩ := ih h
    refine ⟨(f, e.2) :: pairs, ?_, ?_, ?_⟩
    · intro p hp
      rcases List.mem_cons.mp hp with rfl | hp
      · exact hf
      · exact hpairs p hp
    · rw [given, List.map_cons, ← hgiven, hname]
      rfl
    · exact bind_eq_ok.mpr ⟨t, hset, hall⟩

/-- How a section was filled. -/
structure Filled (fields : List (Field α)) (v : Value) (s s' : α)
    (pairs : List (Field α × Value)) : Prop where
  known : ∀ p ∈ pairs, p.1 ∈ fields
  perm : (given pairs).Perm (v.assigned (namesOf fields))
  done : setAll pairs s = .ok s'
  inside : ¬ v.Plain
  /-- What stands for no key stands beyond the last one. -/
  spare : ∀ m ∈ v.members, m.1.stands (namesOf fields) = none →
    ∃ i, m.1 = .item i ∧ fields.length ≤ i

theorem fill_ok {label : String} {fields : List (Field α)} {s s' : α} {v : Value}
    (h : fill label fields s v = .ok s') : ∃ pairs, Filled fields v s s' pairs := by
  cases v with
  | table entries =>
    obtain ⟨pairs, hpairs, hgiven, hset⟩ := foldlM_setNamed_ok h
    have hsorted : (given pairs).Perm entries := by
      rw [hgiven]
      exact List.mergeSort_perm _ _
    have hknown : ∀ e ∈ entries, e.1 ∈ namesOf fields := by
      intro e he
      obtain ⟨p, hp, rfl⟩ := List.mem_map.mp (hsorted.mem_iff.mpr he)
      exact List.mem_map_of_mem (hpairs p hp)
    refine ⟨pairs, hpairs, ?_, hset, id, ?_⟩
    · rw [Toml.assigned_table, List.filter_eq_self.mpr (by simpa using hknown)]
      exact hsorted
    · intro m hm hnone
      obtain ⟨e, he, rfl⟩ := List.mem_map.mp hm
      simp [Step.stands, hknown e he] at hnone
  | array items =>
    refine ⟨fields.zip items, fun p hp => (List.of_mem_zip hp).1, ?_, h, id, ?_⟩
    · rw [Toml.assigned_array, given, namesOf, List.zip_map_left]
      exact .refl _
    · intro m hm hnone
      obtain ⟨p, hp, rfl⟩ := List.mem_map.mp hm
      refine ⟨p.2, rfl, ?_⟩
      simpa [Step.stands] using hnone
  | _ => cases h

/-- What a setting can be. -/
inductive Setting
  | path (p : Path)
  | text (t : String)
  | count (n : Nat)
  deriving DecidableEq, Repr

/-- The value of a document that a setting is. -/
def Setting.Says : Setting → Value → Prop
  | path p, .string s => p = Path.ofString s
  | text t, .string s => t = s
  | count n, .integer k => (n : Int) = k
  | _, _ => False

theorem Setting.Says.plain {x : Setting} {v : Value} (h : x.Says v) : v.Plain := by
  cases v with
  | array items => cases x <;> exact h.elim
  | table entries => cases x <;> exact h.elim
  | _ => trivial

/-- What a section holds after it was filled, told by the values that stand for its keys. -/
structure Holds (names : List String) (v : Value) (get : String → Option Setting) : Prop where
  taken : ∀ e ∈ v.assigned names, ∃ x, get e.1 = some x ∧ x.Says e.2
  sourced : ∀ key x, get key = some x → ∃ w, (key, w) ∈ v.assigned names ∧ x.Says w
  inside : ¬ v.Plain
  spare : ∀ m ∈ v.members, m.1.stands names = none → ∃ i, m.1 = .item i ∧ names.length ≤ i

/-- A field of a section is its value. -/
def Takes (_ : String) (v : Value) (got : Option Setting) : Prop := ∃ x, got = some x ∧ x.Says v

theorem Fields.holds {fields : List (Field α)} {get : α → String → Option Setting}
    (hfields : Fields fields get Takes) {label : String} {s s' : α} {v : Value}
    (hempty : ∀ name, get s name = none) (hv : v.Distinct)
    (h : fill label fields s v = .ok s') : Holds (namesOf fields) v (get s') := by
  obtain ⟨pairs, hfilled⟩ := fill_ok h
  have hnodup : ((given pairs).map Prod.fst).Nodup :=
    (hfilled.perm.map Prod.fst).nodup_iff.mpr (Toml.assigned_keys_nodup hfields.names hv)
  have hsets := hfields.setAll_sets hfilled.known hnodup hfilled.done
  refine ⟨?_, ?_, hfilled.inside, ?_⟩
  · intro e he
    exact hsets e (hfilled.perm.mem_iff.mpr he)
  · intro key x hget
    by_cases hkey : key ∈ (given pairs).map Prod.fst
    · obtain ⟨e, he, rfl⟩ := List.mem_map.mp hkey
      obtain ⟨y, hy, hsays⟩ := hsets e he
      rw [hget] at hy
      cases hy
      exact ⟨e.2, hfilled.perm.mem_iff.mp he, hsays⟩
    · rw [hfields.setAll_keeps hfilled.known hfilled.done hkey, hempty] at hget
      cases hget
  · intro m hm hnone
    obtain ⟨i, hi, hle⟩ := hfilled.spare m hm hnone
    exact ⟨i, hi, by rwa [List.length_map]⟩

theorem fitPath_says {v : Value} {p : Path} (h : fitPath v = .ok p) : (Setting.path p).Says v := by
  unfold fitPath at h
  split at h
  · cases h
    rfl
  · cases h

theorem fitText_says {v : Value} {t : String} (h : fitText v = .ok t) :
    (Setting.text t).Says v := by
  unfold fitText at h
  split at h
  · cases h
    rfl
  · cases h

theorem fitCount_says {v : Value} {n : Nat} (h : fitCount v = .ok n) :
    (Setting.count n).Says v := by
  unfold fitCount at h
  split at h
  · split at h
    · rename_i hrange
      cases h
      exact Int.toNat_of_nonneg hrange.1
    · split at h
      · cases h
      · cases h
  · cases h

/-- The settings of a section by their keys. -/
abbrev Table := List (String × Option Setting)

def Table.get (t : Table) (key : String) : Option Setting := (t.lookup key).join

theorem lookup_cons_ite {β : Type} (key name : String) (b : β) (rest : List (String × β)) :
    List.lookup key ((name, b) :: rest) = if key = name then some b else rest.lookup key := by
  by_cases h : key = name
  · simp [h]
  · simp [List.lookup_cons, beq_false_of_ne h, h]

theorem Table.get_unset {t : Table} (h : ∀ e ∈ t, e.2 = none) (key : String) : t.get key = none := by
  rw [Table.get]
  induction t with
  | nil => rfl
  | cons e rest ih =>
    obtain ⟨he, hrest⟩ := List.forall_mem_cons.mp h
    rw [lookup_cons_ite]
    split
    · exact he
    · exact ih hrest

end SmokeBench.FileSettings
