import SmokeBench.Proofs.PathComponents
import SmokeBench.Proofs.Requests

/-! What the bench does to files. A host keeps files when its answers have the effects that the
system documents for them; links may be anywhere except in a directory just made. Whatever is put
into a scope then stays below the scope's own place: a path that does not escape leads below it, and
the ascent through missing directories ends at the scope, which is there. -/

namespace SmokeBench

open Dialogue

/-- Where something is, links aside: the names that lead to it from the top. -/
abbrev Place := List Bytes

/-- The files in each state: what is there, and the place that a path names. The last component of
the path is not followed if it is a link. -/
structure Files (σ : Type) where
  there : σ → Place → Prop
  spot : σ → Path → Place

def Request.reads : Request → Bool
  | environment _ | workingDir | randomSuffix | metadata _ => true
  | _ => false

namespace Files

variable {σ : Type}

/-- The path names something there, and no link in it leads out of it. -/
structure Sealed (files : Files σ) (s : σ) (p : Path) : Prop where
  there : files.there s (files.spot s p)
  inside : ∀ q, p.Inside q → files.spot s p <+: files.spot s q

/-- A host answers as the system documents it: a directory is made where nothing is and is empty, a
file is stored at its path, and a tree is removed with all that is below. -/
structure KeptBy (files : Files σ) (host : Host σ) : Prop where
  above : ∀ s p q, p <+: q → files.there s q → files.there s p
  read : ∀ r s q, r.reads → (files.there (host.answer r s).2 q ↔ files.there s q)
  notMade : ∀ p s e q, (host.answer (.makeDir p) s).1 = .error e →
    (files.there (host.answer (.makeDir p) s).2 q ↔ files.there s q)
  free : ∀ p s, (host.answer (.makeDir p) s).1 = .ok () → ¬files.there s (files.spot s p)
  made : ∀ p s q, (host.answer (.makeDir p) s).1 = .ok () →
    (files.there (host.answer (.makeDir p) s).2 q ↔ files.there s q ∨ q = files.spot s p)
  madeSealed : ∀ p s, (host.answer (.makeDir p) s).1 = .ok () →
    files.Sealed (host.answer (.makeDir p) s).2 p ∧
      files.spot (host.answer (.makeDir p) s).2 p = files.spot s p
  stored : ∀ p content s q, q ≠ files.spot s p →
    (files.there (host.answer (.store p content) s).2 q ↔ files.there s q)
  removed : ∀ p s q, ((host.answer (.removeTree p) s).1 = .ok () ∨
      (host.answer (.removeTree p) s).1 = .error .notFound) →
    (files.there (host.answer (.removeTree p) s).2 q ↔ files.there s q ∧ ¬files.spot s p <+: q)
  settled : ∀ r s p, r.fills → files.Sealed s p →
    files.Sealed (host.answer r s).2 p ∧ files.spot (host.answer r s).2 p = files.spot s p
  reached : ∀ p q s, files.Sealed s p → q.bytes ≠ [] → q.components <+: p.components →
    (host.answer (.makeDir q) s).1 ≠ .ok () ∧ (host.answer (.makeDir q) s).1 ≠ .error .notFound

/-- A sealed directory at its place, and everything outside of it as in a snapshot. -/
structure Confined (files : Files σ) (root : Path) (place : Place) (before : Place → Prop) (s : σ) :
    Prop where
  sealed : files.Sealed s root
  spot : files.spot s root = place
  outside : ∀ q, ¬place <+: q → (files.there s q ↔ before q)

variable {files : Files σ} {host : Host σ} (kept : files.KeptBy host) {root : Path} {place : Place}
  {before : Place → Prop}

include kept

theorem Confined.step {s : σ} (h : files.Confined root place before s) {r : Request}
    (hfills : r.fills)
    (hthere : ∀ q, ¬place <+: q → (files.there (host.answer r s).2 q ↔ files.there s q)) :
    files.Confined root place before (host.answer r s).2 := by
  obtain ⟨hsealed, hspot⟩ := kept.settled r s root hfills h.sealed
  exact ⟨hsealed, hspot.trans h.spot, fun q hq => (hthere q hq).trans (h.outside q hq)⟩

theorem metadata_confined (p : Path) :
    Maintains host (files.Confined root place before) (ask (.metadata p)) := fun s h =>
  h.step kept (r := .metadata p) rfl fun q _ => kept.read (.metadata p) s q rfl

theorem makeDir_confined {p : Path} (hne : p.bytes ≠ []) (hp : root.Along p) :
    Maintains host (files.Confined root place before) (ask (.makeDir p)) := by
  intro s h
  refine h.step kept (r := .makeDir p) rfl fun q hq => ?_
  cases hreply : (host.answer (.makeDir p) s).1 with
  | error e => exact kept.notMade p s e q hreply
  | ok _ =>
    rcases hp with hto | hinside
    · exact absurd hreply (kept.reached root p s h.sealed hne hto).1
    · rw [kept.made p s q hreply]
      refine or_iff_left fun heq => hq ?_
      rw [heq, ← h.spot]
      exact h.sealed.inside p hinside

theorem store_confined {p : Path} (content : Bytes) (hp : root.Inside p) :
    Maintains host (files.Confined root place before) (ask (.store p content)) := by
  intro s h
  refine h.step kept (r := .store p content) rfl fun q hq => kept.stored p content s q ?_
  rintro rfl
  exact hq (h.spot ▸ h.sealed.inside p hp)

theorem isDirectory_confined (p : Path) :
    Maintains host (files.Confined root place before) (isDirectory p) :=
  (metadata_confined kept p).bind fun
    | .ok _ => .pure _
    | .error _ => .pure _

/-- The ascent never leaves the sealed directory: at the directory itself nothing is missing. -/
theorem makeDirsWithin_confined (depth : Nat) {p : Path} (hp : root.Along p) :
    Maintains host (files.Confined root place before) (makeDirsWithin depth p) := by
  have hdir (e : IoError) (q : Path) : Maintains host (files.Confined root place before)
      (do return if ← isDirectory q then .ok () else .error e : Dialogue (Except IoError Unit)) :=
    (isDirectory_confined kept q).bind fun _ => .pure _
  induction depth generalizing p with
  | zero =>
    unfold makeDirsWithin
    split
    · exact .pure _
    · rename_i hempty
      refine (makeDir_confined kept (by simpa using hempty) hp).bind fun reply => ?_
      split
      · exact .pure _
      · exact .pure _
      · exact hdir _ p
  | succ depth ih =>
    unfold makeDirsWithin
    split
    · exact .pure _
    · rename_i hempty
      have hne : p.bytes ≠ [] := by simpa using hempty
      have hmissing (s : σ) (h : files.Confined root place before s) :
          (host.answer (.makeDir p) s).1 = .error .notFound → ¬p.components <+: root.components :=
        fun hreply hto => (kept.reached root p s h.sealed hne hto).2 hreply
      refine (makeDir_confined kept hne hp).bind_of hmissing
        (R := fun reply => reply = .error .notFound → ¬p.components <+: root.components)
        fun reply hreply => ?_
      split
      · exact .pure _
      · split
        · rename_i above heq hup
          obtain rfl := Nat.succ.inj heq
          have hinside : root.Inside p := hp.resolve_left (hreply rfl)
          refine (ih (hinside.parent_along hup)).bind fun made => ?_
          split
          · exact .pure _
          · refine (makeDir_confined kept hne hp).bind fun again => ?_
            split
            · exact .pure _
            · exact hdir _ p
        · exact .pure _
      · exact hdir _ p

theorem createDir_confined (scope : Scope) (relative : Path) :
    Maintains host (files.Confined scope.root place before) (scope.createDir relative) := by
  unfold Scope.createDir
  split
  · exact .pure _
  · rename_i path hpath
    refine (makeDirsWithin_confined kept _ (.inr (Scope.path_inside hpath))).bind fun made => ?_
    split <;> exact .pure _

theorem writeFile_confined (scope : Scope) (relative : Path) (content : Bytes) :
    Maintains host (files.Confined scope.root place before) (scope.writeFile relative content) := by
  unfold Scope.writeFile
  split
  · exact .pure _
  · rename_i path hpath
    have hinside := Scope.path_inside hpath
    have hparent :
      Maintains host (files.Confined scope.root place before) (Scope.makeParent path) := by
      unfold Scope.makeParent
      split
      · exact .pure _
      · rename_i above hup
        refine (makeDirsWithin_confined kept _ (hinside.parent_along hup)).bind fun made => ?_
        split <;> exact .pure _
    refine hparent.bind fun made => ?_
    split
    · exact .pure _
    · refine (store_confined kept content hinside).bind fun reply => ?_
      split <;> exact .pure _

theorem prepare_confined (scope : Scope) (steps : List SetupStep) :
    Maintains host (files.Confined scope.root place before) (Scenario.prepare scope steps) := by
  induction steps with
  | nil => exact .pure _
  | cons step rest ih =>
    unfold Scenario.prepare
    cases step with
    | createDir path =>
      refine (createDir_confined kept scope path).bind fun made => ?_
      dsimp only
      split
      · exact ih
      · exact .pure _
    | writeFile path content =>
      refine (writeFile_confined kept scope path content).bind fun made => ?_
      dsimp only
      split
      · exact ih
      · exact .pure _

end Files

def Path.names (p : Path) : Place := p.components.filterMap fun
  | .normal name => some name
  | _ => none

namespace Shelf

/-- What is on the way to something listed is there. -/
def There (s : List Place) (q : Place) : Prop := ∃ x ∈ s, q <+: x

instance (s : List Place) (q : Place) : Decidable (There s q) := List.decidableBEx _ _

def put (s : List Place) (q : Place) : Except IoError Unit × List Place :=
  if There s q then (.error .alreadyExists, s)
  else if There s q.dropLast then (.ok (), q :: s)
  else (.error .notFound, s)

def clear (s : List Place) (q : Place) : Except IoError Unit × List Place :=
  if There s q then
    (.ok (), (if q = [] then [] else [q.dropLast]) ++ s.filter fun x => !q.isPrefixOf x)
  else (.error .notFound, s)

end Shelf

/-- A host that has nothing but files, without links. -/
def Host.shelf : Host (List Place) where
  answer r s := match r with
    | .makeDir p => Shelf.put s p.names
    | .store p _ => Shelf.put s p.names
    | .removeTree p => Shelf.clear s p.names
    | .metadata p => (if Shelf.There s p.names then .ok ⟨.directory, 0⟩ else .error .notFound, s)
    | r => Host.still.answer r s

namespace Shelf

def files : Files (List Place) := ⟨There, fun _ p => p.names⟩

theorem there_above {s : List Place} {p q : Place} (h : p <+: q) (hq : There s q) : There s p :=
  let ⟨x, hx, hqx⟩ := hq
  ⟨x, hx, h.trans hqx⟩

theorem prefix_dropLast {p q : Place} (h : p <+: q) (hne : p ≠ q) : p <+: q.dropLast := by
  rcases List.eq_nil_or_concat q with rfl | ⟨init, last, rfl⟩
  · exact absurd (List.prefix_nil.mp h) hne
  · rw [List.concat_eq_append] at h hne ⊢
    rw [List.dropLast_concat]
    exact (List.prefix_concat_iff.mp h).resolve_left hne

theorem put_there (s : List Place) (q p : Place) :
    There (put s q).2 p ↔ There s p ∨ ((put s q).1 = .ok () ∧ p = q) := by
  unfold put
  split_ifs with hq habove
  · simp
  · simp only [true_and]
    constructor
    · rintro ⟨x, hx, hpx⟩
      rcases List.mem_cons.mp hx with rfl | hx
      · by_cases heq : p = x
        · exact .inr heq
        · exact .inl (there_above (prefix_dropLast hpx heq) habove)
      · exact .inl ⟨x, hx, hpx⟩
    · rintro (⟨x, hx, hpx⟩ | rfl)
      · exact ⟨x, List.mem_cons_of_mem _ hx, hpx⟩
      · exact ⟨p, List.mem_cons_self, List.prefix_refl _⟩
  · simp

theorem clear_there (s : List Place) (q p : Place) :
    There (clear s q).2 p ↔ There s p ∧ ¬q <+: p := by
  unfold clear
  split_ifs with hq hnil
  · subst hnil
    refine iff_of_false ?_ fun h => h.2 List.nil_prefix
    rintro ⟨x, hx, -⟩
    simp at hx
  · constructor
    · rintro ⟨x, hx, hpx⟩
      rcases List.mem_append.mp hx with hup | hkept
      · obtain rfl := List.mem_singleton.mp hup
        have hpq : p <+: q := hpx.trans <| List.dropLast_prefix q
        refine ⟨there_above hpq hq, fun hqp => ?_⟩
        have hle := (hqp.trans hpx).length_le
        have hpos := List.length_pos_of_ne_nil hnil
        rw [List.length_dropLast] at hle
        omega
      · obtain ⟨hxs, hnot⟩ := List.mem_filter.mp hkept
        refine ⟨⟨x, hxs, hpx⟩, fun hqp => ?_⟩
        have hqx := List.isPrefixOf_iff_prefix.mpr (hqp.trans hpx)
        simp [hqx] at hnot
    · rintro ⟨⟨x, hx, hpx⟩, hnot⟩
      by_cases hqx : q <+: x
      · have hpq : p <+: q := (List.prefix_or_prefix_of_prefix hpx hqx).resolve_right hnot
        refine ⟨q.dropLast, by simp, prefix_dropLast hpq ?_⟩
        rintro rfl
        exact hnot (List.prefix_refl _)
      · refine ⟨x, List.mem_append_right _ (List.mem_filter.mpr ⟨hx, ?_⟩), hpx⟩
        simpa [← List.isPrefixOf_iff_prefix] using hqx
  · exact ⟨fun h => ⟨h, fun hqp => hq (there_above hqp h)⟩, And.left⟩

theorem clear_reply (s : List Place) (q : Place) :
    (clear s q).1 = .ok () ∨ (clear s q).1 = .error .notFound := by
  unfold clear
  split_ifs
  · exact .inl rfl
  · exact .inl rfl
  · exact .inr rfl

theorem put_ok {s : List Place} {q : Place} (h : (put s q).1 = .ok ()) : ¬There s q := by
  unfold put at h
  split_ifs at h with hq
  exact hq

theorem put_reached {s : List Place} {q : Place} (h : There s q) :
    (put s q).1 = .error .alreadyExists := by
  rw [put, if_pos h]

theorem names_mono {p q : Path} (h : p.components <+: q.components) : p.names <+: q.names :=
  h.filterMap _

theorem sealed {s : List Place} {p : Path} (h : There s p.names) : files.Sealed s p where
  there := h
  inside q hq := by
    obtain ⟨rest, heq, -⟩ := hq
    exact names_mono (heq ▸ List.prefix_append _ _)

theorem put_keeps {s : List Place} (q : Place) {p : Place} (h : There s p) :
    There (put s q).2 p := (put_there s q p).mpr (.inl h)

theorem files_keptBy : files.KeptBy .shelf where
  above _ _ _ h hq := there_above h hq
  read r s q h := by cases r <;> first | rfl | cases h
  notMade p s e q h := by
    refine (put_there s p.names q).trans (or_iff_left fun hok => ?_)
    cases h.symm.trans hok.1
  free p s h := put_ok h
  made p s q h := (put_there s p.names q).trans (or_congr_right (and_iff_right h))
  madeSealed p s h := ⟨sealed ((put_there s p.names _).mpr (.inr ⟨h, rfl⟩)), rfl⟩
  stored p content s q h :=
    (put_there s p.names q).trans (or_iff_left fun hok => h hok.2)
  removed p s q _ := clear_there s p.names q
  settled r s p hr h := by
    refine ⟨sealed ?_, rfl⟩
    cases r with
    | metadata q => exact h.there
    | makeDir q => exact put_keeps q.names h.there
    | store q content => exact put_keeps q.names h.there
    | _ => cases hr
  reached p q s h _ hq := by
    have hreply := put_reached (there_above (names_mono hq) h.there)
    exact ⟨fun hok => (by cases hreply.symm.trans hok), fun hno => (by cases hreply.symm.trans hno)⟩

end Shelf

end SmokeBench
