import Mathlib.Data.List.Induction
import SmokeBench.Proofs.WatchCourse

/-! What a watch remembers. In each poll every watched path has its turn, and what the host shows there at
its turn is a glance. The watch keeps the first glance that hits a path, in whatever spelling, and never
drops one. So what it has seen are the paths of these first glances, in the order of the glances: by the
poll, and within a poll by the place in the watch list. -/

namespace SmokeBench

open Dialogue

variable {σ : Type} {host : Host σ}

def Host.shows (host : Host σ) (p : Path) (s : σ) : Bool :=
  ((host.answer (.metadata p) s).1 : Except IoError Metadata).isOk

namespace Observation

/-- The turn of a path in a poll, and whether something is there. -/
structure Glance where
  poll : Nat
  place : Nat
  path : Path
  hit : Bool

namespace Glance

/-- In an earlier poll, or in the same one at an earlier place. -/
def Before (f g : Glance) : Prop := f.poll < g.poll ∨ f.poll = g.poll ∧ f.place < g.place

def note (seen : List Path) (g : Glance) : List Path :=
  if seen.any (·.sameAs g.path) then seen else if g.hit then seen ++ [g.path] else seen

/-- The first glance that hits this path, in whatever spelling. -/
structure First (gs : List Glance) (g : Glance) (p : Path) : Prop where
  mem : g ∈ gs
  hit : g.hit
  path : g.path = p
  least : ∀ f ∈ gs, f.hit → f.path.sameAs p → f = g ∨ g.Before f

end Glance

/-- These paths are those that the glances have hit, each as the first of them found it, and in their
order. -/
structure Remembers (gs : List Glance) (seen : List Path) : Prop where
  distinct : AllDistinct seen
  first : ∀ p ∈ seen, ∃ g : Glance, g.First gs p
  kept : ∀ g ∈ gs, g.hit → seen.any (·.sameAs g.path)
  ordered : seen.Pairwise fun p q => ∃ f g : Glance, f.First gs p ∧ g.First gs q ∧ f.Before g

section Noting

variable {gs : List Glance} {g : Glance} {seen : List Path} {p : Path}

theorem Glance.First.snoc {f : Glance} (h : f.First gs p) (hlater : ∀ f ∈ gs, f.Before g) :
    f.First (gs ++ [g]) p where
  mem := List.mem_append_left _ h.mem
  hit := h.hit
  path := h.path
  least f' hf' hhit hsame := by
    rcases List.mem_append.mp hf' with hf' | hf'
    · exact h.least f' hf' hhit hsame
    · obtain rfl := List.mem_singleton.mp hf'
      exact .inr (hlater f h.mem)

/-- A glance that hits what no glance before it has hit is the first one to do so. -/
theorem Remembers.first_snoc (h : Remembers gs seen) (hhit : g.hit)
    (hnew : ¬seen.any (·.sameAs g.path)) : g.First (gs ++ [g]) g.path where
  mem := List.mem_append_right _ (List.mem_singleton_self g)
  hit := hhit
  path := rfl
  least f hf hf' hsame := by
    rcases List.mem_append.mp hf with hf | hf
    · have hkept := h.kept f hf hf'
      rw [any_sameAs_iff, Path.sameAs_iff.mp hsame, ← any_sameAs_iff] at hkept
      exact absurd hkept hnew
    · exact .inl (List.mem_singleton.mp hf)

theorem note_keeps (h : seen.any (·.sameAs p)) (g : Glance) : (g.note seen).any (·.sameAs p) := by
  unfold Glance.note
  split
  · exact h
  · split
    · rw [List.any_append, h, Bool.true_or]
    · exact h

theorem note_hit (h : g.hit) : (g.note seen).any (·.sameAs g.path) := by
  unfold Glance.note
  rw [if_pos h]
  split
  · assumption
  · rw [List.any_append, List.any_cons, Path.sameAs_iff.mpr rfl, Bool.true_or, Bool.or_true]

theorem prefix_note (seen : List Path) (g : Glance) : seen <+: g.note seen := by
  unfold Glance.note
  split
  · exact List.prefix_refl _
  · split
    · exact List.prefix_append _ _
    · exact List.prefix_refl _

theorem Remembers.note (h : Remembers gs seen) (hlater : ∀ f ∈ gs, f.Before g) :
    Remembers (gs ++ [g]) (g.note seen) := by
  have hkept : ∀ f ∈ gs ++ [g], f.hit → (g.note seen).any (·.sameAs f.path) := by
    intro f hf hhit
    rcases List.mem_append.mp hf with hf | hf
    · exact note_keeps (h.kept f hf hhit) g
    · obtain rfl := List.mem_singleton.mp hf
      exact note_hit hhit
  have hfirst : ∀ p ∈ seen, ∃ f : Glance, f.First (gs ++ [g]) p :=
    fun p hp => (h.first p hp).imp fun _ hf => hf.snoc hlater
  have hordered : seen.Pairwise fun p q =>
      ∃ f f' : Glance, f.First (gs ++ [g]) p ∧ f'.First (gs ++ [g]) q ∧ f.Before f' :=
    h.ordered.imp fun ⟨f, f', hf, hf', hbefore⟩ => ⟨f, f', hf.snoc hlater, hf'.snoc hlater, hbefore⟩
  revert hkept
  unfold Glance.note
  split
  · exact fun hkept => ⟨h.distinct, hfirst, hkept, hordered⟩
  rename_i hnew
  split
  · rename_i hhit
    have hg : g.First (gs ++ [g]) g.path := h.first_snoc hhit hnew
    refine fun hkept => ⟨?_, ?_, hkept, ?_⟩
    · refine List.pairwise_append.mpr
        ⟨h.distinct, List.pairwise_singleton _ _, fun q hq p' hp' hsame => ?_⟩
      obtain rfl := List.mem_singleton.mp hp'
      exact hnew (List.any_eq_true.mpr ⟨q, hq, hsame⟩)
    · exact List.forall_mem_append.mpr ⟨hfirst, List.forall_mem_singleton.mpr ⟨g, hg⟩⟩
    · refine List.pairwise_append.mpr ⟨hordered, List.pairwise_singleton _ _, fun q hq p' hp' => ?_⟩
      obtain rfl := List.mem_singleton.mp hp'
      obtain ⟨f, hf⟩ := h.first q hq
      exact ⟨f, g, hf.snoc hlater, hg, hlater f hf.mem⟩
  · exact fun hkept => ⟨h.distinct, hfirst, hkept, hordered⟩

theorem remembers_foldl (h : gs.Pairwise Glance.Before) : Remembers gs (gs.foldl Glance.note []) := by
  -- from the end, since what a glance adds depends on all the glances before it
  induction gs using List.reverseRecOn with
  | nil => exact ⟨.nil, by simp, by simp, .nil⟩
  | append_singleton gs g ih =>
    obtain ⟨hearlier, -, hlater⟩ := List.pairwise_append.mp h
    rw [List.foldl_append]
    exact (ih hearlier).note fun f hf => hlater f hf g (List.mem_singleton_self g)

theorem prefix_foldl_note (seen : List Path) (gs : List Glance) :
    seen <+: gs.foldl Glance.note seen := by
  induction gs generalizing seen with
  | nil => exact List.prefix_refl _
  | cons g gs ih => exact (prefix_note seen g).trans (ih _)

end Noting

section Glances

variable (host : Host σ) (w : Watch)

def Poll.glances (p : Poll σ) (number : Nat) : List Glance :=
  w.paths.zipIdx.map fun x => ⟨number, x.2, x.1, host.shows x.1 (p.turn host w x.2)⟩

/-- The glances of polls that are numbered from here on. -/
def glancesFrom (number : Nat) (polls : List (Poll σ)) : List Glance :=
  (polls.zipIdx number).flatMap fun x => x.1.glances host w x.2

/-- The turns that the watched paths have in these polls, in order, and whether something is there. -/
def glances (polls : List (Poll σ)) : List Glance := glancesFrom host w 0 polls

variable {host w}

theorem zipIdx_pairwise {α : Type} (l : List α) (n : Nat) :
    (l.zipIdx n).Pairwise fun x y => x.2 < y.2 := by
  induction l generalizing n with
  | nil => exact .nil
  | cons a l ih =>
    rw [List.zipIdx_cons]
    exact .cons (fun x hx => List.le_snd_of_mem_zipIdx hx) (ih (n + 1))

theorem glances_before (number : Nat) (polls : List (Poll σ)) :
    (glancesFrom host w number polls).Pairwise Glance.Before := by
  refine List.pairwise_flatMap.mpr ⟨fun x _ => ?_, (zipIdx_pairwise polls number).imp ?_⟩
  · exact List.pairwise_map.mpr ((zipIdx_pairwise w.paths 0).imp fun h => .inr ⟨rfl, h⟩)
  · rintro ⟨p, m⟩ ⟨q, n⟩ hmn f hf g hg
    obtain ⟨x, -, rfl⟩ := List.mem_map.mp hf
    obtain ⟨y, -, rfl⟩ := List.mem_map.mp hg
    exact .inl hmn

theorem look_cons (seen : List Path) (p : Path) (rest : List Path) :
    look seen (p :: rest) = if seen.any (·.sameAs p) then look seen rest else (do
      match ← ask (.metadata p) with
      | .ok _ => look (seen ++ [p]) rest
      | .error _ => look seen rest) := rfl

theorem look_append (seen a b : List Path) :
    look seen (a ++ b) = look seen a >>= fun seen => look seen b := by
  induction a generalizing seen with
  | nil => rfl
  | cons p a ih =>
    rw [List.cons_append, look_cons, look_cons]
    split
    · exact ih seen
    · rw [LawfulMonad.bind_assoc]
      refine bind_congr fun reply => ?_
      split
      · exact ih _
      · exact ih _

theorem look_one (seen : List Path) (p : Path) (number place : Nat) (st : σ) :
    ((look seen [p]).run host st).1 = Glance.note seen ⟨number, place, p, host.shows p st⟩ := by
  rw [look_cons, Glance.note, Host.shows]
  split
  · rfl
  rw [run_bind, run_ask]
  cases (host.answer (.metadata p) st).1 <;> rfl

/-- What a poll has found when it has come to a place, and what its glances from there on add. -/
theorem foldl_glances (p : Poll σ) (number : Nat) {done rest : List Path} (h : w.paths = done ++ rest) :
    ((rest.zipIdx done.length).map fun x =>
        (⟨number, x.2, x.1, host.shows x.1 (p.turn host w x.2)⟩ : Glance)).foldl Glance.note
      ((look p.seen done).run host p.start).1 = p.found host w := by
  induction rest generalizing done with
  | nil =>
    rw [List.append_nil] at h
    rw [Poll.found, h]
    rfl
  | cons q rest ih =>
    have hturn : p.turn host w done.length = ((look p.seen done).run host p.start).2 := by
      rw [Poll.turn, h, List.take_left]
    have hnext : Glance.note ((look p.seen done).run host p.start).1
        ⟨number, done.length, q, host.shows q (p.turn host w done.length)⟩ =
          ((look p.seen (done ++ [q])).run host p.start).1 := by
      rw [hturn, look_append, run_bind, look_one]
    rw [List.zipIdx_cons, List.map_cons, List.foldl_cons, hnext]
    have hsplit : w.paths = done ++ [q] ++ rest := by
      rw [h, List.append_assoc]
      rfl
    have hlater := ih hsplit
    rwa [List.length_append] at hlater

theorem found_eq (p : Poll σ) (number : Nat) :
    p.found host w = (p.glances host w number).foldl Glance.note p.seen :=
  (foldl_glances p number (List.nil_append _).symm).symm

theorem glancesFrom_cons (number : Nat) (p : Poll σ) (polls : List (Poll σ)) :
    glancesFrom host w number (p :: polls) =
      p.glances host w number ++ glancesFrom host w (number + 1) polls := rfl

variable {pid : Pid} {started : Instant}

theorem pollUntil_seen (n : Nat) (p : Poll σ) (number : Nat) :
    ((pollUntil pid w started p.seen n).run host p.start).1.1 =
      (glancesFrom host w number (p.course host pid w started n)).foldl Glance.note p.seen := by
  induction n generalizing p number with
  | zero => rfl
  | succ n ih =>
    cases hclose : p.close host pid w started with
    | some c =>
      rw [Poll.course_last hclose, (Poll.pollUntil_last hclose n).result, glancesFrom_cons]
      exact (found_eq p number).trans (by simp [glancesFrom])
    | none =>
      rw [Poll.course_again hclose, (Poll.pollUntil_again hclose (.self _ _)).result, glancesFrom_cons,
        List.foldl_append, ← found_eq]
      exact ih _ (number + 1)

theorem course_seen (n : Nat) (p : Poll σ) (number : Nat) {before later : List (Poll σ)} {q : Poll σ}
    (h : p.course host pid w started n = before ++ q :: later) :
    q.seen = (glancesFrom host w number before).foldl Glance.note p.seen := by
  induction n generalizing p number before with
  | zero => simp [Poll.course] at h
  | succ n ih =>
    cases hclose : p.close host pid w started with
    | some c =>
      rw [Poll.course_last hclose] at h
      obtain ⟨rfl, hq⟩ | ⟨-, hq⟩ := List.singleton_eq_append_iff.mp h
      · obtain ⟨rfl, -⟩ := List.cons.inj hq
        rfl
      · cases hq
    | none =>
      rw [Poll.course_again hclose] at h
      cases before with
      | nil =>
        obtain ⟨rfl, -⟩ := List.cons.inj h
        rfl
      | cons p' before =>
        obtain ⟨rfl, hrest⟩ := List.cons.inj h
        rw [glancesFrom_cons, List.foldl_append, ← found_eq]
        exact ih _ (number + 1) hrest

theorem glancesFrom_append (number : Nat) (before later : List (Poll σ)) :
    glancesFrom host w number (before ++ later) =
      glancesFrom host w number before ++ glancesFrom host w (number + before.length) later := by
  unfold glancesFrom
  rw [List.zipIdx_append, List.flatMap_append]

end Glances

theorem observe_seen (host : Host σ) (pid : Pid) (w : Watch) (st : σ) :
    ((observe pid w).run host st).1.seen =
      (glances host w (watchPolls host pid w st)).foldl Glance.note [] := by
  obtain ⟨later, hyields⟩ := observe_yields rfl (.self (pollUntil pid w _ [] w.polls) _)
  rw [hyields.result]
  exact pollUntil_seen w.polls ⟨[], (host.answer .clock st).2⟩ 0

/-- What a watch has seen in the end, and what it had seen when each of its polls began, are the paths
that were hit by then, each once, in the order in which they were first hit. None is dropped again,
whatever becomes of it. -/
theorem observe_remembers (host : Host σ) (pid : Pid) (w : Watch) (st : σ) :
    let polls := watchPolls host pid w st
    let seen := ((observe pid w).run host st).1.seen
    seen ⊆ w.paths ∧ Remembers (glances host w polls) seen ∧
      ∀ before p later, polls = before ++ p :: later →
        Remembers (glances host w before) p.seen ∧ p.seen <+: seen := by
  intro polls seen
  have hseen : seen = (glances host w polls).foldl Glance.note [] := observe_seen host pid w st
  refine ⟨fun p hp => ?_, ?_, fun before p later hpolls => ?_⟩
  · exact ((observe_recalls pid w st).watched p hp).resolve_left List.not_mem_nil
  · rw [hseen]
    exact remembers_foldl (glances_before 0 polls)
  · have hbefore : p.seen = (glances host w before).foldl Glance.note [] :=
      course_seen w.polls ⟨[], (host.answer .clock st).2⟩ 0 hpolls
    constructor
    · rw [hbefore]
      exact remembers_foldl (glances_before 0 before)
    · rw [hseen, hpolls, hbefore]
      unfold glances
      rw [glancesFrom_append, List.foldl_append]
      exact prefix_foldl_note _ _

end Observation

end SmokeBench
