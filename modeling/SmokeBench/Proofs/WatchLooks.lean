import SmokeBench.Proofs.WatchCourse

/-! What the polls of a watch ask for. A poll asks for every watched path that was not found before, if
not in this spelling then in another one that is watched. So nothing that is still to be seen is passed
over, and this is read off the journal, poll by poll. -/

namespace SmokeBench

open Dialogue

variable {σ : Type} {host : Host σ}

namespace Observation

/-- These exchanges ask for this path, as it is spelled or as the same one is spelled elsewhere in the
list. -/
def AskedFor (paths : List Path) (j : List Exchange) (p : Path) : Prop :=
  ∃ q ∈ paths, q.sameAs p ∧ ∃ x ∈ j, x.request = .metadata q

/-- Each of these polls asks for every path that no poll before it has found. -/
def AsksForUnfound (paths : List Path) (ps : List (List Exchange)) : Prop :=
  ∀ before poll later, ps = before ++ poll :: later →
    ∀ p ∈ paths, (∃ b ∈ before, Sighted b p) ∨ AskedFor paths poll p

theorem AskedFor.mono {paths : List Path} {i j : List Exchange} {p : Path} (h : AskedFor paths i p)
    (hij : i ⊆ j) : AskedFor paths j p := by
  obtain ⟨q, hq, hsame, x, hx, hrequest⟩ := h
  exact ⟨q, hq, hsame, x, hij hx, hrequest⟩

theorem look_asksFor {paths : List Path} {p : Path} (hp : p ∈ paths) (seen : List Path) (st : σ) :
    seen.any (·.sameAs p) ∨ AskedFor paths ((look seen paths).journal host st) p := by
  by_cases hseen : ((look seen paths).run host st).1.any (·.sameAs p)
  · refine ((look_recalls (List.Subset.refl paths) seen st).saw p |>.mp hseen).imp_right ?_
    rintro ⟨q, m, hmem, hsame⟩
    have hwatched : (look seen paths).Only fun r => ∀ q, r = .metadata q → q ∈ paths :=
      look_asks (fun q hq q' heq => Request.metadata.inj heq ▸ hq) seen
    exact ⟨q, hwatched.journal st _ hmem q rfl, hsame, _, hmem, rfl⟩
  · obtain ⟨e, hmem⟩ := look_missed hp st hseen
    exact .inr ⟨p, hp, Path.sameAs_iff.mpr rfl, _, hmem, rfl⟩

namespace Poll

variable {pid : Pid} {w : Watch} {started : Instant} {p : Poll σ}

theorem look_subset_talk (c : Close) :
    (look p.seen w.paths).journal host p.start ⊆ p.talk host pid w c := by
  cases c with
  | complete => exact List.Subset.refl _
  | gone => exact List.subset_append_left _ _
  | closed => exact List.subset_append_left _ _

theorem talk_awake (c : Close) : ∀ x ∈ p.talk host pid w c, x.request.sleeps = false :=
  talk_asks (P := fun r => r.sleeps = false) (fun _ _ => rfl) rfl rfl c

/-- Each poll of a watch asks for what was neither seen before nor found by a poll in between. -/
theorem pollUntil_asksFor {n : Nat} {last : Poll σ} {c : Close} {head tail : List Exchange}
    (h : Closes host pid w started (course host pid w started n p) last c)
    (hhead : ∀ x ∈ head, x.request.sleeps = false) (htail : ∀ x ∈ tail, x.request.sleeps = false) :
    ∀ before poll later,
      polls (head ++ ((pollUntil pid w started p.seen n).journal host p.start ++ tail)) =
        before ++ poll :: later →
      ∀ q ∈ w.paths, p.seen.any (·.sameAs q) ∨ (∃ b ∈ before, Sighted b q) ∨
        AskedFor w.paths poll q := by
  -- on the polls left: what a poll has found is seen for the polls after it
  induction n generalizing p head with
  | zero => cases h.1
  | succ n ih =>
    intro before poll later hpolls q hq
    have hlook : p.seen.any (·.sameAs q) ∨
        AskedFor w.paths ((look p.seen w.paths).journal host p.start) q :=
      look_asksFor hq p.seen p.start
    cases hclose : p.close host pid w started with
    | some c' =>
      rw [(pollUntil_last hclose n).journal, polls_awake (List.forall_mem_append.mpr
        ⟨hhead, List.forall_mem_append.mpr ⟨talk_awake c', htail⟩⟩)] at hpolls
      obtain ⟨rfl, hpoll⟩ | ⟨-, hpoll⟩ := List.singleton_eq_append_iff.mp hpolls
      · obtain ⟨rfl, -⟩ := List.cons.inj hpoll
        refine hlook.imp_right fun hasked => .inr (hasked.mono fun x hx => ?_)
        exact List.mem_append_right _ (List.mem_append_left _ (look_subset_talk c' hx))
      · cases hpoll
    | none =>
      have hfirst : ∀ x ∈ head ++ p.talk host pid w .closed, x.request.sleeps = false :=
        List.forall_mem_append.mpr ⟨hhead, talk_awake .closed⟩
      have hin : (look p.seen w.paths).journal host p.start ⊆ head ++ p.talk host pid w .closed :=
        fun x hx => List.mem_append_right _ (look_subset_talk .closed hx)
      rw [(pollUntil_again hclose (.self _ _)).journal, List.append_assoc, ← List.append_assoc,
        List.cons_append, polls_slept hfirst rfl] at hpolls
      cases before with
      | nil =>
        obtain ⟨rfl, -⟩ := List.cons.inj hpolls
        exact hlook.imp_right fun hasked => .inr (hasked.mono hin)
      | cons b before =>
        obtain ⟨rfl, hrest⟩ := List.cons.inj hpolls
        rcases ih (h.of_again hclose) (List.forall_mem_nil _) before poll later hrest q hq with
          hseen | ⟨b, hb, hsighted⟩ | hasked
        · refine ((look_recalls (List.Subset.refl w.paths) p.seen p.start).saw q |>.mp hseen).imp_right
            fun hsighted => .inl ⟨_, List.mem_cons_self, hsighted.mono hin⟩
        · exact .inr (.inl ⟨b, List.mem_cons_of_mem _ hb, hsighted⟩)
        · exact .inr (.inr hasked)

end Poll

theorem observe_asksForUnfound {pid : Pid} {w : Watch} {st : σ} {last : Poll σ} {c : Close}
    (h : Poll.Closes host pid w (host.answer .clock st).1 (watchPolls host pid w st) last c) :
    AsksForUnfound w.paths (polls ((observe pid w).journal host st)) := by
  obtain ⟨later, hjournal⟩ := observe_journal host pid w st
  rw [hjournal]
  intro before poll rest hpolls p hp
  have hclock (time : Instant) : ∀ x ∈ [(⟨.clock, time⟩ : Exchange)], x.request.sleeps = false :=
    List.forall_mem_singleton.mpr rfl
  have hasks := Poll.pollUntil_asksFor h (hclock _) (hclock later) before poll rest hpolls p hp
  exact hasks.resolve_left (by simp)

/-- The last poll is what is exchanged after the last sleep, and the others are part of what was exchanged
before. -/
theorem polls_last (j : List Exchange) : ∃ before earlier poll, polls j = before ++ [poll] ∧
    j = earlier ++ poll ∧ (∀ b ∈ before, b ⊆ earlier) ∧ ∀ x ∈ poll, x.request.sleeps = false := by
  have hlast : ∃ before earlier poll, polls j = before ++ [poll] ∧ j = earlier ++ poll ∧
      (before = [] → earlier = []) ∧ (∀ b ∈ before, b ⊆ earlier) ∧
      ∀ x ∈ poll, x.request.sleeps = false := by
    induction j with
    | nil => exact ⟨[], [], [], rfl, rfl, fun _ => rfl, nofun, nofun⟩
    | cons x j ih =>
      obtain ⟨before, earlier, poll, hpolls, rfl, hfirst, hwithin, hawake⟩ := ih
      have hlater : ∀ b ∈ before, b ⊆ x :: earlier := fun b hb =>
        List.Subset.trans (hwithin b hb) (List.subset_cons_self x earlier)
      rw [polls_cons, hpolls]
      cases hsleeps : x.request.sleeps with
      | true =>
        exact ⟨[] :: before, x :: earlier, poll, rfl, rfl, nofun,
          List.forall_mem_cons.mpr ⟨List.nil_subset _, hlater⟩, hawake⟩
      | false =>
        cases before with
        | nil =>
          obtain rfl := hfirst rfl
          exact ⟨[], [], x :: poll, rfl, rfl, fun _ => rfl, nofun,
            List.forall_mem_cons.mpr ⟨hsleeps, hawake⟩⟩
        | cons b before =>
          obtain ⟨hb, hbefore⟩ := List.forall_mem_cons.mp hwithin
          exact ⟨(x :: b) :: before, x :: earlier, poll, rfl, rfl, nofun,
            List.forall_mem_cons.mpr
              ⟨List.cons_subset_cons x hb, (List.forall_mem_cons.mp hlater).2⟩, hawake⟩
  obtain ⟨before, earlier, poll, hpolls, hj, -, hwithin, hawake⟩ := hlast
  exact ⟨before, earlier, poll, hpolls, hj, hwithin, hawake⟩

end Observation

end SmokeBench
