import Mathlib.Tactic.SplitIfs
import SmokeBench.Proofs.Requests

/-! Who outlives a subject. Every way to end a subject that yields a run result kills the rest of
its group, and then nobody is left. The ways that yield none, a wait that fails and a handle that is
dropped, kill the leader alone: the rest of the group is never signalled and lives on. -/

namespace SmokeBench

open Dialogue

def Killed (pid : Pid) (j : List Exchange) : Prop :=
  ∃ reply, (⟨.signalGroup pid .kill, reply⟩ : Exchange) ∈ j

theorem killed_append {pid : Pid} {i j : List Exchange} :
    Killed pid (i ++ j) ↔ Killed pid i ∨ Killed pid j := by
  simp only [Killed, List.mem_append, exists_or]

/-- How the handle of a subject comes to its end. -/
inductive Ending
  | bounded (timeout : Duration)
  | stopped (grace : Duration)
  | dropped

namespace Ending

/-- What is done at an ending, with the run result if there is one. -/
def dialogue (r : Runner) (s : Subject) : Ending → Dialogue (Option RunResult)
  | bounded timeout => Except.toOption <$> r.conclude s timeout
  | stopped grace => Except.toOption <$> r.stop s grace
  | dropped => do
    ask (.release s.pid)
    return none

theorem dialogue_only (r : Runner) (s : Subject) (e : Ending) :
    (e.dialogue r s).Only (Request.Attends s.pid) := by
  cases e with
  | bounded timeout => exact (r.conclude_only s timeout).map _
  | stopped grace => exact (r.stop_only s grace).map _
  | dropped => exact (only_ask (by exact rfl)).bind fun _ => only_pure _

end Ending

variable {σ : Type} {host : Host σ}

section

variable {α β : Type} {pid : Pid} {d : Dialogue α} {f : α → Dialogue β} {st : σ}

theorem killed_first (h : Killed pid (d.journal host st)) :
    Killed pid ((d >>= f).journal host st) := by
  rw [journal_bind, killed_append]
  exact .inl h

theorem killed_then (h : Killed pid ((f (d.run host st).1).journal host (d.run host st).2)) :
    Killed pid ((d >>= f).journal host st) := by
  rw [journal_bind, killed_append]
  exact .inr h

theorem not_killed (h : d.Only (· ≠ .signalGroup pid .kill)) (st : σ) :
    ¬Killed pid (d.journal host st) :=
  fun ⟨_, hmem⟩ => h.journal st _ hmem rfl

end

/-- The group is sent a kill exactly if the dialogue comes to a result. -/
def KillsForResult (host : Host σ) (pid : Pid) (d : Dialogue (Except RunError RunResult)) (st : σ) :
    Prop :=
  Killed pid (d.journal host st) ↔ (d.run host st).1.toOption.isSome = true

theorem KillsForResult.bind {α : Type} {pid : Pid} {d : Dialogue α}
    {f : α → Dialogue (Except RunError RunResult)} {st : σ}
    (hd : d.Only (· ≠ .signalGroup pid .kill))
    (hf : KillsForResult host pid (f (d.run host st).1) (d.run host st).2) :
    KillsForResult host pid (d >>= f) st := by
  unfold KillsForResult
  rw [run_bind, journal_bind, killed_append, or_iff_right (not_killed hd st)]
  exact hf

namespace Runner

variable (r : Runner) (s : Subject) (st : σ)

theorem sendSignal_killed : Killed s.pid ((sendSignal s .kill).journal host st) :=
  killed_first ⟨_, List.mem_singleton_self _⟩

theorem finish_killed (status : Option ExitStatus) (c : Completion) :
    Killed s.pid ((r.finish s status c).journal host st) := by
  refine killed_then (killed_first ?_)
  exact (journal_map host _ _ _).symm ▸ sendSignal_killed s _

theorem finish_kills (status : Option ExitStatus) (c : Completion) :
    KillsForResult host s.pid (.ok <$> r.finish s status c) st := by
  unfold KillsForResult
  rw [run_map, journal_map]
  exact iff_of_true (r.finish_killed s st status c) rfl

theorem giveUp_kills (e : IoError) : KillsForResult host s.pid (giveUp s e) st :=
  .bind (only_ask (by simp)) (iff_of_false (not_killed (only_pure _) _) (by simp [Except.toOption]))

theorem killAndReap_kills (c : Completion) :
    KillsForResult host s.pid (do
      let status ← r.killAndReap s
      .ok <$> r.finish s status c) st := by
  unfold KillsForResult
  rw [run_bind, run_map]
  refine iff_of_true (killed_then ?_) rfl
  rw [journal_map]
  exact r.finish_killed s _ _ c

theorem awaitFor_spares (span : Duration) : (awaitFor s span).Only (· ≠ .signalGroup s.pid .kill) :=
  (only_ask (by simp)).bind fun _ => only_ask (by simp)

theorem conclude_kills (timeout : Duration) :
    KillsForResult host s.pid (r.conclude s timeout) st := by
  refine .bind (awaitFor_spares s timeout) ?_
  split
  · exact giveUp_kills s _ _
  · exact r.finish_kills s _ _ _
  · exact r.killAndReap_kills s _ _

theorem stop_kills (grace : Duration) : KillsForResult host s.pid (r.stop s grace) st := by
  refine .bind (only_ask (by simp)) ?_
  split
  · exact giveUp_kills s _ _
  · exact r.finish_kills s _ _ _
  · refine .bind (sendSignal_only (by simp)) ?_
    split
    · exact r.killAndReap_kills s _ _
    · refine .bind (awaitFor_spares s grace) ?_
      split
      · exact giveUp_kills s _ _
      · exact r.finish_kills s _ _ _
      · exact r.killAndReap_kills s _ _

end Runner

/-- Who is alive in which group, on a host that delivers a kill to every member. Only a spawn makes
a new group: where nobody is left, nobody can be born. -/
structure Kernel (host : Host σ) where
  member : σ → Pid → Pid → Prop
  killed : ∀ s g, (host.answer (.signalGroup g .kill) s).1 = .ok () →
    ∀ q, ¬member (host.answer (.signalGroup g .kill) s).2 g q
  absent : ∀ s g, (host.answer (.signalGroup g .kill) s).1 = .error .noSuchProcess →
    ∀ q, ¬member (host.answer (.signalGroup g .kill) s).2 g q
  closed : ∀ r s g, r.handles → (∀ q, ¬member s g q) → ∀ q, ¬member (host.answer r s).2 g q

/-- The kernel found nobody in the group, or killed all it found. -/
def Delivered (pid : Pid) (j : List Exchange) : Prop :=
  ∀ reply, (⟨.signalGroup pid .kill, reply⟩ : Exchange) ∈ j →
    reply = .ok () ∨ reply = .error .noSuchProcess

/-- Once a group is killed it stays empty to the end of the dialogue. -/
theorem Kernel.empty_of_killed (kernel : Kernel host) {α : Type} {pid : Pid} {d : Dialogue α}
    (h : d.Only (Request.handles ·)) {st : σ} (hkilled : Killed pid (d.journal host st))
    (hdelivered : Delivered pid (d.journal host st)) (q : Pid) :
    ¬kernel.member (d.run host st).2 pid q := by
  induction d generalizing st with
  | done a =>
    obtain ⟨reply, hmem⟩ := hkilled
    cases hmem
  | ask r k ih =>
    obtain ⟨reply, hmem⟩ := hkilled
    rcases List.mem_cons.mp hmem with heq | hlater
    · have hempty : ∀ q, ¬kernel.member (host.answer r st).2 pid q := by
        cases heq
        rcases hdelivered _ List.mem_cons_self with hok | habsent
        · exact kernel.killed st pid hok
        · exact kernel.absent st pid habsent
      exact (h.2 _).invariant (I := fun s => ∀ q, ¬kernel.member s pid q)
        (fun r s hr hs => kernel.closed r s pid hr hs) hempty q
    · refine ih _ (h.2 _) ⟨reply, hlater⟩ fun reply hmem => ?_
      exact hdelivered reply (List.mem_cons_of_mem _ hmem)

/-- A group of one leader and some helpers, for a host that answers every wait alike. -/
structure Pack where
  leader : Bool
  helpers : List Pid
  deriving DecidableEq

namespace Pack

/-- The leader as a reply to a wait leaves it. -/
def waited (s : Pack) : Except IoError (Option ExitStatus) → Pack
  | .ok (some _) => { s with leader := false }
  | _ => s

/-- A kill to group `g`, where `pid` leads the only group. -/
def slay (pid g : Pid) (s : Pack) : Except IoError Unit × Pack :=
  if g = pid ∧ s ≠ ⟨false, []⟩ then (.ok (), ⟨false, []⟩) else (.error .noSuchProcess, s)

end Pack

/-- A kernel with one group, where the helpers heed a kill only. -/
def Host.pack (pid : Pid) (poll wait : Except IoError (Option ExitStatus)) : Host Pack where
  answer r s := match r with
    | .signalGroup g .kill => s.slay pid g
    | .signalGroup _ .term => (.ok (), s)
    | .killLeader _ => (.ok (), { s with leader := false })
    | .release _ => ((), { s with leader := false })
    | .pollExit _ => (poll, s.waited poll)
    | .awaitExit _ _ => (wait, s.waited wait)
    | .spawn _ _ => (.ok pid, { s with leader := true })
    | r => Host.still.answer r s

namespace Pack

variable {pid : Pid} {poll wait : Except IoError (Option ExitStatus)}

theorem slay_own (s : Pack) : (s.slay pid pid).2 = ⟨false, []⟩ := by
  unfold slay
  split_ifs with h
  · rfl
  · simpa using h

theorem slay_other (s : Pack) {g : Pid} (h : g ≠ pid) : (s.slay pid g).2 = s := by
  rw [slay, if_neg fun hg => h hg.1]

theorem waited_empty (reply : Except IoError (Option ExitStatus)) :
    (⟨false, []⟩ : Pack).waited reply = ⟨false, []⟩ := by
  rcases reply with e | _ | status <;> rfl

theorem waited_helpers (s : Pack) (reply : Except IoError (Option ExitStatus)) :
    (s.waited reply).helpers = s.helpers := by
  rcases reply with e | _ | status <;> rfl

theorem empty_stays {r : Request} (h : r.handles) :
    ((Host.pack pid poll wait).answer r ⟨false, []⟩).2 = ⟨false, []⟩ := by
  cases r with
  | signalGroup g signal =>
    cases signal with
    | term => rfl
    | kill =>
      by_cases hg : g = pid
      · exact hg ▸ slay_own _
      · exact slay_other _ hg
  | pollExit p => exact waited_empty poll
  | awaitExit p deadline => exact waited_empty wait
  | killLeader p => rfl
  | release p => rfl
  | clock => rfl
  | drain p pipe deadline => rfl
  | _ => cases h

def Member (pid : Pid) (s : Pack) (g q : Pid) : Prop :=
  g = pid ∧ ((s.leader = true ∧ q = pid) ∨ q ∈ s.helpers)

theorem no_member (g q : Pid) : ¬Member pid ⟨false, []⟩ g q := by
  rintro ⟨-, ⟨h, -⟩ | h⟩ <;> cases h

theorem eq_empty {s : Pack} (h : ∀ q, ¬Member pid s pid q) : s = ⟨false, []⟩ := by
  obtain ⟨leader, helpers⟩ := s
  cases leader with
  | true => exact absurd ⟨rfl, .inl ⟨rfl, rfl⟩⟩ (h pid)
  | false =>
    cases helpers with
    | nil => rfl
    | cons q rest => exact absurd ⟨rfl, .inr List.mem_cons_self⟩ (h q)

theorem slain (s : Pack) (g q : Pid) : ¬Member pid (s.slay pid g).2 g q := by
  rintro ⟨rfl, hq⟩
  rw [slay_own] at hq
  exact no_member g q ⟨rfl, hq⟩

def kernel (pid : Pid) (poll wait : Except IoError (Option ExitStatus)) :
    Kernel (Host.pack pid poll wait) where
  member := Member pid
  killed s g _ q := slain s g q
  absent s g _ q := slain s g q
  closed r s g hr hempty q := by
    rintro ⟨rfl, hq⟩
    rw [eq_empty hempty, empty_stays hr] at hq
    exact no_member g q ⟨rfl, hq⟩

theorem helpers_after {j : List Exchange} (h : ¬Killed pid j) (s : Pack) :
    (after (Host.pack pid poll wait) s j).helpers = s.helpers := by
  induction j generalizing s with
  | nil => rfl
  | cons x j ih =>
    obtain ⟨r, reply⟩ := x
    have hrest := ih (fun ⟨reply, hmem⟩ => h ⟨reply, List.mem_cons_of_mem _ hmem⟩)
      ((Host.pack pid poll wait).answer r s).2
    refine hrest.trans ?_
    cases r with
    | signalGroup g signal =>
      cases signal with
      | term => rfl
      | kill =>
        have hother : g ≠ pid := by
          rintro rfl
          exact h ⟨reply, List.mem_cons_self⟩
        exact congrArg Pack.helpers (slay_other s hother)
    | pollExit p => exact waited_helpers s poll
    | awaitExit p deadline => exact waited_helpers s wait
    | _ => rfl

theorem slay_reply (s : Pack) (g : Pid) :
    (s.slay pid g).1 = .ok () ∨ (s.slay pid g).1 = .error .noSuchProcess := by
  unfold slay
  split_ifs
  · exact .inl rfl
  · exact .inr rfl

theorem delivered {j : List Exchange} {s : Pack} (h : Genuine (Host.pack pid poll wait) s j) :
    Delivered pid j := by
  induction j generalizing s with
  | nil =>
    intro reply hmem
    cases hmem
  | cons x j ih =>
    intro reply hmem
    rcases List.mem_cons.mp hmem with heq | hlater
    · subst heq
      have hreply : reply = (s.slay pid pid).1 := h.1
      exact hreply ▸ slay_reply s pid
    · exact ih h.2 reply hlater

end Pack

namespace Ending

theorem killed_iff (e : Ending) (r : Runner) (s : Subject) (st : σ) :
    Killed s.pid ((e.dialogue r s).journal host st) ↔
      ((e.dialogue r s).run host st).1.isSome = true := by
  cases e with
  | bounded timeout =>
    rw [dialogue, journal_map, run_map]
    exact r.conclude_kills s st timeout
  | stopped grace =>
    rw [dialogue, journal_map, run_map]
    exact r.stop_kills s st grace
  | dropped =>
    refine iff_of_false (not_killed ?_ st) Bool.false_ne_true
    exact (only_ask (by simp)).bind fun _ => only_pure _

/-- The rest of a group is killed at an ending exactly if this gives a run result, and then nobody
of the group is left. Otherwise whoever does not end by himself lives on. -/
theorem outlived_iff_no_result (e : Ending) (r : Runner) (s : Subject) (host : Host σ) (st : σ) :
    (Killed s.pid ((e.dialogue r s).journal host st) ↔
      ((e.dialogue r s).run host st).1.isSome = true) ∧
    (∀ kernel : Kernel host, ((e.dialogue r s).run host st).1.isSome = true →
      Delivered s.pid ((e.dialogue r s).journal host st) →
      ∀ q, ¬kernel.member ((e.dialogue r s).run host st).2 s.pid q) ∧
    ∀ poll wait pack, ((e.dialogue r s).run (Host.pack s.pid poll wait) pack).1.isSome = false →
      ((e.dialogue r s).run (Host.pack s.pid poll wait) pack).2.helpers = pack.helpers := by
  refine ⟨e.killed_iff r s st, fun kernel hresult hdelivered q => ?_,
    fun poll wait pack hnone => ?_⟩
  · have hkilled := (e.killed_iff r s st).mpr hresult
    have honly := (e.dialogue_only r s).mono fun _ => Request.handles_of_attends
    exact kernel.empty_of_killed honly hkilled hdelivered q
  · rw [← after_journal]
    refine Pack.helpers_after (fun hkilled => ?_) pack
    rw [(e.killed_iff r s pack).mp hkilled] at hnone
    cases hnone

/-- A subject that ignores the request to end, with one helper. -/
theorem nobody_outlives_stopped_handle :
    let pack := Host.pack 7 (.ok none) (.ok none)
    let stop := (stopped (.ofSecs 1)).dialogue .standard ⟨.ofString "/bin/p", 7, .zero⟩
    (stop.run pack ⟨true, [8]⟩).1.isSome = true ∧ Delivered 7 (stop.journal pack ⟨true, [8]⟩) ∧
    ∀ q, ¬(Pack.kernel 7 (.ok none) (.ok none)).member (stop.run pack ⟨true, [8]⟩).2 7 q := by
  intro pack stop
  have hdelivered : Delivered 7 (stop.journal pack ⟨true, [8]⟩) :=
    Pack.delivered (genuine_journal _ _)
  have hnobody := (outlived_iff_no_result (stopped (.ofSecs 1)) .standard
    ⟨.ofString "/bin/p", 7, .zero⟩ pack ⟨true, [8]⟩).2.1 (Pack.kernel 7 _ _) rfl hdelivered
  exact ⟨rfl, hdelivered, hnobody⟩

theorem helper_outlives_dropped_handle :
    let drop := dropped.dialogue .standard ⟨.ofString "/bin/p", 7, .zero⟩
    let kernel := Pack.kernel 7 (.ok none) (.ok none)
    let final := (drop.run (Host.pack 7 (.ok none) (.ok none)) ⟨true, [8]⟩).2
    kernel.member ⟨true, [8]⟩ 7 8 ∧ ¬kernel.member final 7 7 ∧ kernel.member final 7 8 := by
  refine ⟨⟨rfl, .inr List.mem_cons_self⟩, ?_, ⟨rfl, .inr List.mem_cons_self⟩⟩
  rintro ⟨-, ⟨h, -⟩ | h⟩
  · cases h
  · exact absurd (show 7 ∈ [8] from h) (by decide)

end Ending

end SmokeBench
