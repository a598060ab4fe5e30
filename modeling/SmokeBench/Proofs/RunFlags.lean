import SmokeBench.Check
import SmokeBench.Proofs.LeaderLife

/-! The flags of a result. They are put together from how the run was brought to its end and from what
was told of the leader, which may be anything or nothing: a leader can end by itself after its deadline
and before its kill, and one that was killed may never be reaped. No such mixture looks like a pass. -/

namespace SmokeBench

open Dialogue

variable {σ : Type} {host : Host σ}

/-- A result whose flags, exit code and signal go together, and that fails its checks if it is
overdue. -/
structure RunResult.Coherent (result : RunResult) : Prop where
  exclusive : ¬(result.timedOut = true ∧ result.escalated = true)
  codeless : result.timedOut = true → result.exitCode = none
  oneEnd : ¬(result.exitCode.isSome ∧ result.signal.isSome)
  exit_fails : result.timedOut = true →
    ∀ expected, (Check.exitCodeIs result expected).outcome = .fail
  time_fails : result.timedOut = true →
    ∀ limit, (Check.completedWithin result limit).outcome = .fail

/-- A result shows an exit code only of a leader that exited with it, and a leader that has died by a
signal, or will, passes no check of its exit code. -/
structure Leader.ShownBy {pid : Pid} (life : Leader host pid) (st : σ) (result : RunResult) :
    Prop where
  own : ∀ code, result.exitCode = some code →
    ∃ n : Nat, life.ended st = some (.exited n) ∧ code = n
  struck : ∀ j n, life.ended (after host st j) = some (.signaled n) →
    ∀ expected, (Check.exitCodeIs result expected).outcome = .fail

theorem Check.exitCodeIs_fails {result : RunResult} (h : result.exitCode = none)
    (expected : ExitExpectation) : (exitCodeIs result expected).outcome = .fail := by
  unfold exitCodeIs
  rw [h]
  dsimp only
  split
  · rfl
  · split <;> rfl

theorem Check.completedWithin_fails {result : RunResult} (h : result.timedOut = true)
    (limit : Duration) : (completedWithin result limit).outcome = .fail := by
  unfold completedWithin
  rw [if_pos h]
  rfl

namespace Runner

variable {status : Option ExitStatus} {c : Completion} {out err : Bytes} {elapsed : Duration}

theorem resultOf_timedOut :
    (resultOf status c out err elapsed).timedOut = true ↔ c = .timedOut := decide_eq_true_iff

theorem resultOf_escalated :
    (resultOf status c out err elapsed).escalated = true ↔ c = .escalated := decide_eq_true_iff

theorem resultOf_exitCode {code : Int}
    (h : (resultOf status c out err elapsed).exitCode = some code) :
    ∃ n : Nat, status = some (.exited n) ∧ code = n := by
  dsimp only [resultOf] at h
  split at h
  · cases h
  · obtain ⟨told, rfl, hcode⟩ := Option.bind_eq_some_iff.mp h
    cases told with
    | exited n => exact ⟨n, rfl, (Option.some.inj hcode).symm⟩
    | signaled n => cases hcode

theorem resultOf_signal (h : (resultOf status c out err elapsed).signal.isSome) :
    ∃ n, status = some (.signaled n) := by
  obtain ⟨signal, hsignal⟩ := Option.isSome_iff_exists.mp h
  obtain ⟨told, rfl, htold⟩ := Option.bind_eq_some_iff.mp hsignal
  cases told with
  | exited n => cases htold
  | signaled n => exact ⟨n, rfl⟩

theorem resultOf_coherent : (resultOf status c out err elapsed).Coherent := by
  have hcodeless : (resultOf status c out err elapsed).timedOut = true →
      (resultOf status c out err elapsed).exitCode = none := by
    intro h
    rw [resultOf_timedOut] at h
    exact if_pos h
  refine ⟨?_, hcodeless, ?_, fun h => Check.exitCodeIs_fails (hcodeless h),
    Check.completedWithin_fails⟩
  · rw [resultOf_timedOut, resultOf_escalated]
    rintro ⟨rfl, ⟨⟩⟩
  · rintro ⟨hcode, hsignal⟩
    obtain ⟨code, hcode⟩ := Option.isSome_iff_exists.mp hcode
    obtain ⟨n, rfl, -⟩ := resultOf_exitCode hcode
    obtain ⟨m, hm⟩ := resultOf_signal hsignal
    cases hm

end Runner

namespace Reports

variable {pid : Pid} {c : Completion} {j : List Exchange} {result : RunResult}

theorem coherent (h : Reports pid c j result) : result.Coherent := by
  cases h
  exact Runner.resultOf_coherent

theorem not_timedOut (h : Reports pid c j result) (hc : c ≠ .timedOut) :
    result.timedOut = false := by
  cases h
  exact decide_eq_false hc

theorem not_escalated (h : Reports pid c j result) (hc : c ≠ .escalated) :
    result.escalated = false := by
  cases h
  exact decide_eq_false hc

theorem shownBy {st : σ} (h : Reports pid c j result) (life : Leader host pid)
    (hgenuine : Genuine host st j) : life.ShownBy (after host st j) result := by
  have hown : ∀ code, result.exitCode = some code →
      ∃ n : Nat, life.ended (after host st j) = some (.exited n) ∧ code = n := by
    intro code hcode
    obtain ⟨deadline, err, elapsed, htold, hout⟩ := h
    obtain ⟨n, hstatus, hn⟩ := Runner.resultOf_exitCode hcode
    obtain ⟨x, hx, htells⟩ := htold _ hstatus
    exact ⟨n, life.ended_of_told hgenuine hx htells, hn⟩
  refine ⟨hown, fun k n hdied => Check.exitCodeIs_fails ?_⟩
  -- A code would tell that the leader had exited, and then it could not have died later.
  rw [Option.eq_none_iff_forall_ne_some]
  intro code hcode
  obtain ⟨m, hended, -⟩ := hown code hcode
  rw [life.stays_after (by rw [hended]; rfl), hended] at hdied
  cases hdied

end Reports

namespace Runner

/-- Whatever a subject does, its result is coherent and shows of its leader what is true, a bounded run
never says that it had to escalate, and a stop never says that a deadline has passed. -/
theorem results_coherent (r : Runner) (host : Host σ) (st : σ) :
    (∀ path args timeout result,
      ((r.runBounded path args timeout).run host st).1 = .ok result →
      result.Coherent ∧ result.escalated = false ∧
        ∃ pid, (⟨.spawn path args, .ok pid⟩ : Exchange) ∈
            (r.runBounded path args timeout).journal host st ∧
          ∀ life : Leader host pid,
            life.ShownBy ((r.runBounded path args timeout).run host st).2 result) ∧
    ∀ s grace result, ((r.stop s grace).run host st).1 = .ok result →
      result.Coherent ∧ result.timedOut = false ∧
        ∀ life : Leader host s.pid, life.ShownBy ((r.stop s grace).run host st).2 result := by
  refine ⟨fun path args timeout result hresult => ?_, fun s grace result hresult => ?_⟩
  · have hruns := r.runBounded_runsBounded host st path args timeout
    rw [hresult] at hruns
    obtain ⟨pid, hpid, c, hc, hreports⟩ := hruns.reports
    refine ⟨hreports.coherent, hreports.not_escalated hc, pid, hpid, fun life => ?_⟩
    rw [← after_journal]
    exact hreports.shownBy life (genuine_journal _ st)
  · have hstops := r.stop_stops s host st grace
    rw [hresult] at hstops
    obtain ⟨c, hc, hreports⟩ := hstops.reports
    refine ⟨hreports.coherent, hreports.not_timedOut hc, fun life => ?_⟩
    rw [← after_journal]
    exact hreports.shownBy life (genuine_journal _ st)

/-- A subject that never ends is killed at its deadline, and who expects of it any exit code but zero is
told that it failed. Stopped, it shows by which signal it has died. -/
theorem results_coherent_defiant :
    (∃ result, ((standard.runBounded (.ofString "/bin/p") [] (.ofSecs 1)).run Host.defiant
        (.zero, none)).1 = .ok result ∧
      result.timedOut = true ∧ (Check.exitCodeIs result .nonzero).outcome = .fail) ∧
    ∃ result, ((standard.stop ⟨.ofString "/bin/p", 7, .zero⟩ (.ofSecs 1)).run Host.defiant
        (.zero, none)).1 = .ok result ∧
      result.escalated = true ∧ (Check.exitCodeIs result .nonzero).outcome = .fail := by
  have hcoherent := results_coherent standard Host.defiant (.zero, none)
  let overdue : RunResult := ⟨none, some 9, "", "", .ofSecs 1, true, false⟩
  let stopped : RunResult := ⟨none, some 9, "", "", .ofSecs 1, false, true⟩
  have hoverdue : ((standard.runBounded (.ofString "/bin/p") [] (.ofSecs 1)).run Host.defiant
      (.zero, none)).1 = .ok overdue := rfl
  have hstopped : ((standard.stop ⟨.ofString "/bin/p", 7, .zero⟩ (.ofSecs 1)).run Host.defiant
      (.zero, none)).1 = .ok stopped := rfl
  have hshown := (hcoherent.2 _ _ _ hstopped).2.2 (Leader.defiant 7)
  exact ⟨⟨overdue, hoverdue, rfl, (hcoherent.1 _ _ _ _ hoverdue).1.exit_fails rfl .nonzero⟩,
    stopped, hstopped, rfl, hshown.struck [] 9 rfl .nonzero⟩

end Runner

end SmokeBench
