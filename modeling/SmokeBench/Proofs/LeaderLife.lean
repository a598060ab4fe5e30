import SmokeBench.Proofs.SubjectEnds
import SmokeBench.Proofs.TimeBounds

/-! The leader of a subject as the bench gets to know it. A leader may end at any moment, by itself, on
a signal or never, also between two requests. What the bench is told is true: a look tells whether it
has ended by then, and a wait comes back when it has or when the deadline has passed. -/

namespace SmokeBench

open Dialogue

variable {σ : Type} {host : Host σ}

/-- The time of a host, and whether this leader has ended, and how. No timer needs to be exact, and a
wait or a look may fail. -/
structure Leader (host : Host σ) (pid : Pid) where
  time : σ → Instant
  ended : σ → Option ExitStatus
  read : ∀ s, (host.answer .clock s).1 = time s
  stays : ∀ r s, (ended s).isSome → ended (host.answer r s).2 = ended s
  polled : ∀ s known, (host.answer (.pollExit pid) s).1 = .ok known → known = ended s
  awaited : ∀ deadline s known, (host.answer (.awaitExit pid deadline) s).1 = .ok known →
    known = ended (host.answer (.awaitExit pid deadline) s).2
  patient : ∀ deadline s, (host.answer (.awaitExit pid deadline) s).1 = .ok none →
    deadline ≤ time (host.answer (.awaitExit pid deadline) s).2

namespace Leader

variable {pid : Pid} (life : Leader host pid)

theorem stays_after {st : σ} (h : (life.ended st).isSome) (j : List Exchange) :
    life.ended (after host st j) = life.ended st := by
  induction j generalizing st with
  | nil => rfl
  | cons x j ih =>
    have hstep := life.stays x.request st h
    exact (ih (hstep ▸ h)).trans hstep

theorem ended_of_told {st : σ} {j : List Exchange} (h : Genuine host st j) {x : Exchange}
    (hx : x ∈ j) {status : ExitStatus} (htells : TellsEnd pid status x) :
    life.ended (after host st j) = some status := by
  obtain ⟨i, k, rfl⟩ := List.append_of_mem hx
  rw [genuine_append] at h
  have hreply : x.reply = (host.answer x.request (after host st i)).1 := h.2.1
  have hthen : life.ended (host.answer x.request (after host st i)).2 = some status := by
    cases htells with
    | polled =>
      have hended := life.polled _ _ hreply.symm
      rw [life.stays _ _ (by rw [← hended]; rfl)]
      exact hended.symm
    | awaited deadline => exact (life.awaited _ _ _ hreply.symm).symm
  rw [after_append]
  exact (life.stays_after (by rw [hthen]; rfl) k).trans hthen

end Leader

/-- A leader that does not heed a request to end and is dead as soon as it is killed. -/
def Host.defiant : Host (Instant × Option ExitStatus) where
  answer r s := match r with
    | .clock => (s.1, s)
    | .sleep span => ((), (s.1 + span, s.2))
    | .pollExit _ => (.ok s.2, s)
    | .awaitExit _ deadline => (.ok s.2, (if s.2.isSome then s.1 else s.1.max deadline, s.2))
    | .signalGroup _ .term => (.ok (), s)
    | .signalGroup _ .kill | .killLeader _ => (.ok (), (s.1, s.2.or (some (.signaled 9))))
    | r => Host.still.answer r s

def Leader.defiant (pid : Pid) : Leader Host.defiant pid where
  time := Prod.fst
  ended := Prod.snd
  read _ := rfl
  stays r s h := by
    obtain ⟨time, status⟩ := s
    obtain ⟨status, rfl⟩ := Option.isSome_iff_exists.mp h
    cases r with
    | signalGroup g signal => cases signal <;> rfl
    | _ => rfl
  polled s known h := (Except.ok.inj h).symm
  awaited deadline s known h := (Except.ok.inj h).symm
  patient deadline s h := by
    obtain ⟨time, status⟩ := s
    obtain rfl : status = none := Except.ok.inj h
    exact Duration.le_max_right time deadline

end SmokeBench
