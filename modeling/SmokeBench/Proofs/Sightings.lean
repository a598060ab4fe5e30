import SmokeBench.Proofs.Requests

/-! What a watch has seen. A path counts as seen exactly if a look at it, however it was spelled,
found something there. Each poll adds to what the polls before it saw and drops nothing, so this
holds of the whole watch, whatever ended it. -/

namespace SmokeBench

open Dialogue

variable {σ : Type} {host : Host σ}

/-- A look at this path, or at the same one in another spelling, found something. -/
def Sighted (j : List Exchange) (q : Path) : Prop :=
  ∃ p m, (⟨.metadata p, .ok m⟩ : Exchange) ∈ j ∧ p.sameAs q

def Request.looks : Request → Bool
  | metadata _ => true
  | _ => false

theorem sighted_append {i j : List Exchange} {q : Path} :
    Sighted (i ++ j) q ↔ Sighted i q ∨ Sighted j q := by
  constructor
  · rintro ⟨p, m, hmem, hsame⟩
    exact (List.mem_append.mp hmem).imp (fun h => ⟨p, m, h, hsame⟩) fun h => ⟨p, m, h, hsame⟩
  · rintro (⟨p, m, hmem, hsame⟩ | ⟨p, m, hmem, hsame⟩)
    · exact ⟨p, m, List.mem_append_left _ hmem, hsame⟩
    · exact ⟨p, m, List.mem_append_right _ hmem, hsame⟩

theorem Sighted.mono {i j : List Exchange} {q : Path} (h : Sighted i q) (hij : i ⊆ j) : Sighted j q := by
  obtain ⟨p, m, hmem, hsame⟩ := h
  exact ⟨p, m, hij hmem, hsame⟩

theorem Request.looks_of_handles {r : Request} (h : r.handles) : r.looks = false := by
  cases r <;> first | rfl | cases h

theorem Dialogue.Only.unsighted {α : Type} {d : Dialogue α} (h : d.Only fun r => r.looks = false)
    (s : σ) (q : Path) : ¬ Sighted (d.journal host s) q := by
  rintro ⟨p, m, hmem, -⟩
  exact Bool.noConfusion (h.journal s _ hmem)

namespace Observation

/-- From one list of seen paths to a later one: what was sighted in between is added to it, and
every path added is one of those watched. -/
structure Recalls (paths before after : List Path) (j : List Exchange) : Prop where
  saw : ∀ q, after.any (·.sameAs q) ↔ before.any (·.sameAs q) ∨ Sighted j q
  watched : ∀ p ∈ after, p ∈ before ∨ p ∈ paths

namespace Recalls

variable {paths a b c : List Path} {i j : List Exchange}

theorem trans (hab : Recalls paths a b i) (hbc : Recalls paths b c j) :
    Recalls paths a c (i ++ j) where
  saw q := by rw [hbc.saw, hab.saw, sighted_append, or_assoc]
  watched p hp := (hbc.watched p hp).elim (hab.watched p) .inr

theorem still (h : ∀ q, ¬ Sighted j q) : Recalls paths a a j where
  saw q := (or_iff_left (h q)).symm
  watched _ hp := .inl hp

theorem nothing : Recalls paths a a [] := .still fun q => by simp [Sighted]

theorem blind {α : Type} {d : Dialogue α} (h : d.Only fun r => r.looks = false) (s : σ) :
    Recalls paths a a (d.journal host s) := .still (h.unsighted s)

theorem asked {r : Request} (h : r.looks = false) (s : σ) :
    Recalls paths a a ((ask r).journal host s) :=
  .blind (only_ask (P := fun r => r.looks = false) h) s

end Recalls

theorem Recalls.looked {p : Path} (hp : p ∈ paths) (seen : List Path)
    (reply : Except IoError Metadata) :
    Recalls paths seen (match reply with | .ok _ => seen ++ [p] | .error _ => seen)
      [⟨.metadata p, reply⟩] := by
  cases reply with
  | error e =>
    refine .still fun q => ?_
    rintro ⟨x, m, hmem, -⟩
    cases List.mem_singleton.mp hmem
  | ok m =>
    refine ⟨fun q => ?_, fun x hx => ?_⟩
    · rw [List.any_append, Bool.or_eq_true, List.any_cons, List.any_nil, Bool.or_false]
      refine or_congr_right ⟨fun hsame => ⟨p, m, List.mem_singleton_self _, hsame⟩, ?_⟩
      rintro ⟨x, n, hmem, hsame⟩
      cases List.mem_singleton.mp hmem
      exact hsame
    · exact (List.mem_append.mp hx).imp_right fun h => by
        rw [List.mem_singleton.mp h]
        exact hp

theorem look_recalls {all paths : List Path} (hall : paths ⊆ all) (seen : List Path) (s : σ) :
    Recalls all seen ((look seen paths).run host s).1 ((look seen paths).journal host s) := by
  induction paths generalizing seen s with
  | nil => exact .nothing
  | cons p rest ih =>
    obtain ⟨hp, hrest⟩ := List.cons_subset.mp hall
    unfold look
    split
    · exact ih hrest seen s
    · rw [run_bind, journal_bind, run_ask, journal_ask]
      refine (Recalls.looked hp seen _).trans ?_
      cases (host.answer (.metadata p) s).1 with
      | ok m => exact ih hrest _ _
      | error e => exact ih hrest _ _

theorem pollUntil_recalls (pid : Pid) (w : Watch) (started : Instant) (seen : List Path) (polls : Nat)
    (s : σ) : Recalls w.paths seen ((pollUntil pid w started seen polls).run host s).1.1
      ((pollUntil pid w started seen polls).journal host s) := by
  induction polls generalizing seen s with
  | zero => exact .nothing
  | succ polls ih =>
    unfold pollUntil
    rw [run_bind, journal_bind]
    refine (look_recalls (List.Subset.refl _) seen s).trans ?_
    split
    · exact .nothing
    · rw [run_bind, journal_bind]
      refine (Recalls.blind (isRunning_asks rfl) _).trans ?_
      split
      · exact .nothing
      · rw [run_bind, journal_bind]
        refine (Recalls.asked (r := .clock) rfl _).trans ?_
        dsimp only
        split
        · exact .nothing
        · exact (Recalls.asked (r := .sleep _) rfl _).trans (ih _ _)

theorem observe_recalls (pid : Pid) (w : Watch) (s : σ) :
    Recalls w.paths [] ((observe pid w).run host s).1.seen ((observe pid w).journal host s) := by
  unfold observe
  rw [run_bind, journal_bind]
  refine (Recalls.asked (r := .clock) rfl s).trans ?_
  rw [run_bind, journal_bind]
  refine (pollUntil_recalls pid w _ [] _ _).trans ?_
  rw [run_bind, journal_bind]
  exact (Recalls.asked (r := .clock) rfl _).trans .nothing

end Observation

end SmokeBench
