import Mathlib.Tactic.Set
import SmokeBench.Proofs.ProcessGroup

/-! Whom the kill of a group reaches. The bench names a group by the number of the subject that led
it. A number is reserved while a process or a group has it: until the bench has taken notice of the
end of the leader, and then for as long as somebody is left in the group. After that anybody may be
given the number and lead a new group of it. So the kill reaches the subject and its descendants
alone, unless a stranger has intruded: it was given the number when nobody was left, or it has joined
the group. -/

namespace SmokeBench

open Dialogue

/-- A process as the system knows it, and whether it descends from the subject or is the subject. -/
structure Proc where
  pid : Pid
  group : Pid
  kin : Bool
  ended : Bool
  deriving DecidableEq

/-- The processes of a system, also those that have ended and were not yet taken notice of, and
whether the bench has taken notice of the end of its subject. -/
structure Census where
  procs : List Proc
  reaped : Bool
  deriving DecidableEq

namespace Census

def Free (c : Census) (n : Pid) : Prop := ∀ p ∈ c.procs, p.pid ≠ n ∧ p.group ≠ n

instance (c : Census) (n : Pid) : Decidable (c.Free n) := inferInstanceAs (Decidable (∀ p ∈ _, _))

def strike (c : Census) (hit : Proc → Bool) : Census :=
  { c with procs := c.procs.map fun p => if hit p then { p with ended := true } else p }

def reap (c : Census) (leader : Pid) : Census :=
  if c.reaped then c else ⟨c.procs.filter (·.pid != leader), true⟩

/-- A subject leads a group of its own, and all others are strangers with other numbers. -/
structure Started (c : Census) (leader : Pid) : Prop where
  unreaped : c.reaped = false
  leads : ⟨leader, leader, true, false⟩ ∈ c.procs
  others : ∀ p ∈ c.procs, p = ⟨leader, leader, true, false⟩ ∨
    (p.kin = false ∧ p.pid ≠ leader ∧ p.group ≠ leader)

end Census

/-- What processes do on their own. A new process belongs to the group of its parent; `bury` is the
parent of an ended process taking notice. -/
inductive Event
  | fork (parent : Proc) (child : Pid)
  | lead (p : Proc)
  | join (p : Proc) (group : Pid)
  | exit (p : Proc)
  | bury (p : Proc)
  deriving DecidableEq

namespace Event

/-- A number is given only if it is free, a group is joined only if it has members, and the end of
the subject is for the bench to notice. -/
def Possible (leader : Pid) (c : Census) : Event → Prop
  | fork parent child => parent ∈ c.procs ∧ parent.ended = false ∧ c.Free child
  | lead p | exit p => p ∈ c.procs ∧ p.ended = false
  | join p group => p ∈ c.procs ∧ p.ended = false ∧ ∃ q ∈ c.procs, q.group = group
  | bury p => p ∈ c.procs ∧ p.ended = true ∧ (p.pid = leader → c.reaped = true)

def effect (c : Census) : Event → Census
  | fork parent child =>
    { c with procs := { parent with pid := child } :: c.procs }
  | lead p => { c with procs := c.procs.map fun q => if q = p then { q with group := q.pid } else q }
  | join p group => { c with procs := c.procs.map fun q => if q = p then { q with group } else q }
  | exit p => c.strike (· = p)
  | bury p => { c with procs := c.procs.filter (· != p) }

end Event

namespace Census

/-- An end is told only once the subject has ended. -/
def Grants (c : Census) (leader : Pid) : (r : Request) → r.Reply → Prop
  | .awaitExit pid _, .ok (some _) =>
    pid = leader → c.reaped = true ∨ ∃ p ∈ c.procs, p.pid = leader ∧ p.ended = true
  | .pollExit pid, .ok (some _) =>
    pid = leader → c.reaped = true ∨ ∃ p ∈ c.procs, p.pid = leader ∧ p.ended = true
  | _, _ => True

/-- What the requests of the bench do to processes. A kill ends all members of a group, whoever they
are. The handle of a subject kills nobody once its end was noticed. -/
def respond (c : Census) (leader : Pid) : (r : Request) → r.Reply → Census
  | .signalGroup g .kill, .ok () => c.strike (·.group = g)
  | .killLeader pid, .ok () => if c.reaped then c else c.strike (·.pid = pid)
  | .release pid, _ => if c.reaped then c else c.strike (·.pid = pid)
  | .awaitExit pid _, .ok (some _) => if pid = leader then c.reap leader else c
  | .pollExit pid, .ok (some _) => if pid = leader then c.reap leader else c
  | _, _ => c

end Census

inductive Deed
  | event (e : Event)
  | asked (x : Exchange)

variable {α : Type}

/-- The bench and the other processes act in any order: what is left of the dialogue after these deeds,
and the processes there are then. -/
inductive Runs (leader : Pid) (d : Dialogue α) (c : Census) :
    List Deed → Dialogue α → Census → Prop
  | start : Runs leader d c [] d c
  | event {trace : List Deed} {d' : Dialogue α} {c' : Census} {e : Event}
      (h : Runs leader d c trace d' c') (he : e.Possible leader c') :
      Runs leader d c (trace ++ [.event e]) d' (e.effect c')
  | asked {trace : List Deed} {r : Request} {k : r.Reply → Dialogue α} {c' : Census}
      (h : Runs leader d c trace (.ask r k) c') (reply : r.Reply)
      (hreply : c'.Grants leader r reply) :
      Runs leader d c (trace ++ [.asked ⟨r, reply⟩]) (k reply) (c'.respond leader r reply)

/-- A stranger comes to the number of the leader: as a number of its own, after the bench has noticed
the end of the leader and nobody is left, or by joining the group. -/
inductive Intrudes (leader : Pid) (c : Census) : Event → Prop
  | takeover {x : Proc} (hx : x ∈ c.procs) (hstranger : x.kin = false) (hreaped : c.reaped = true)
      (hfree : c.Free leader) : Intrudes leader c (.fork x leader)
  | joined {x : Proc} (hx : x ∈ c.procs) (hstranger : x.kin = false) :
      Intrudes leader c (.join x leader)

/-- A stranger has intruded in the course of these deeds. -/
def Intruded (leader : Pid) (d : Dialogue α) (c : Census) (trace : List Deed) : Prop :=
  ∃ before e after d' c', trace = before ++ .event e :: after ∧
    Runs leader d c before d' c' ∧ Intrudes leader c' e

theorem Intruded.append {leader : Pid} {d : Dialogue α} {c : Census} {trace : List Deed}
    (h : Intruded leader d c trace) (deed : Deed) :
    Intruded leader d c (trace ++ [deed]) := by
  obtain ⟨before, e, rest, d', c', rfl, hruns, hintrudes⟩ := h
  exact ⟨before, e, rest ++ [deed], d', c', by simp, hruns, hintrudes⟩

namespace Census

variable {c c' : Census} {leader : Pid}

/-- The number of the leader is not free before the bench has noticed its end. -/
def Held (c : Census) (leader : Pid) : Prop := c.reaped = true ∨ ∃ p ∈ c.procs, p.pid = leader

/-- Whoever has the number of the leader, for himself or for his group, descends from the subject. -/
def Ours (c : Census) (leader : Pid) : Prop :=
  ∀ p ∈ c.procs, p.pid = leader ∨ p.group = leader → p.kin = true

/-- Nobody is new, and nobody has changed but by ending. -/
def Within (c' c : Census) : Prop :=
  ∀ p' ∈ c'.procs, ∃ p ∈ c.procs, p'.pid = p.pid ∧ p'.group = p.group ∧ p'.kin = p.kin

theorem Within.refl (c : Census) : c.Within c := fun p hp => ⟨p, hp, rfl, rfl, rfl⟩

theorem Ours.within (h : c.Ours leader) (hwithin : c'.Within c) : c'.Ours leader := by
  intro p' hp' hnumber
  obtain ⟨p, hp, hpid, hgroup, hkin⟩ := hwithin p' hp'
  rw [hkin]
  rw [hpid, hgroup] at hnumber
  exact h p hp hnumber

theorem strike_within (c : Census) (hit : Proc → Bool) : (c.strike hit).Within c := by
  intro p' hp'
  obtain ⟨p, hp, rfl⟩ := List.mem_map.mp hp'
  refine ⟨p, hp, ?_⟩
  split <;> exact ⟨rfl, rfl, rfl⟩

theorem reap_within (c : Census) (leader : Pid) : (c.reap leader).Within c := by
  unfold reap
  split
  · exact .refl c
  · exact fun p hp => ⟨p, (List.mem_filter.mp hp).1, rfl, rfl, rfl⟩

theorem respond_within (c : Census) (leader : Pid) (r : Request) (reply : r.Reply) :
    (c.respond leader r reply).Within c := by
  unfold respond
  split
  · exact c.strike_within _
  · split
    · exact .refl c
    · exact c.strike_within _
  · split
    · exact .refl c
    · exact c.strike_within _
  · split
    · exact c.reap_within leader
    · exact .refl c
  · split
    · exact c.reap_within leader
    · exact .refl c
  · exact .refl c

theorem Held.strike (h : c.Held leader) (hit : Proc → Bool) : (c.strike hit).Held leader := by
  rcases h with hreaped | ⟨p, hp, hpid⟩
  · exact .inl hreaped
  · refine .inr ⟨_, List.mem_map_of_mem hp, ?_⟩
    split <;> exact hpid

theorem Held.reap (h : c.Held leader) : (c.reap leader).Held leader := by
  unfold Census.reap
  split
  · exact h
  · exact .inl rfl

theorem Held.respond (h : c.Held leader) (r : Request) (reply : r.Reply) :
    (c.respond leader r reply).Held leader := by
  unfold Census.respond
  split
  · exact h.strike _
  · split
    · exact h
    · exact h.strike _
  · split
    · exact h
    · exact h.strike _
  · split
    · exact h.reap
    · exact h
  · split
    · exact h.reap
    · exact h
  · exact h

theorem Held.event (h : c.Held leader) {e : Event} (he : e.Possible leader c) :
    (e.effect c).Held leader := by
  have hmap (f : Proc → Proc) (hf : ∀ p, (f p).pid = p.pid) :
      Held ⟨c.procs.map f, c.reaped⟩ leader := by
    rcases h with hreaped | ⟨p, hp, hpid⟩
    · exact .inl hreaped
    · exact .inr ⟨_, List.mem_map_of_mem hp, (hf p).trans hpid⟩
  cases e with
  | fork parent child =>
    rcases h with hreaped | ⟨p, hp, hpid⟩
    · exact .inl hreaped
    · exact .inr ⟨p, List.mem_cons_of_mem _ hp, hpid⟩
  | lead q => exact hmap _ fun p => by split <;> rfl
  | join q group => exact hmap _ fun p => by split <;> rfl
  | exit q => exact h.strike _
  | bury q =>
    rcases h with hreaped | ⟨p, hp, hpid⟩
    · exact .inl hreaped
    · by_cases hq : q.pid = leader
      · exact .inl (he.2.2 hq)
      · refine .inr ⟨p, List.mem_filter.mpr ⟨hp, ?_⟩, hpid⟩
        have hne : p ≠ q := by
          rintro rfl
          exact hq hpid
        simpa using hne

theorem Ours.event (h : c.Ours leader) (hheld : c.Held leader) {e : Event}
    (he : e.Possible leader c) : (e.effect c).Ours leader ∨ Intrudes leader c e := by
  cases e with
  | exit q => exact .inl (h.within (c.strike_within _))
  | bury q =>
    exact .inl (h.within fun p hp => ⟨p, (List.mem_filter.mp hp).1, rfl, rfl, rfl⟩)
  | fork parent child =>
    obtain ⟨hparent, -, hfree⟩ := he
    by_cases htaken : child = leader ∧ parent.kin = false
    · -- the number was free, so nobody held it any more: the end of the leader was noticed
      obtain ⟨rfl, hstranger⟩ := htaken
      refine .inr (.takeover hparent hstranger ?_ hfree)
      rcases hheld with hreaped | ⟨p, hp, hpid⟩
      · exact hreaped
      · exact absurd hpid (hfree p hp).1
    · refine .inl fun p hp hnumber => ?_
      rcases List.mem_cons.mp hp with rfl | hp
      · rcases hnumber with hpid | hgroup
        · exact (Bool.eq_false_or_eq_true parent.kin).resolve_right fun hkin => htaken ⟨hpid, hkin⟩
        · exact h parent hparent (.inr hgroup)
      · exact h p hp hnumber
  | lead q =>
    -- whoever takes his own number for a group had the number of the leader already
    refine .inl fun p' hp' hnumber => ?_
    obtain ⟨p, hp, rfl⟩ := List.mem_map.mp hp'
    split at hnumber
    · rename_i hpq
      rw [if_pos hpq]
      exact h p hp (.inl (hnumber.elim id id))
    · rename_i hpq
      rw [if_neg hpq]
      exact h p hp hnumber
  | join q group =>
    obtain ⟨hq, -, -⟩ := he
    by_cases hjoined : group = leader ∧ q.kin = false
    · obtain ⟨rfl, hstranger⟩ := hjoined
      exact .inr (.joined hq hstranger)
    · refine .inl fun p' hp' hnumber => ?_
      obtain ⟨p, hp, rfl⟩ := List.mem_map.mp hp'
      split at hnumber
      · rename_i hpq
        subst hpq
        rw [if_pos rfl]
        rcases hnumber with hpid | hgroup
        · exact h p hp (.inl hpid)
        · exact (Bool.eq_false_or_eq_true p.kin).resolve_right fun hkin => hjoined ⟨hgroup, hkin⟩
      · rename_i hpq
        rw [if_neg hpq]
        exact h p hp hnumber

theorem Started.ours (h : c.Started leader) : c.Ours leader := by
  intro p hp hnumber
  rcases h.others p hp with rfl | ⟨-, hpid, hgroup⟩
  · rfl
  · exact (hnumber.elim hpid hgroup).elim

end Census

/-- In every order of deeds only the subject and its descendants come to the number, unless a stranger
has intruded. -/
theorem Runs.ours {leader : Pid} {d d' : Dialogue α} {c c' : Census} {trace : List Deed}
    (hstarted : c.Started leader) (h : Runs leader d c trace d' c') :
    c'.Held leader ∧ (c'.Ours leader ∨ Intruded leader d c trace) := by
  -- requests bring nobody new, so only an event can break `Ours`
  induction h with
  | start => exact ⟨.inr ⟨_, hstarted.leads, rfl⟩, .inl hstarted.ours⟩
  | @event trace d' c' e h he ih =>
    obtain ⟨hheld, hours | hintruded⟩ := ih
    · refine ⟨hheld.event he, ?_⟩
      rcases hours.event hheld he with hours | hintrudes
      · exact .inl hours
      · exact .inr ⟨trace, e, [], d', c', rfl, h, hintrudes⟩
    · exact ⟨hheld.event he, .inr (hintruded.append _)⟩
  | @asked trace r k c' h reply hreply ih =>
    obtain ⟨hheld, hours | hintruded⟩ := ih
    · exact ⟨hheld.respond r reply, .inl (hours.within (c'.respond_within leader r reply))⟩
    · exact ⟨hheld.respond r reply, .inr (hintruded.append _)⟩

theorem Runs.only {leader : Pid} {d d' : Dialogue α} {c c' : Census} {trace : List Deed}
    {P : Request → Prop} (hd : d.Only P) (h : Runs leader d c trace d' c') : d'.Only P := by
  induction h with
  | start => exact hd
  | event h he ih => exact ih
  | asked h reply hreply ih => exact ih.2 reply

theorem Runs.takeover {leader : Pid} {d d' : Dialogue α} {c c' : Census} {trace : List Deed}
    (h : Runs leader d c trace d' c') (hfree : c'.Free leader) {x : Proc} (hx : x ∈ c'.procs)
    (hstranger : x.kin = false) (halive : x.ended = false) :
    ∃ c'', Runs leader d c (trace ++ [.event (.fork x leader)] ++
        [.event (.lead { x with pid := leader })]) d' c'' ∧
      ∃ p ∈ c''.procs, p.group = leader ∧ p.kin = false ∧ p.ended = false := by
  have hforked := h.event (e := .fork x leader) ⟨hx, halive, hfree⟩
  have hled := hforked.event (e := .lead { x with pid := leader }) ⟨List.mem_cons_self, halive⟩
  refine ⟨_, hled, _, List.mem_map_of_mem List.mem_cons_self, ?_⟩
  rw [if_pos rfl]
  exact ⟨rfl, hstranger, halive⟩

namespace Census

variable {c : Census} {leader : Pid}

/-- Once the subject has ended and this was noticed, its number is free and all strangers are there. -/
theorem Started.emptied (h : c.Started leader) :
    let c' := (Event.exit ⟨leader, leader, true, false⟩).effect c
    (∃ p ∈ c'.procs, p.pid = leader ∧ p.ended = true) ∧ (c'.reap leader).Free leader ∧
      ∀ x ∈ c.procs, x.kin = false → x ∈ (c'.reap leader).procs := by
  intro c'
  have hreap : c'.reap leader = ⟨c'.procs.filter (·.pid != leader), true⟩ :=
    if_neg (by simp [c', Event.effect, strike, h.unreaped])
  have hstays {p : Proc} (hp : p ∈ c.procs) (hne : p ≠ ⟨leader, leader, true, false⟩) :
      p ∈ c'.procs := List.mem_map.mpr ⟨p, hp, by simp [hne]⟩
  refine ⟨⟨_, List.mem_map_of_mem h.leads, by simp⟩, ?_, ?_⟩
  · rw [hreap]
    intro p' hp'
    obtain ⟨hmem, hpid⟩ := List.mem_filter.mp hp'
    obtain ⟨p, hp, rfl⟩ := List.mem_map.mp hmem
    rcases h.others p hp with rfl | ⟨hkin, hnumbers⟩
    · simp at hpid
    · split
      · exact hnumbers
      · exact hnumbers
  · intro x hx hstranger
    rw [hreap]
    refine List.mem_filter.mpr ⟨hstays hx ?_, ?_⟩
    · rintro rfl
      cases hstranger
    · rcases h.others x hx with rfl | ⟨-, hpid, -⟩
      · cases hstranger
      · simpa using hpid

end Census

namespace Ending

/-- The kill of the group of a subject, sent at some point of these deeds, reaches this process. -/
def Reaches (leader : Pid) (d : Dialogue α) (c : Census) (trace : List Deed) (p : Proc) : Prop :=
  ∃ k c', Runs leader d c trace (.ask (.signalGroup leader .kill) k) c' ∧ p ∈ c'.procs ∧
    p.group = leader

/-- Whatever strangers there are, one of them can come to be killed: the subject ends, this is noticed,
a new process is given its number and leads a group, and then the group is killed. -/
theorem exists_reached_stranger {e : Ending} (he : e ≠ .dropped) (r : Runner) (s : Subject)
    {c : Census} (hstarted : c.Started s.pid) {x : Proc} (hx : x ∈ c.procs)
    (hstranger : x.kin = false) (halive : x.ended = false) :
    ∃ trace p, (∀ q g, .event (.join q g) ∉ trace) ∧
      Reaches s.pid (e.dialogue r s) c trace p ∧ p.kin = false ∧ p.ended = false := by
  obtain ⟨hended, hfree, hstays⟩ := hstarted.emptied
  have hexit : Runs s.pid (e.dialogue r s) c ([] ++ [.event (.exit ⟨s.pid, s.pid, true, false⟩)])
      (e.dialogue r s) _ := Runs.start.event ⟨hstarted.leads, rfl⟩
  set c' := (Event.exit ⟨s.pid, s.pid, true, false⟩).effect c
  have hgone : c'.respond s.pid (.pollExit s.pid) (.ok (some (.exited 0))) = c'.reap s.pid :=
    if_pos rfl
  cases e with
  | dropped => exact absurd rfl he
  | bounded timeout =>
    have hnow := hexit.asked (r := .clock) Duration.zero trivial
    have hnoticed := hnow.asked (r := .awaitExit s.pid _) (.ok (some (.exited 0)))
      fun _ => .inr hended
    have hlater := hnoticed.asked (r := .clock) Duration.zero trivial
    obtain ⟨c'', htaken, p, hp, hgroup, hkin⟩ :=
      hlater.takeover (hgone ▸ hfree) (hgone ▸ hstays x hx hstranger) hstranger halive
    exact ⟨_, p, by simp, ⟨_, c'', htaken, hp, hgroup⟩, hkin⟩
  | stopped grace =>
    have hnoticed := hexit.asked (r := .pollExit s.pid) (.ok (some (.exited 0)))
      fun _ => .inr hended
    have hlater := hnoticed.asked (r := .clock) Duration.zero trivial
    obtain ⟨c'', htaken, p, hp, hgroup, hkin⟩ :=
      hlater.takeover (hgone ▸ hfree) (hgone ▸ hstays x hx hstranger) hstranger halive
    exact ⟨_, p, by simp, ⟨_, c'', htaken, hp, hgroup⟩, hkin⟩

def Sparing (q : Request) : Prop := ∀ g, q ≠ .signalGroup g .kill

theorem observe_sparing (pid : Pid) (w : Observation.Watch) : (Observation.observe pid w).Only Sparing := by
  refine (Observation.observe_only pid w).mono fun q hq g heq => ?_
  rw [heq] at hq
  cases hq

/-- The kill of an ending is aimed at the group of its subject. In every order of deeds it reaches the
subject and its descendants alone, unless a stranger has intruded; and an ending that gives a result
never rules out that it reaches a stranger. -/
theorem kill_reaches_kin_unless_intruded {β : Type} {before : Dialogue β}
    (hbefore : before.Only Sparing) (e : Ending) (r : Runner) (s : Subject) {c : Census}
    (hstarted : c.Started s.pid) :
    (∀ trace g k c', Runs s.pid (before >>= fun _ => e.dialogue r s) c trace
        (.ask (.signalGroup g .kill) k) c' → g = s.pid) ∧
    (∀ trace p, Reaches s.pid (before >>= fun _ => e.dialogue r s) c trace p →
      p.kin = true ∨ Intruded s.pid (before >>= fun _ => e.dialogue r s) c trace) ∧
    (e ≠ .dropped → ∀ x ∈ c.procs, x.kin = false → x.ended = false →
      ∃ trace p, (∀ q g, .event (.join q g) ∉ trace) ∧
        Reaches s.pid (e.dialogue r s) c trace p ∧ p.kin = false ∧ p.ended = false) := by
  refine ⟨fun trace g k c' hruns => ?_, ?_, fun he x hx => e.exists_reached_stranger he r s hstarted hx⟩
  · have haims : (before >>= fun _ => e.dialogue r s).Only
        fun q => ∀ g, q = .signalGroup g .kill → g = s.pid :=
      (hbefore.mono fun q hq g heq => absurd heq (hq g)).bind fun _ =>
        (e.dialogue_only r s).mono fun q hq g heq => by
          subst heq
          exact hq
    exact (hruns.only haims).1 g rfl
  · rintro trace p ⟨k, c', hruns, hp, hgroup⟩
    rcases (hruns.ours hstarted).2 with hours | hintruded
    · exact .inl (hours p hp (.inr hgroup))
    · exact .inr hintruded

def strangerBeside : Census := ⟨[⟨7, 7, true, false⟩, ⟨3, 3, false, false⟩], false⟩

theorem strangerBeside_started : strangerBeside.Started 7 where
  unreaped := rfl
  leads := List.mem_cons_self
  others := by decide

theorem kill_reaches_kin_unless_intruded_beside :
    let s : Subject := ⟨.ofString "/bin/p", 7, .zero⟩
    let d := (Observation.observe 7 ⟨[], .ofSecs 1, .ofMillis 10⟩ >>= fun _ =>
      (stopped (.ofSecs 1)).dialogue .standard s)
    (∀ trace g k c', Runs 7 d strangerBeside trace (.ask (.signalGroup g .kill) k) c' → g = 7) ∧
    (∀ trace p, Reaches 7 d strangerBeside trace p →
      p.kin = true ∨ Intruded 7 d strangerBeside trace) ∧
    ∃ trace p, (∀ q g, .event (.join q g) ∉ trace) ∧
      Reaches 7 ((stopped (.ofSecs 1)).dialogue .standard s) strangerBeside trace p ∧
      p.kin = false ∧ p.ended = false := by
  intro s d
  obtain ⟨haims, hkin, hmay⟩ := kill_reaches_kin_unless_intruded
    (observe_sparing 7 ⟨[], .ofSecs 1, .ofMillis 10⟩) (stopped (.ofSecs 1)) .standard s
    strangerBeside_started
  exact ⟨haims, hkin, hmay nofun ⟨3, 3, false, false⟩ (by decide) rfl rfl⟩

/-- A stranger is killed that was given the number of the subject when nobody had it any more, and one
that has joined the group of the subject. -/
theorem stranger_killed :
    let d := (bounded (.ofSecs 5)).dialogue .standard ⟨.ofString "/bin/p", 7, .zero⟩
    let noticed : List Deed := [.asked ⟨.clock, Duration.zero⟩,
      .asked ⟨.awaitExit 7 (.ofSecs 5), .ok (some (.exited 0))⟩, .asked ⟨.clock, Duration.zero⟩]
    strangerBeside.Started 7 ∧
    Reaches 7 d strangerBeside ([.event (.exit ⟨7, 7, true, false⟩)] ++ noticed ++
      [.event (.fork ⟨3, 3, false, false⟩ 7), .event (.lead ⟨7, 3, false, false⟩)])
      ⟨7, 7, false, false⟩ ∧
    Reaches 7 d strangerBeside ([.event (.join ⟨3, 3, false, false⟩ 7),
      .event (.exit ⟨7, 7, true, false⟩)] ++ noticed) ⟨3, 7, false, false⟩ := by
  intro d noticed
  refine ⟨strangerBeside_started, ?_, ?_⟩
  · have hexit : Runs 7 d strangerBeside [.event (.exit ⟨7, 7, true, false⟩)] d _ :=
      Runs.start.event ⟨by decide, rfl⟩
    have hnow := hexit.asked (r := .clock) Duration.zero trivial
    have hnoticed := hnow.asked (r := .awaitExit 7 (.ofSecs 5)) (.ok (some (.exited 0)))
      fun _ => .inr (by decide)
    have hlater := hnoticed.asked (r := .clock) Duration.zero trivial
    have hforked := hlater.event (e := .fork ⟨3, 3, false, false⟩ 7) ⟨by decide, rfl, by decide⟩
    have hled := hforked.event (e := .lead ⟨7, 3, false, false⟩) ⟨by decide, rfl⟩
    exact ⟨_, _, hled, by decide, rfl⟩
  · have hjoined : Runs 7 d strangerBeside [.event (.join ⟨3, 3, false, false⟩ 7)] d _ :=
      Runs.start.event ⟨by decide, rfl, by decide⟩
    have hexit := hjoined.event (e := .exit ⟨7, 7, true, false⟩) ⟨by decide, rfl⟩
    have hnow := hexit.asked (r := .clock) Duration.zero trivial
    have hnoticed := hnow.asked (r := .awaitExit 7 (.ofSecs 5)) (.ok (some (.exited 0)))
      fun _ => .inr (by decide)
    have hlater := hnoticed.asked (r := .clock) Duration.zero trivial
    exact ⟨_, _, hlater, by decide, rfl⟩

end Ending

end SmokeBench
