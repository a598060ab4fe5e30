import SmokeBench.Dialogue

/-! Laws of runs and journals. A run of a composed dialogue is the run of its parts, and a dialogue
whose requests are all of one kind leaves a journal of that kind and keeps every invariant that
such requests keep. The proofs about the bench use these and never open `run` or `journal`. -/

namespace SmokeBench

/-- A host where nothing ever changes: it has no files, its subjects exit at once, and its sink
takes everything. Other hosts differ from it in the answers they are about. -/
def Host.still {σ : Type} : Host σ where
  answer r s := match r with
    | .print _ | .printError _ => (.ok (), s)
    | .sleep _ | .release _ => ((), s)
    | .availability _ => (.ready, s)
    | .metadata _ | .entries _ | .load _ => (.error .notFound, s)
    | .store _ _ | .makeDir _ | .removeTree _ => (.error .permissionDenied, s)
    | .spawn _ _ => (.ok 7, s)
    | .awaitExit _ _ | .pollExit _ => (.ok (some (.exited 0)), s)
    | .signalGroup _ _ | .killLeader _ => (.error .noSuchProcess, s)
    | .environment _ => (none, s)
    | .workingDir => (.ok (.ofString "/"), s)
    | .runnerPath => (.ok (.ofString "/lcc-sanity"), s)
    | .randomSuffix => ("a", s)
    | .calendar => ((0 : Nat), s)
    | .clock => (Duration.zero, s)
    | .drain _ _ _ => ([], s)

namespace Dialogue

variable {σ α β : Type} (host : Host σ)

@[simp] theorem run_pure (a : α) (s : σ) : run host (pure a : Dialogue α) s = (a, s) := rfl

@[simp] theorem journal_pure (a : α) (s : σ) : journal host (pure a : Dialogue α) s = [] := rfl

@[simp] theorem run_ask (r : Request) (s : σ) :
    run host (SmokeBench.ask r) s = host.answer r s := rfl

@[simp] theorem journal_ask (r : Request) (s : σ) :
    journal host (SmokeBench.ask r) s = [⟨r, (host.answer r s).1⟩] := rfl

@[simp] theorem run_map (f : α → β) (d : Dialogue α) (s : σ) :
    run host (f <$> d) s = (f (run host d s).1, (run host d s).2) := by
  rw [← bind_pure_comp, run_bind]
  rfl

@[simp] theorem journal_map (f : α → β) (d : Dialogue α) (s : σ) :
    journal host (f <$> d) s = journal host d s := by
  rw [← bind_pure_comp, journal_bind]
  simp

/-- Every request that can come up in a dialogue, whatever the replies, is of one kind. -/
def Only (P : Request → Prop) : Dialogue α → Prop
  | done _ => True
  | ask r k => P r ∧ ∀ reply, (k reply).Only P

variable {P Q : Request → Prop}

@[simp] theorem only_pure (a : α) : (pure a : Dialogue α).Only P := trivial

theorem only_ask {r : Request} (h : P r) : (SmokeBench.ask r).Only P := ⟨h, fun _ => trivial⟩

theorem Only.bind {d : Dialogue α} {f : α → Dialogue β} (hd : d.Only P) (hf : ∀ a, (f a).Only P) :
    (d >>= f).Only P := by
  induction d with
  | done a => exact hf a
  | ask r k ih => exact ⟨hd.1, fun reply => ih reply (hd.2 reply)⟩

theorem Only.map {d : Dialogue α} (f : α → β) (hd : d.Only P) : (f <$> d).Only P := by
  rw [← bind_pure_comp]
  exact hd.bind fun _ => only_pure _

theorem Only.discard {d : Dialogue α} (hd : d.Only P) : (Functor.discard d).Only P := hd.map _

theorem Only.mono {d : Dialogue α} (h : d.Only P) (hpq : ∀ r, P r → Q r) : d.Only Q := by
  induction d with
  | done a => trivial
  | ask r k ih => exact ⟨hpq r h.1, fun reply => ih reply (h.2 reply)⟩

theorem Only.and {d : Dialogue α} (hp : d.Only P) (hq : d.Only Q) : d.Only fun r => P r ∧ Q r := by
  induction d with
  | done a => trivial
  | ask r k ih => exact ⟨⟨hp.1, hq.1⟩, fun reply => ih reply (hp.2 reply) (hq.2 reply)⟩

variable {host}

theorem Only.journal {d : Dialogue α} (h : d.Only P) (s : σ) :
    ∀ x ∈ d.journal host s, P x.request := by
  induction d generalizing s with
  | done a => simp [Dialogue.journal]
  | ask r k ih =>
    intro x hx
    rcases List.mem_cons.mp hx with rfl | hx
    · exact h.1
    · exact ih _ (h.2 _) _ x hx

theorem Only.invariant {d : Dialogue α} (h : d.Only P) {I : σ → Prop}
    (step : ∀ r s, P r → I s → I (host.answer r s).2) {s : σ} (hs : I s) : I (d.run host s).2 := by
  induction d generalizing s with
  | done a => exact hs
  | ask r k ih => exact ih _ (h.2 _) (step r s h.1 hs)

def after (host : Host σ) (s : σ) (j : List Exchange) : σ :=
  j.foldl (fun s x => (host.answer x.request s).2) s

@[simp] theorem after_nil (s : σ) : after host s [] = s := rfl

@[simp] theorem after_append (s : σ) (i j : List Exchange) :
    after host s (i ++ j) = after host (after host s i) j := List.foldl_append

@[simp] theorem after_journal (d : Dialogue α) (s : σ) :
    after host s (d.journal host s) = (d.run host s).2 := by
  induction d generalizing s with
  | done a => rfl
  | ask r k ih => exact ih _ _

/-- Every reply in a journal is the one that the host gives. -/
def Genuine (host : Host σ) : σ → List Exchange → Prop
  | _, [] => True
  | s, x :: j => x.reply = (host.answer x.request s).1 ∧ Genuine host (host.answer x.request s).2 j

theorem genuine_append {s : σ} {i j : List Exchange} :
    Genuine host s (i ++ j) ↔ Genuine host s i ∧ Genuine host (after host s i) j := by
  induction i generalizing s with
  | nil => exact (iff_of_eq (true_and _)).symm
  | cons x i ih => exact (and_congr_right fun _ => ih).trans and_assoc.symm

theorem genuine_journal (d : Dialogue α) (s : σ) : Genuine host s (d.journal host s) := by
  induction d generalizing s with
  | done a => trivial
  | ask r k ih => exact ⟨rfl, ih _ _⟩

theorem reply_of_mem {d : Dialogue α} {s : σ} {x : Exchange} (hx : x ∈ d.journal host s) :
    ∃ t, x.reply = (host.answer x.request t).1 := by
  have h : Genuine host s (d.journal host s) := genuine_journal d s
  obtain ⟨i, k, hsplit⟩ := List.append_of_mem hx
  rw [hsplit, genuine_append] at h
  exact ⟨_, h.2.1⟩

/-- From a state on, a dialogue comes to a result and leaves a journal. -/
structure Yields (host : Host σ) (d : Dialogue α) (s : σ) (a : α) (j : List Exchange) : Prop where
  result : (d.run host s).1 = a
  journal : d.journal host s = j

namespace Yields

theorem self (d : Dialogue α) (s : σ) : Yields host d s (d.run host s).1 (d.journal host s) :=
  ⟨rfl, rfl⟩

theorem pure (a : α) (s : σ) : Yields host (Pure.pure a) s a [] := ⟨rfl, rfl⟩

theorem ask {r : Request} {s : σ} {reply : r.Reply} (h : (host.answer r s).1 = reply) :
    Yields host (SmokeBench.ask r) s reply [⟨r, reply⟩] :=
  ⟨h, by rw [journal_ask, h]⟩

theorem bind {d : Dialogue α} {f : α → Dialogue β} {s : σ} {a : α} {b : β} {i j : List Exchange}
    (hd : Yields host d s a i) (hf : Yields host (f a) (d.run host s).2 b j) :
    Yields host (d >>= f) s b (i ++ j) where
  result := by rw [run_bind, hd.result, hf.result]
  journal := by rw [journal_bind, hd.result, hd.journal, hf.journal]

theorem map {d : Dialogue α} {s : σ} {a : α} {j : List Exchange} (f : α → β)
    (hd : Yields host d s a j) : Yields host (f <$> d) s (f a) j where
  result := by rw [run_map, hd.result]
  journal := by rw [journal_map, hd.journal]

theorem bind_pure {d : Dialogue α} {f : α → Dialogue β} {s : σ} {a : α} {b : β}
    {j : List Exchange} (hd : Yields host d s a j) (hf : f a = Pure.pure b) :
    Yields host (d >>= f) s b j := by
  have hlast : Yields host (f a) (d.run host s).2 b [] := by
    rw [hf]
    exact .pure b _
  have h := hd.bind hlast
  rwa [List.append_nil] at h

theorem state {d : Dialogue α} {s : σ} {a : α} {j : List Exchange} (h : Yields host d s a j) :
    (d.run host s).2 = after host s j := by
  rw [← h.journal, after_journal]

end Yields

/-- Two dialogues that go the same way from a state on. -/
def SameFrom (host : Host σ) (s : σ) (d e : Dialogue α) : Prop :=
  d.run host s = e.run host s ∧ d.journal host s = e.journal host s

namespace SameFrom

variable {s : σ} {d e : Dialogue α}

theorem refl (d : Dialogue α) : SameFrom host s d d := ⟨rfl, rfl⟩

theorem trans {f : Dialogue α} (h : SameFrom host s d e) (h' : SameFrom host s e f) :
    SameFrom host s d f := ⟨h.1.trans h'.1, h.2.trans h'.2⟩

theorem bind {f g : α → Dialogue β}
    (h : SameFrom host (d.run host s).2 (f (d.run host s).1) (g (d.run host s).1)) :
    SameFrom host s (d >>= f) (d >>= g) := by
  constructor
  · rw [run_bind, run_bind, h.1]
  · rw [journal_bind, journal_bind, h.2]

theorem ite {c : Prop} [Decidable c] {d d' e e' : Dialogue α} (hpos : c → SameFrom host s d d')
    (hneg : ¬c → SameFrom host s e e') :
    SameFrom host s (if c then d else e) (if c then d' else e') := by
  split
  · exact hpos ‹_›
  · exact hneg ‹_›

end SameFrom

/-- From every state where `I` holds the dialogue comes to a state where it holds. -/
def Maintains (host : Host σ) (I : σ → Prop) (d : Dialogue α) : Prop :=
  ∀ s, I s → I (d.run host s).2

namespace Maintains

variable {I : σ → Prop}

theorem pure (a : α) : Maintains host I (Pure.pure a) := fun _ h => h

theorem bind_of {d : Dialogue α} {f : α → Dialogue β} {R : α → Prop} (hd : Maintains host I d)
    (hresult : ∀ s, I s → R (d.run host s).1) (hf : ∀ a, R a → Maintains host I (f a)) :
    Maintains host I (d >>= f) := by
  intro s h
  rw [run_bind]
  exact hf _ (hresult s h) _ (hd s h)

theorem bind {d : Dialogue α} {f : α → Dialogue β} (hd : Maintains host I d)
    (hf : ∀ a, Maintains host I (f a)) : Maintains host I (d >>= f) :=
  hd.bind_of (R := fun _ => True) (fun _ _ => trivial) fun a _ => hf a

end Maintains

end Dialogue

end SmokeBench
