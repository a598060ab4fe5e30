import SmokeBench.Proofs.Entries
import SmokeBench.Proofs.Places

/-! How a run comes to know its binaries and what it does with an answer. A run asks for a path when
it first comes to a scenario that names it, and remembers the answer. What it remembers at a stop is
what was found at the first stop that named the path, whatever has become of the binary since. -/

namespace SmokeBench

open Dialogue

namespace Request

def prints : Request → Bool
  | print _ => true
  | _ => false

def probes : Request → Bool
  | availability _ => true
  | _ => false

def asksFor (p : Path) : Request → Bool
  | availability q => q.sameAs p
  | _ => false

end Request

theorem Path.sameAs_iff {p q : Path} : p.sameAs q ↔ p.components = q.components := beq_iff_eq

theorem Path.sameAs_congr {p q : Path} (h : p.sameAs q) (r : Path) : r.sameAs p = r.sameAs q := by
  rw [sameAs, sameAs, sameAs_iff.mp h]

namespace Suite

/-- What is known of the binary at a path. -/
def remembered (known : Known) (p : Path) : Option Availability :=
  (known.find? (·.1.sameAs p)).map (·.2)

theorem remembered_congr {p q : Path} (h : p.sameAs q) (known : Known) :
    remembered known p = remembered known q := by
  simp only [remembered, Path.sameAs_congr h]

theorem remembered_append (known later : Known) (p : Path) :
    remembered (known ++ later) p = (remembered known p).or (remembered later p) := by
  rw [remembered, List.find?_append, Option.map_or]
  rfl

theorem remembered_singleton (q : Path) (a : Availability) (p : Path) :
    remembered [(q, a)] p = if q.sameAs p then some a else none := by
  rw [remembered, List.find?_singleton]
  split <;> rfl

end Suite

variable {σ : Type} (host : Host σ) (bench : Bench)

namespace Stop

variable (x : Stop σ)

def path : Path := x.scenario.binary.path

def found : Availability := (x.visit host).available

def probe : List Exchange := x.looking.journal host x.start

theorem known_cases :
    (Suite.remembered x.known x.path = some (x.found host) ∧ x.probe host = [] ∧
      x.learnt host = x.known) ∨
    (Suite.remembered x.known x.path = none ∧
      x.probe host = [⟨.availability x.path, x.found host⟩] ∧
      x.learnt host = x.known ++ [(x.path, x.found host)]) := by
  unfold found probe learnt visit looking Suite.lookUp Suite.remembered path
  cases x.known.find? (·.1.sameAs x.scenario.binary.path) with
  | some entry => exact .inl ⟨rfl, rfl, rfl⟩
  | none => exact .inr ⟨rfl, rfl, rfl⟩

theorem remembered_learnt (p : Path) :
    Suite.remembered (x.learnt host) p =
      (Suite.remembered x.known p).or (if x.path.sameAs p then some (x.found host) else none) := by
  rcases x.known_cases host with ⟨hknown, -, hlearnt⟩ | ⟨-, -, hlearnt⟩
  · rw [hlearnt]
    split
    · rename_i hsame
      rw [← Suite.remembered_congr hsame, hknown]
      rfl
    · exact Option.or_none.symm
  · rw [hlearnt, Suite.remembered_append, Suite.remembered_singleton]

theorem probes_of_mem_probe {e : Exchange} (h : e ∈ x.probe host) : e.request.probes := by
  rcases x.known_cases host with ⟨-, hprobe, -⟩ | ⟨-, hprobe, -⟩
  · rw [hprobe] at h
    cases h
  · rw [hprobe, List.mem_singleton] at h
    rw [h]
    rfl

theorem countP_probe (p : Path) :
    (x.probe host).countP (·.request.asksFor p) =
      if (Suite.remembered x.known p).isNone ∧ x.path.sameAs p then 1 else 0 := by
  have hsingle (a : Availability) :
      List.countP (·.request.asksFor p) [(⟨.availability x.path, a⟩ : Exchange)] =
        if x.path.sameAs p then 1 else 0 := List.countP_singleton
  by_cases hsame : x.path.sameAs p
  · rw [← Suite.remembered_congr hsame]
    rcases x.known_cases host with ⟨hknown, hprobe, -⟩ | ⟨hknown, hprobe, -⟩
    · rw [hprobe, hknown]
      rfl
    · rw [hprobe, hknown, hsingle]
      simp [hsame]
  · rcases x.known_cases host with ⟨-, hprobe, -⟩ | ⟨-, hprobe, -⟩
    · rw [hprobe]
      simp [hsame]
    · rw [hprobe, hsingle]
      simp [hsame]

def firstNaming (xs : List (Stop σ)) (p : Path) : Option (Stop σ) := xs.find? (·.path.sameAs p)

end Stop

/-- From what is known in a state on, the run goes from stop to stop. At each it looks for the binary
and then takes its scenario through, and with what it has learnt it goes on. Between the stops it
prints. -/
inductive Rounds : Suite.Known → σ → List (Stop σ) → List Exchange → Prop
  | stop (known : Suite.Known) (s : σ) : Rounds known s [] []
  | print {known : Suite.Known} {s : σ} {r : Request} {xs : List (Stop σ)} {j : List Exchange}
      (h : r.prints) (rest : Rounds known (host.answer r s).2 xs j) :
      Rounds known s xs (⟨r, (host.answer r s).1⟩ :: j)
  | round {x : Stop σ} {xs : List (Stop σ)} {j : List Exchange}
      (rest : Rounds (x.learnt host) ((x.visit host).finish host bench) xs j) :
      Rounds x.known x.start (x :: xs)
        (x.probe host ++ ((x.visit host).journal host bench ++ j))

variable {host bench}

namespace Rounds

variable {known : Suite.Known} {s : σ} {xs : List (Stop σ)} {j : List Exchange}

theorem printing {α : Type} {d : Dialogue α} (hd : d.Only (Request.prints ·))
    (h : Rounds host bench known (d.run host s).2 xs j) :
    Rounds host bench known s xs (d.journal host s ++ j) := by
  induction d generalizing s with
  | done a => exact h
  | ask r k ih => exact .print hd.1 (ih _ (hd.2 _) h)

theorem then_printing (h : Rounds host bench known s xs j) {α : Type} {d : Dialogue α}
    (hd : d.Only (Request.prints ·)) :
    Rounds host bench known s xs (j ++ d.journal host (after host s j)) := by
  induction h with
  | stop known s =>
    have hprinted := printing hd (.stop known (d.run host s).2 : Rounds host bench _ _ _ _)
    rwa [List.append_nil] at hprinted
  | print hr _ ih => exact .print hr ih
  | @round x xs j _ ih =>
    rw [List.append_assoc, List.append_assoc]
    refine .round ?_
    have hlooked : after host x.start (x.probe host) = (x.visit host).start := after_journal _ _
    have hvisited : after host (x.visit host).start ((x.visit host).journal host bench) =
        (x.visit host).finish host bench := after_journal _ _
    rwa [after_append, after_append, hlooked, hvisited]

/-- What is known at a stop of a binary is what was known at first, and else what was found at the
first stop for it. -/
theorem remembered_eq (h : Rounds host bench known s xs j) {i : Nat} {x : Stop σ}
    (hx : xs[i]? = some x) (p : Path) :
    Suite.remembered x.known p =
      (Suite.remembered known p).or ((Stop.firstNaming (xs.take i) p).map (·.found host)) := by
  induction h generalizing i with
  | stop known s => cases hx
  | print _ _ ih => exact ih hx
  | @round y xs j _ ih =>
    cases i with
    | zero =>
      obtain rfl : y = x := Option.some.inj hx
      exact Option.or_none.symm
    | succ i =>
      rw [ih hx, y.remembered_learnt, Option.or_assoc, List.take_succ_cons, Stop.firstNaming,
        Stop.firstNaming, List.find?_cons]
      congr 1
      cases y.path.sameAs p <;> rfl

/-- A path is asked for once if some stop names it, unless it was known at first. -/
theorem countP_probes (h : Rounds host bench known s xs j) (p : Path) :
    (xs.flatMap (·.probe host)).countP (·.request.asksFor p) =
      if (Suite.remembered known p).isNone ∧ (Stop.firstNaming xs p).isSome then 1 else 0 := by
  induction h with
  | stop known s => simp [Stop.firstNaming]
  | print _ _ ih => exact ih
  | @round x xs j _ ih =>
    rw [List.flatMap_cons, List.countP_append, ih, x.countP_probe, x.remembered_learnt,
      Stop.firstNaming, Stop.firstNaming, List.find?_cons]
    by_cases hsame : x.path.sameAs p
    · by_cases hnone : (Suite.remembered x.known p).isNone <;> simp [hsame, hnone]
    · simp [hsame]

/-- If the evaluators do not look for binaries, nothing is looked for but at the stops. -/
theorem filter_probes (h : Rounds host bench known s xs j)
    (hjudges : ∀ x ∈ xs, x.scenario.Judges (fun r => r.probes = false)) :
    j.filter (·.request.probes) = xs.flatMap (·.probe host) := by
  induction h with
  | stop known s => rfl
  | @print known s r xs j hr _ ih =>
    have hquiet : r.probes = false := by cases r <;> first | rfl | cases hr
    rw [List.filter_cons_of_neg (by simp [hquiet]), ih hjudges]
  | @round x xs j _ ih =>
    obtain ⟨hx, hxs⟩ := List.forall_mem_cons.mp hjudges
    have hserves (r : Request) (hr : r.serves) : r.probes = false := by
      cases r <;> first | rfl | cases hr
    have hquiet : ∀ e ∈ (x.visit host).journal host bench, e.request.probes = false :=
      (Scenario.execute_only bench _ hserves hx).journal (x.visit host).start
    rw [List.filter_append, List.filter_append, ih hxs, List.flatMap_cons,
      List.filter_eq_self.mpr fun e he => x.probes_of_mem_probe host he,
      List.filter_eq_nil_iff.mpr fun e he => by simp [hquiet e he], List.nil_append]

end Rounds

/-- Each binary is looked for once, when it is first named, and what was found stands. -/
structure Consulted (host : Host σ) (xs : List (Stop σ)) : Prop where
  once : ∀ p, (xs.flatMap (·.probe host)).countP (·.request.asksFor p) =
    if (Stop.firstNaming xs p).isSome then 1 else 0
  first : ∀ (i : Nat) (x : Stop σ), xs[i]? = some x → Stop.firstNaming (xs.take i) x.path = none →
    x.probe host = [⟨.availability x.path, x.found host⟩]
  later : ∀ (i : Nat) (x y : Stop σ), xs[i]? = some x →
    Stop.firstNaming (xs.take i) x.path = some y → x.probe host = [] ∧ x.found host = y.found host

theorem Rounds.consulted {s : σ} {xs : List (Stop σ)} {j : List Exchange}
    (h : Rounds host bench [] s xs j) : Consulted host xs where
  once p := by
    rw [h.countP_probes]
    simp [Suite.remembered]
  first i x hx hnone := by
    have hremembered := h.remembered_eq hx x.path
    rw [hnone] at hremembered
    rcases x.known_cases host with ⟨hknown, -, -⟩ | ⟨-, hprobe, -⟩
    · rw [hknown] at hremembered
      cases hremembered
    · exact hprobe
  later i x y hx hsome := by
    have hremembered := h.remembered_eq hx x.path
    rw [hsome] at hremembered
    rcases x.known_cases host with ⟨hknown, hprobe, -⟩ | ⟨hknown, -, -⟩
    · rw [hknown] at hremembered
      exact ⟨hprobe, Option.some.inj hremembered⟩
    · rw [hknown] at hremembered
      cases hremembered

section Starts

variable {α β : Type} {path : Path}

variable (host) in
/-- The dialogue starts the subject, or it ends because it was refused its scope. -/
def Starts (path : Path) (d : Dialogue (Except ScenarioFault α)) : Prop :=
  ∀ st, (∃ e, (d.run host st).1 = .error (.scope e)) ∨
    ∃ args, (path, args) ∈ started (d.journal host st)

theorem Starts.bind {d : Dialogue (Except ScenarioFault α)}
    {f : Except ScenarioFault α → Dialogue (Except ScenarioFault β)} (hd : Starts host path d)
    (hf : ∀ e st, ((f (.error (.scope e))).run host st).1 = .error (.scope e)) :
    Starts host path (d >>= f) := by
  intro st
  rw [run_bind, journal_bind, started_append]
  rcases hd st with ⟨e, he⟩ | ⟨args, hargs⟩
  · exact .inl ⟨e, by rw [he, hf]⟩
  · exact .inr ⟨args, List.mem_append_left _ hargs⟩

theorem Starts.after {d : Dialogue α} {f : α → Dialogue (Except ScenarioFault β)}
    (hf : ∀ st, Starts host path (f (d.run host st).1)) : Starts host path (d >>= f) := by
  intro st
  rw [run_bind, journal_bind, started_append]
  rcases hf st (d.run host st).2 with hrefused | ⟨args, hargs⟩
  · exact .inl hrefused
  · exact .inr ⟨args, List.mem_append_right _ hargs⟩

theorem Starts.refused (e : ScopeError) :
    Starts host path (pure (.error (.scope e)) : Dialogue (Except ScenarioFault α)) :=
  fun _ => .inl ⟨e, rfl⟩

namespace Scenario

variable (s : Scenario) (bench : Bench)

theorem subjectRun_tries (scope : Option Scope) (mode : RunMode) :
    Starts host s.binary.path (s.subjectRun bench scope mode) := by
  intro st
  cases mode with
  | bounded =>
    rw [s.subjectRun_starts_bounded]
    exact .inr ⟨_, List.mem_singleton_self _⟩
  | supervised grace =>
    by_cases h : scope.isSome → ∀ r ∈ s.watch, ¬ r.Strays
    · rw [s.subjectRun_starts bench scope _ h]
      exact .inr ⟨_, List.mem_singleton_self _⟩
    · obtain ⟨hsome, hstrays⟩ := Classical.not_imp.mp h
      obtain ⟨scope, rfl⟩ := Option.isSome_iff_exists.mp hsome
      obtain ⟨r, -, -, hrefused⟩ := s.supervise_of_strays scope bench grace
        (s.renderArgs (some scope.root)) (by simpa using hstrays)
      refine .inl ⟨.escape r, ?_⟩
      unfold subjectRun
      dsimp only [Option.map_some]
      rw [hrefused]
      rfl

theorem work_tries (scope : Option Scope) (mode : RunMode) (evaluate : Evaluator) :
    Starts host s.binary.path (s.work bench scope mode evaluate) :=
  (s.subjectRun_tries bench scope mode).bind fun _ _ => rfl

theorem prepare_refused {scope : Scope} {steps : List SetupStep} {st : σ} {f : ScenarioFault}
    (h : ((prepare scope steps).run host st).1 = .error f) : ∃ e, f = .scope e := by
  induction steps generalizing st with
  | nil => cases h
  | cons step rest ih =>
    unfold prepare at h
    cases step with
    | createDir path =>
      dsimp only at h
      rw [run_bind] at h
      split at h
      · exact ih h
      · rename_i e _
        exact ⟨e, (Except.error.inj h).symm⟩
    | writeFile path content =>
      dsimp only at h
      rw [run_bind] at h
      split at h
      · exact ih h
      · rename_i e _
        exact ⟨e, (Except.error.inj h).symm⟩

theorem drive_tries (scope : Option Scope) (mode : RunMode) (evaluate : Evaluator) :
    Starts host s.binary.path (s.drive bench scope mode evaluate) := by
  have hwork : Starts host s.binary.path (s.work bench scope mode evaluate) :=
    s.work_tries bench scope mode evaluate
  cases scope with
  | none => exact hwork
  | some scope =>
    rw [drive_some]
    refine .after fun st => ?_
    cases hfilled : ((prepare scope s.setup).run host st).1 with
    | error f =>
      obtain ⟨e, rfl⟩ := prepare_refused hfilled
      exact .refused e
    | ok _ => exact hwork

theorem driveIsolated_tries (mode : RunMode) (evaluate : Evaluator) :
    Starts host s.binary.path (s.driveIsolated bench mode evaluate) := by
  unfold driveIsolated
  split
  · refine .after fun st => ?_
    split
    · exact .refused _
    · refine (s.drive_tries bench _ mode evaluate).bind fun e st => ?_
      rw [run_bind]
      rfl
  · exact s.drive_tries bench none mode evaluate

end Scenario

end Starts

variable (host bench)

/-- A visit that takes its scenario through the whole course. -/
structure Visit.Driven (v : Visit σ) (mode : RunMode) (evaluate : Evaluator) : Prop where
  journal : v.journal host bench =
    (v.scenario.driveIsolated bench mode evaluate).journal host v.start
  verdicts : v.verdicts host bench = Scenario.verdictsOf v.scenario.name
    ((v.scenario.driveIsolated bench mode evaluate).run host v.start).1
  starts : (∃ e, ((v.scenario.driveIsolated bench mode evaluate).run host v.start).1 =
      .error (.scope e)) ∨
    ∃ args, (v.scenario.binary.path, args) ∈ started (v.journal host bench)

/-- What comes of a scenario by what was found of its binary. -/
structure Visit.Treated (v : Visit σ) : Prop where
  locate : v.scenario.action = .locate → v.journal host bench = [] ∧
    (v.verdicts host bench).map (·.outcome) = [if v.available = .ready then .pass else .fail]
  missing : ∀ mode evaluate, v.scenario.action = .run mode evaluate → v.available = .missing →
    v.journal host bench = [] ∧
      v.verdicts host bench = [.skip s!"{v.scenario.name} (binary not found)"]
  present : ∀ mode evaluate, v.scenario.action = .run mode evaluate → v.available ≠ .missing →
    v.Driven host bench mode evaluate

theorem Visit.treated (v : Visit σ) : v.Treated host bench where
  locate haction := by
    unfold journal verdicts Scenario.execute
    rw [haction]
    refine ⟨rfl, ?_⟩
    cases v.available <;> rfl
  missing mode evaluate haction hmissing := by
    unfold journal verdicts Scenario.execute
    rw [haction, hmissing]
    exact ⟨rfl, rfl⟩
  present mode evaluate haction hpresent := by
    have hexecute : v.scenario.execute bench v.available =
        Scenario.verdictsOf v.scenario.name <$> v.scenario.driveIsolated bench mode evaluate := by
      unfold Scenario.execute
      rw [haction]
      cases havailable : v.available
      · exact absurd havailable hpresent
      · rfl
      · rfl
    have hjournal : v.journal host bench =
        (v.scenario.driveIsolated bench mode evaluate).journal host v.start := by
      rw [journal, hexecute, journal_map]
    refine ⟨hjournal, ?_, ?_⟩
    · rw [verdicts, hexecute, run_map]
    · rw [hjournal]
      exact v.scenario.driveIsolated_tries bench mode evaluate v.start

/-- From what is known in a state on, a dialogue comes to a result and its journal goes from stop to
stop. -/
structure Circles {α : Type} (d : Dialogue α) (known : Suite.Known) (s : σ) (a : α)
    (xs : List (Stop σ)) : Prop where
  result : (d.run host s).1 = a
  rounds : Rounds host bench known s xs (d.journal host s)

variable {host bench}

namespace Circles

variable {α β : Type} {known : Suite.Known} {s : σ} {a : α} {b : β} {xs : List (Stop σ)}

theorem pure (a : α) (known : Suite.Known) (s : σ) :
    Circles host bench (Pure.pure a) known s a [] := ⟨rfl, .stop known s⟩

theorem printing {d : Dialogue α} {f : α → Dialogue β} (hd : d.Only (Request.prints ·))
    (ha : (d.run host s).1 = a) (hf : Circles host bench (f a) known (d.run host s).2 b xs) :
    Circles host bench (d >>= f) known s b xs where
  result := by rw [run_bind, ha, hf.result]
  rounds := by
    rw [journal_bind, ha]
    exact hf.rounds.printing hd

theorem then_printing {d : Dialogue α} {f : α → Dialogue β}
    (hd : Circles host bench d known s a xs) (hf : (f a).Only (Request.prints ·)) :
    Circles host bench (d >>= f) known s ((f a).run host (d.run host s).2).1 xs where
  result := by rw [run_bind, hd.result]
  rounds := by
    rw [journal_bind, hd.result, ← after_journal]
    exact hd.rounds.then_printing hf

theorem round {x : Stop σ} {f : Availability × Suite.Known → List Verdict → Dialogue β}
    (hf : Circles host bench (f (x.found host, x.learnt host) ((x.visit host).verdicts host bench))
      (x.learnt host) ((x.visit host).finish host bench) b xs) :
    Circles host bench
      (x.looking >>= fun looked => x.scenario.execute bench looked.1 >>= f looked) x.known x.start
      b (x :: xs) where
  result := by
    rw [run_bind, run_bind]
    exact hf.result
  rounds := by
    rw [journal_bind, journal_bind]
    exact .round hf.rounds

end Circles

namespace Suite

variable (host bench)

theorem runScenarios_circles (t : Transcript) (known : Known) (done : List ScenarioReport)
    (scenarios : List Scenario) (s : σ) :
    ∃ xs result, Circles host bench (runScenarios bench t known done scenarios) known s result xs ∧
      xs.map (·.scenario) <+: scenarios ∧
      ∀ reports, result.1 = .ok reports →
        xs.map (·.scenario) = scenarios ∧
          reports = done ++ xs.map fun x => (x.visit host).entry host bench := by
  induction scenarios generalizing t known done s with
  | nil =>
    refine ⟨[], (.ok done, t), .pure _ known s, List.prefix_refl _, fun reports h => ⟨rfl, ?_⟩⟩
    cases h
    simp
  | cons scenario rest ih =>
    have henter : (t.enter scenario.sectionName).Only (Request.prints ·) :=
      t.enter_only (fun _ => rfl) scenario.sectionName
    set s₁ := ((t.enter scenario.sectionName).run host s).2
    rcases hentered : ((t.enter scenario.sectionName).run host s).1 with ⟨e | ⟨⟩, t₁⟩
    · exact ⟨[], (.error e, t₁), .printing henter hentered (.pure _ _ _), List.nil_prefix,
        fun _ h => by cases h⟩
    let x : Stop σ := ⟨scenario, known, s₁⟩
    have hprint : (printVerdicts t₁ ((x.visit host).verdicts host bench)).Only
        (Request.prints ·) := printVerdicts_only (fun _ => rfl) t₁ _
    set s₂ := ((printVerdicts t₁ ((x.visit host).verdicts host bench)).run host
      ((x.visit host).finish host bench)).2
    rcases hprinted : ((printVerdicts t₁ ((x.visit host).verdicts host bench)).run host
      ((x.visit host).finish host bench)).1 with ⟨e | ⟨⟩, t₂⟩
    · refine ⟨[x], (.error e, t₂), .printing henter hentered (.round (x := x) ?_), ⟨rest, rfl⟩,
        fun _ h => by cases h⟩
      exact .printing hprint hprinted (.pure _ _ _)
    · obtain ⟨xs, result, hcircles, hbegins, hreports⟩ :=
        ih t₂ (x.learnt host) (done ++ [(x.visit host).entry host bench]) s₂
      refine ⟨x :: xs, result, .printing henter hentered (.round (x := x) ?_),
        (List.prefix_cons_inj _).mpr hbegins, fun reports h => ?_⟩
      · exact .printing hprint hprinted hcircles
      · obtain ⟨hall, rfl⟩ := hreports reports h
        exact ⟨by rw [List.map_cons, hall], by rw [List.append_assoc]; rfl⟩

/-- A run goes over a prefix of its scenarios, over all of them if it ends well. -/
theorem run_circles (suite : Suite) (t : Transcript) (s : σ) :
    ∃ xs outcome, Circles host bench (suite.run bench t) [] s outcome xs ∧
      xs.map (·.scenario) <+: suite.scenarios ∧
      ∀ report, outcome.result = .ok report →
        xs.map (·.scenario) = suite.scenarios ∧
          report.scenarios = xs.map fun x => (x.visit host).entry host bench := by
  unfold run
  split
  · rename_i e _
    exact ⟨[], ⟨.error e, suite, t⟩, .pure _ [] s, List.nil_prefix, fun _ h => by cases h⟩
  have hbanner : (t.banner suite.title).Only (Request.prints ·) :=
    t.banner_only (fun _ => rfl) suite.title
  set s₁ := ((t.banner suite.title).run host s).2
  rcases hbegun : ((t.banner suite.title).run host s).1 with ⟨e | ⟨⟩, t₁⟩
  · exact ⟨[], ⟨.error (.transcript e), { suite with phase := .running }, t₁⟩,
      .printing hbanner hbegun (.pure _ _ _), List.nil_prefix, fun _ h => by cases h⟩
  obtain ⟨xs, ⟨ran, t₂⟩, hcircles, hbegins, hreports⟩ :=
    runScenarios_circles host bench t₁ [] [] suite.scenarios s₁
  set s₂ := ((runScenarios bench t₁ [] [] suite.scenarios).run host s₁).2
  rcases ran with e | reports
  · refine ⟨xs, ⟨.error (.transcript e), { suite with phase := .running }, t₂⟩,
      .printing hbanner hbegun ?_, hbegins, fun _ h => by cases h⟩
    exact hcircles.then_printing (only_pure _)
  have hresult : (t₂.suiteResult ⟨suite.title, reports⟩).Only (Request.prints ·) :=
    t₂.suiteResult_only (fun _ => rfl) _
  refine ⟨xs, _, .printing hbanner hbegun (hcircles.then_printing ?_), hbegins, ?_⟩
  · refine hresult.bind fun told => ?_
    split <;> exact only_pure _
  · intro report h
    dsimp only at h
    rw [run_bind] at h
    rcases htold : ((t₂.suiteResult ⟨suite.title, reports⟩).run host
      ((runScenarios bench t₁ [] [] suite.scenarios).run host s₁).2).1 with ⟨e | ⟨⟩, t₃⟩
    · rw [htold] at h
      cases h
    · rw [htold] at h
      cases h
      exact hreports reports rfl

/-- In every run each binary is looked for once, at the first scenario that names it. What was found
there decides what becomes of all the scenarios that name it. -/
theorem consults_once (suite : Suite) (t : Transcript) (s : σ) :
    ∃ xs, Rounds host bench [] s xs ((suite.run bench t).journal host s) ∧
      xs.map (·.scenario) <+: suite.scenarios ∧
      (∀ report, ((suite.run bench t).run host s).1.result = .ok report →
        xs.map (·.scenario) = suite.scenarios ∧
          report.scenarios = xs.map fun x => (x.visit host).entry host bench) ∧
      Consulted host xs ∧
      ((∀ scenario ∈ suite.scenarios, scenario.Judges fun r => r.probes = false) →
        ((suite.run bench t).journal host s).filter (·.request.probes) =
          xs.flatMap (·.probe host)) ∧
      ∀ x ∈ xs, (x.visit host).Treated host bench := by
  obtain ⟨xs, outcome, hcircles, hbegins, hreports⟩ := run_circles host bench suite t s
  refine ⟨xs, hcircles.rounds, hbegins, ?_, hcircles.rounds.consulted, fun hjudges => ?_,
    fun x _ => (x.visit host).treated host bench⟩
  · rw [hcircles.result]
    exact hreports
  · refine hcircles.rounds.filter_probes fun x hx => hjudges x.scenario ?_
    exact hbegins.subset (List.mem_map_of_mem hx)

end Suite

/-- A host whose binaries are gone once they were looked for. -/
def Host.fading : Host Bool where
  answer r gone := match r with
    | .availability _ => (if gone then .missing else .ready, true)
    | r => Host.still.answer r gone

namespace Suite

/-- A binary that is to be located twice, by two names of its directory. -/
def locatedTwice : Suite :=
  ⟨"a", [.locate "s" ⟨"b", .ofString "bin"⟩, .locate "s" ⟨"b", .ofString "bin//"⟩], .registered⟩

/-- The second scenario is told what was found for the first. -/
example :
    let outcome := ((locatedTwice.run .standard .start).run Host.fading false).1
    outcome.result.toOption.map (·.scenarios.flatMap (·.verdicts.map (·.outcome))) =
      some [.pass, .pass] := by
  decide +kernel

theorem consults_once_fading :
    (∀ scenario ∈ locatedTwice.scenarios, scenario.Judges fun r => r.probes = false) ∧
    ∃ xs, Rounds Host.fading .standard [] false xs
        ((locatedTwice.run .standard .start).journal Host.fading false) ∧
      xs.map (·.scenario) = locatedTwice.scenarios ∧ Consulted Host.fading xs ∧
      ((locatedTwice.run .standard .start).journal Host.fading false).filter (·.request.probes) =
        xs.flatMap (·.probe Host.fading) ∧
      ∀ x ∈ xs, (x.visit Host.fading).Treated Host.fading .standard := by
  have hjudges : ∀ scenario ∈ locatedTwice.scenarios,
      scenario.Judges fun r => r.probes = false := by
    have hlocates : ∀ scenario ∈ locatedTwice.scenarios, scenario.action = .locate :=
      List.forall_mem_cons.mpr ⟨rfl, List.forall_mem_singleton.mpr rfl⟩
    intro scenario hmem mode evaluate hruns
    rw [hlocates scenario hmem] at hruns
    cases hruns
  obtain ⟨xs, hrounds, -, hreports, hconsulted, hprobes, htreated⟩ :=
    consults_once Host.fading .standard locatedTwice .start false
  have hreported : ((locatedTwice.run .standard .start).run Host.fading false).1.result.isOk := by
    decide +kernel
  obtain ⟨report, hreport⟩ : ∃ report,
      ((locatedTwice.run .standard .start).run Host.fading false).1.result = .ok report := by
    cases h : ((locatedTwice.run .standard .start).run Host.fading false).1.result with
    | ok report => exact ⟨report, rfl⟩
    | error e =>
      rw [h] at hreported
      cases hreported
  exact ⟨hjudges, xs, hrounds, (hreports report hreport).1, hconsulted, hprobes hjudges, htreated⟩

end Suite

end SmokeBench
