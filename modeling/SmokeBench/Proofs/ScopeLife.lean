import SmokeBench.Proofs.Files
import SmokeBench.Proofs.Visits

/-! The life of a scope. The course of a scenario is cut into its parts: the scope is made, filled,
used by the subject and by the evaluator, and removed. Every part may fail and then the parts after
it are empty, all but the removal. What the removal is answered comes too late to matter. -/

namespace SmokeBench

open Dialogue

/-- What is done for one scenario, in order. -/
structure Course where
  /-- Until a scope is made or cannot be made. -/
  founding : List Exchange
  /-- The scope that was made, and the reply to its removal. -/
  scope : Option (Path × Except IoError Unit)
  filling : List Exchange
  /-- The run of the subject. -/
  tending : List Exchange
  judging : List Exchange

namespace Course

def making (c : Course) : List Exchange := c.scope.toList.map fun x => ⟨.makeDir x.1, .ok ()⟩

def removing (c : Course) : List Exchange := c.scope.toList.map fun x => ⟨.removeTree x.1, x.2⟩

def journal (c : Course) : List Exchange :=
  c.founding ++ c.making ++ c.filling ++ c.tending ++ c.judging ++ c.removing

variable {c : Course} {root : Path} {reply : Except IoError Unit}

theorem making_none (h : c.scope = none) : c.making = [] := by
  rw [making, h]
  rfl

theorem removing_none (h : c.scope = none) : c.removing = [] := by
  rw [removing, h]
  rfl

theorem making_some (h : c.scope = some (root, reply)) :
    c.making = [⟨.makeDir root, .ok ()⟩] := by
  rw [making, h]
  rfl

theorem removing_some (h : c.scope = some (root, reply)) :
    c.removing = [⟨.removeTree root, reply⟩] := by
  rw [removing, h]
  rfl

end Course

/-- No directory is made in these exchanges, which are of the kind that makes a scope. -/
def Vain (j : List Exchange) : Prop := ∀ x ∈ j, x.request.founds ∧ ∀ p, x ≠ ⟨.makeDir p, .ok ()⟩

variable {σ : Type} {host : Host σ} {bench : Bench}

/-- The course of a visit. A scope is for the scenarios that need one, and without it these do
nothing. It is filled by the setup, its removal comes after everything else, and the verdicts are
known before. -/
structure Course.Of (c : Course) (host : Host σ) (bench : Bench) (v : Visit σ) : Prop where
  journal : v.journal host bench = c.journal
  founding : Vain c.founding
  tending : ∀ x ∈ c.tending, x.request.tends
  judging : c.judging = [] ∨ ∃ mode evaluate e s,
    v.scenario.action = .run mode evaluate ∧ c.judging = (evaluate e).journal host s
  needed : c.founding ≠ [] ∨ c.scope ≠ none → v.scenario.needsScope = true
  unhoused : c.scope = none → c.filling = [] ∧
    (v.scenario.needsScope = true → c.tending = [] ∧ c.judging = [])
  housed : ∀ root reply, c.scope = some (root, reply) → ∃ mode evaluate inside,
    v.scenario.action = .run mode evaluate ∧
    inside = after host v.start (c.founding ++ c.making) ∧
    c.filling = (Scenario.prepare ⟨root, true⟩ v.scenario.setup).journal host inside ∧
    v.verdicts host bench = Scenario.verdictsOf v.scenario.name
      ((v.scenario.drive bench (some ⟨root, true⟩) mode evaluate).run host inside).1

theorem Vain.nil : Vain [] := fun x hx => by cases hx

theorem Vain.append {i j : List Exchange} (hi : Vain i) (hj : Vain j) : Vain (i ++ j) := fun x hx =>
  (List.mem_append.mp hx).elim (hi x) (hj x)

theorem vain_one {r : Request} {reply : r.Reply} (h : r.founds)
    (hnot : ∀ p, (⟨r, reply⟩ : Exchange) ≠ ⟨.makeDir p, .ok ()⟩) : Vain [⟨r, reply⟩] := by
  intro x hx
  obtain rfl := List.mem_singleton.mp hx
  exact ⟨h, hnot⟩

theorem vain_of_orients {α : Type} {d : Dialogue α} (h : d.Only (Request.orients ·)) (s : σ) :
    Vain (d.journal host s) := by
  intro x hx
  have horients := h.journal s x hx
  obtain ⟨r, reply⟩ := x
  cases r with
  | environment name => exact ⟨rfl, fun p heq => by cases heq⟩
  | workingDir => exact ⟨rfl, fun p heq => by cases heq⟩
  | _ => cases horients

namespace Scope

theorem createIn_yields (base : Path) (namePrefix : String) (attempts : Nat) (s : σ) :
    (∃ root j, Vain j ∧ Yields host (createIn base namePrefix attempts) s (.ok root)
      (j ++ [⟨.makeDir root, .ok ()⟩])) ∨
    (∃ e j, Vain j ∧ Yields host (createIn base namePrefix attempts) s (.error e) j) := by
  induction attempts generalizing s with
  | zero => exact .inr ⟨_, [], .nil, .pure _ s⟩
  | succ attempts ih =>
    have hname : Yields host (ask .randomSuffix) s _ _ := .ask rfl
    set suffix : String := (host.answer .randomSuffix s).1
    set s₁ := ((ask .randomSuffix).run host s).2
    have hvain : Vain [⟨.randomSuffix, suffix⟩] := vain_one rfl fun p heq => by cases heq
    set root := base.join (.ofString (namePrefix ++ suffix))
    set s₂ := ((ask (.makeDir root)).run host s₁).2
    rcases hreply : (host.answer (.makeDir root) s₁).1 with e | ⟨⟩
    · have hfailed : Vain [⟨.makeDir root, .error e⟩] := vain_one rfl fun p heq => by cases heq
      have hmake := Yields.ask hreply
      by_cases hexists : e = .alreadyExists
      · subst hexists
        rcases ih s₂ with ⟨made, j, hj, hrest⟩ | ⟨e, j, hj, hrest⟩
        · refine .inl ⟨made, _, hvain.append (hfailed.append hj), ?_⟩
          rw [List.append_assoc, List.append_assoc]
          exact Yields.bind hname (Yields.bind hmake hrest)
        · exact .inr ⟨e, _, hvain.append (hfailed.append hj),
            Yields.bind hname (Yields.bind hmake hrest)⟩
      · refine .inr ⟨e, _, hvain.append (hfailed.append .nil),
          Yields.bind hname (Yields.bind hmake ?_)⟩
        split
        · contradiction
        · rename_i heq
          exact absurd (Except.error.inj heq) hexists
        · rename_i heq
          cases heq
          exact .pure _ _
    · refine .inl ⟨root, _, hvain, Yields.bind hname ?_⟩
      exact Yields.bind (.ask hreply) (.pure _ _)

theorem rootIn_yields (namePrefix : String) (base : Except IoError Path) (s : σ) :
    (∃ root j, Vain j ∧ Yields host (rootIn namePrefix base) s (.ok root)
      (j ++ [⟨.makeDir root, .ok ()⟩])) ∨
    (∃ e j, Vain j ∧ Yields host (rootIn namePrefix base) s (.error e) j) := by
  cases base with
  | error e => exact .inr ⟨e, [], .nil, .pure _ s⟩
  | ok base => exact createIn_yields base namePrefix nameAttempts s

variable (host) in
theorem create_yields (parent : Option Path) (namePrefix : String) (s : σ) :
    (∃ root j, Vain j ∧ Yields host (create parent namePrefix) s (.ok ⟨root, true⟩)
      (j ++ [⟨.makeDir root, .ok ()⟩])) ∨
    (∃ e j, Vain j ∧ Yields host (create parent namePrefix) s (.error e) j) := by
  rw [create_eq]
  have hvain : Vain ((baseOf parent).journal host s) := vain_of_orients (baseOf_only parent) s
  have hbase : Yields host (baseOf parent) s _ _ := .self _ s
  set s₁ := ((baseOf parent).run host s).2
  generalize ((baseOf parent).run host s).1 = found at hbase
  obtain ⟨shown, base⟩ := found
  rcases rootIn_yields namePrefix base s₁ with ⟨root, j, hj, hmade⟩ | ⟨e, j, hj, hfailed⟩
  · refine .inl ⟨root, _, hvain.append hj, ?_⟩
    rw [List.append_assoc]
    exact Yields.bind hbase (hmade.map (granted shown))
  · refine .inr ⟨.create shown e, _, hvain.append hj, ?_⟩
    exact Yields.bind hbase (hfailed.map (granted shown))

theorem close_yields (root : Path) (s : σ) :
    Yields host (close ⟨root, true⟩) s ((close ⟨root, true⟩).run host s).1
      [⟨.removeTree root, (host.answer (.removeTree root) s).1⟩] := by
  refine ⟨rfl, ?_⟩
  unfold close
  rw [if_pos rfl, journal_bind, journal_ask]
  split <;> rfl

end Scope

namespace Scenario

variable (s : Scenario) (bench : Bench)

/-- The run of a subject, and what the evaluator asks for if it comes to that. -/
structure Worked (host : Host σ) (evaluate : Evaluator) (tending judging : List Exchange) :
    Prop where
  tending : ∀ x ∈ tending, x.request.tends
  judging : judging = [] ∨ ∃ e st, judging = (evaluate e).journal host st

theorem work_yields (scope : Option Scope) (mode : RunMode) (evaluate : Evaluator) (st : σ) :
    ∃ result tending judging, Worked host evaluate tending judging ∧
      Yields host (s.work bench scope mode evaluate) st result (tending ++ judging) := by
  have hsubject : Yields host (s.subjectRun bench scope mode) st _ _ := .self _ st
  have htending : ∀ x ∈ (s.subjectRun bench scope mode).journal host st, x.request.tends :=
    (s.subjectRun_only bench scope mode).journal st
  set st₁ := ((s.subjectRun bench scope mode).run host st).2
  generalize ((s.subjectRun bench scope mode).run host st).1 = ran at hsubject
  rcases ran with f | ⟨run, observation⟩
  · exact ⟨.error f, _, [], ⟨htending, .inl rfl⟩, Yields.bind hsubject (.pure _ _)⟩
  let e : Evidence := ⟨s.name, s.binary, run, scope.map (·.root), observation⟩
  have hjudged : Yields host (evaluate e) st₁ _ _ := .self _ st₁
  generalize ((evaluate e).run host st₁).1 = judged at hjudged
  rcases judged with p | verdicts
  · exact ⟨.error (.panic p), _, _, ⟨htending, .inr ⟨e, st₁, rfl⟩⟩,
      Yields.bind hsubject (hjudged.bind_pure rfl)⟩
  · exact ⟨.ok verdicts, _, _, ⟨htending, .inr ⟨e, st₁, rfl⟩⟩,
      Yields.bind hsubject (hjudged.bind_pure rfl)⟩

theorem drive_yields (scope : Scope) (mode : RunMode) (evaluate : Evaluator) (st : σ) :
    ∃ result tending judging, Worked host evaluate tending judging ∧
      Yields host (s.drive bench (some scope) mode evaluate) st result
        ((prepare scope s.setup).journal host st ++ (tending ++ judging)) := by
  have hprepare : Yields host (prepare scope s.setup) st _ _ := .self _ st
  set st₁ := ((prepare scope s.setup).run host st).2
  generalize ((prepare scope s.setup).run host st).1 = prepared at hprepare
  rw [drive_some]
  rcases prepared with f | ⟨⟩
  · exact ⟨.error f, [], [], ⟨by simp, .inl rfl⟩, Yields.bind hprepare (.pure _ _)⟩
  · obtain ⟨result, tending, judging, hworked, hwork⟩ :=
      s.work_yields bench (some scope) mode evaluate st₁
    exact ⟨result, tending, judging, hworked, Yields.bind hprepare hwork⟩

theorem Worked.judged {s : Scenario} {mode : RunMode} {evaluate : Evaluator}
    {tending judging : List Exchange} (h : Worked host evaluate tending judging)
    (haction : s.action = .run mode evaluate) :
    judging = [] ∨ ∃ mode evaluate e st,
      s.action = .run mode evaluate ∧ judging = (evaluate e).journal host st := by
  rcases h.judging with hnone | ⟨e, st, heq⟩
  · exact .inl hnone
  · exact .inr ⟨mode, evaluate, e, st, haction, heq⟩

section Isolated

variable {mode : RunMode} {evaluate : Evaluator} {st : σ}
variable {result : Except ScenarioFault (List Verdict)} {i j k : List Exchange}

theorem driveIsolated_plain (hneeds : ¬s.needsScope = true)
    (hwork : Yields host (s.work bench none mode evaluate) st result j) :
    Yields host (s.driveIsolated bench mode evaluate) st result j := by
  unfold driveIsolated
  rw [if_neg hneeds, drive_none]
  exact hwork

theorem driveIsolated_refused {e : ScopeError} (hneeds : s.needsScope = true)
    (hrefused : Yields host (Scope.create bench.scopeParent bench.scopePrefix) st (.error e) j) :
    Yields host (s.driveIsolated bench mode evaluate) st (.error (.scope e)) j := by
  unfold driveIsolated
  rw [if_pos hneeds]
  exact hrefused.bind_pure rfl

/-- The scope is removed whatever the scenario comes to. -/
theorem driveIsolated_made {scope : Scope} (hneeds : s.needsScope = true)
    (hmade : Yields host (Scope.create bench.scopeParent bench.scopePrefix) st (.ok scope) i)
    (hdrive : Yields host (s.drive bench (some scope) mode evaluate)
      ((Scope.create bench.scopeParent bench.scopePrefix).run host st).2 result j)
    {reply : Except ScopeError Unit × Scope}
    (hclosed : Yields host scope.close
      ((s.drive bench (some scope) mode evaluate).run host
        ((Scope.create bench.scopeParent bench.scopePrefix).run host st).2).2 reply k) :
    Yields host (s.driveIsolated bench mode evaluate) st result (i ++ (j ++ k)) := by
  unfold driveIsolated
  rw [if_pos hneeds]
  have hlast := Yields.bind_pure (f := fun _ => Pure.pure result) (hclosed.map fun _ => ()) rfl
  exact Yields.bind hmade (Yields.bind hdrive hlast)

end Isolated

theorem execute_yields {mode : RunMode} {evaluate : Evaluator} {available : Availability}
    (haction : s.action = .run mode evaluate) (hpresent : available.present = true) {st : σ}
    {result : Except ScenarioFault (List Verdict)} {j : List Exchange}
    (h : Yields host (s.driveIsolated bench mode evaluate) st result j) :
    Yields host (s.execute bench available) st (verdictsOf s.name result) j := by
  unfold execute
  rw [haction]
  dsimp only
  rw [if_pos hpresent]
  exact h.bind_pure rfl

end Scenario

namespace Visit

variable {s : Scenario} {available : Availability} {start : σ}

theorem exists_course_plain {verdicts : List Verdict} {tending judging : List Exchange}
    (h : Yields host (s.execute bench available) start verdicts (tending ++ judging))
    (htending : ∀ x ∈ tending, x.request.tends)
    (hjudging : judging = [] ∨ ∃ mode evaluate e st,
      s.action = .run mode evaluate ∧ judging = (evaluate e).journal host st)
    (hneeds : s.needsScope = true → tending = [] ∧ judging = []) :
    ∃ c : Course, c.Of host bench ⟨s, available, start⟩ :=
  ⟨⟨[], none, [], tending, judging⟩,
    { journal := by
        rw [Visit.journal, h.journal]
        simp [Course.journal, Course.making, Course.removing]
      founding := .nil
      tending := htending
      judging := hjudging
      needed := by simp
      unhoused := fun _ => ⟨rfl, hneeds⟩
      housed := fun _ _ h => by cases h }⟩

theorem exists_course_scoped {mode : RunMode} {evaluate : Evaluator}
    (haction : s.action = .run mode evaluate) (hpresent : available.present = true)
    (hneeds : s.needsScope = true) : ∃ c : Course, c.Of host bench ⟨s, available, start⟩ := by
  rcases Scope.create_yields host bench.scopeParent bench.scopePrefix start with
    ⟨root, j, hvain, hmade⟩ | ⟨e, j, hvain, hrefused⟩
  · set s₁ := ((Scope.create bench.scopeParent bench.scopePrefix).run host start).2
    obtain ⟨result, tending, judging, hworked, hdrive⟩ :=
      s.drive_yields bench ⟨root, true⟩ mode evaluate s₁
    set s₂ := ((s.drive bench (some ⟨root, true⟩) mode evaluate).run host s₁).2
    have h := s.execute_yields bench haction hpresent
      (s.driveIsolated_made bench hneeds hmade hdrive (Scope.close_yields root s₂))
    refine ⟨⟨j, some (root, (host.answer (.removeTree root) s₂).1),
      (Scenario.prepare ⟨root, true⟩ s.setup).journal host s₁, tending, judging⟩, ?_⟩
    exact
      { journal := by
          rw [Visit.journal, h.journal]
          simp [Course.journal, Course.making, Course.removing]
        founding := hvain
        tending := hworked.tending
        judging := hworked.judged haction
        needed := fun _ => hneeds
        unhoused := fun h => by cases h
        housed := by
          intro root' reply' heq
          cases heq
          refine ⟨mode, evaluate, s₁, haction, hmade.state, rfl, ?_⟩
          rw [Visit.verdicts, h.result, hdrive.result] }
  · have h := s.execute_yields bench haction hpresent
      (s.driveIsolated_refused bench hneeds hrefused)
    refine ⟨⟨j, none, [], [], []⟩, ?_⟩
    exact
      { journal := by
          rw [Visit.journal, h.journal]
          simp [Course.journal, Course.making, Course.removing]
        founding := hvain
        tending := by simp
        judging := .inl rfl
        needed := fun _ => hneeds
        unhoused := fun _ => ⟨rfl, fun _ => ⟨rfl, rfl⟩⟩
        housed := fun _ _ h => by cases h }

theorem exists_course (host : Host σ) (bench : Bench) (v : Visit σ) :
    ∃ c : Course, c.Of host bench v := by
  obtain ⟨s, available, start⟩ := v
  cases haction : s.action with
  | locate =>
    have h : Yields host (s.execute bench available) start
        [Scenario.locateVerdict s.binary available] ([] ++ []) := by
      unfold Scenario.execute
      rw [haction]
      exact .pure _ _
    exact exists_course_plain h (by simp) (.inl rfl) fun _ => ⟨rfl, rfl⟩
  | run mode evaluate =>
    by_cases hpresent : available.present = true
    · by_cases hneeds : s.needsScope = true
      · exact exists_course_scoped haction hpresent hneeds
      · obtain ⟨result, tending, judging, hworked, hwork⟩ :=
          s.work_yields bench none mode evaluate start
        have h := s.execute_yields bench haction hpresent
          (s.driveIsolated_plain bench hneeds hwork)
        exact exists_course_plain h hworked.tending (hworked.judged haction)
          fun h => absurd h hneeds
    · have h : Yields host (s.execute bench available) start
          [.skip s!"{s.name} (binary not found)"] ([] ++ []) := by
        unfold Scenario.execute
        rw [haction]
        dsimp only
        rw [if_neg hpresent]
        exact .pure _ _
      exact exists_course_plain h (by simp) (.inl rfl) fun _ => ⟨rfl, rfl⟩

end Visit

namespace Course

variable (c : Course) (host) (start : σ)

/-- Where the subject finds the scope. -/
def filled : σ := after host start (c.founding ++ c.making ++ c.filling)

/-- Where the evaluator leaves it. -/
def used : σ := after host (c.filled host start) (c.tending ++ c.judging)

/-- Subject and evaluator leave a directory as it is, their scope apart, and with it the way to the
scope. -/
structure LeavesAlone (files : Files σ) (dir : Place) : Prop where
  entries : ∀ name, (∀ x ∈ c.scope, ¬files.spot (c.filled host start) x.1 <+: dir ++ [name]) →
    (files.there (c.used host start) (dir ++ [name]) ↔
      files.there (c.filled host start) (dir ++ [name]))
  way : ∀ x ∈ c.scope,
    files.spot (c.used host start) x.1 = files.spot (c.filled host start) x.1

def Cleared : Prop := ∀ x ∈ c.scope, x.2 = .ok () ∨ x.2 = .error .notFound

variable {c host start}

theorem vain_there {files : Files σ} (kept : files.KeptBy host) {j : List Exchange} (hj : Vain j)
    {s : σ} (h : Genuine host s j) (q : Place) :
    files.there (after host s j) q ↔ files.there s q := by
  induction j generalizing s with
  | nil => exact Iff.rfl
  | cons x j ih =>
    obtain ⟨hfounds, hnot⟩ := hj x List.mem_cons_self
    have hrest := ih (fun y hy => hj y (List.mem_cons_of_mem _ hy)) h.2
    refine hrest.trans ?_
    obtain ⟨r, reply⟩ := x
    cases r with
    | makeDir p =>
      rcases reply with e | ⟨⟩
      · exact kept.notMade p s e q h.1.symm
      · exact absurd rfl (hnot p)
    | environment name => exact kept.read (.environment name) s q rfl
    | workingDir => exact kept.read .workingDir s q rfl
    | randomSuffix => exact kept.read .randomSuffix s q rfl
    | _ => cases hfounds

theorem made_confined {files : Files σ} (kept : files.KeptBy host) {s : σ} {root : Path}
    (h : (host.answer (.makeDir root) s).1 = .ok ()) :
    files.Confined root (files.spot s root) (files.there s) (host.answer (.makeDir root) s).2 := by
  obtain ⟨hsealed, hspot⟩ := kept.madeSealed root s h
  refine ⟨hsealed, hspot, fun q hq => ?_⟩
  rw [kept.made root s q h]
  exact or_iff_left fun heq => hq (heq ▸ List.prefix_refl _)

namespace Of

variable {v : Visit σ} (hc : c.Of host bench v)

include hc

theorem genuine : Genuine host v.start c.journal := by
  rw [← hc.journal]
  exact genuine_journal _ _

theorem finish_eq : v.finish host bench = after host (c.used host v.start) c.removing := by
  have hfinish : v.finish host bench = after host v.start c.journal := by
    rw [← hc.journal]
    exact (after_journal _ _).symm
  rw [hfinish]
  simp only [Course.journal, used, filled, after_append]

theorem founding_there {files : Files σ} (kept : files.KeptBy host) (q : Place) :
    files.there (after host v.start c.founding) q ↔ files.there v.start q := by
  have h := hc.genuine
  simp only [Course.journal, genuine_append] at h
  exact vain_there kept hc.founding h.1.1.1.1.1 q

variable {root : Path} {reply : Except IoError Unit} (hscope : c.scope = some (root, reply))

include hscope

theorem make_ok : (host.answer (.makeDir root) (after host v.start c.founding)).1 = .ok () := by
  have h := hc.genuine
  have hmaking := making_some hscope
  simp only [Course.journal, genuine_append, hmaking] at h
  exact h.1.1.1.1.2.1.symm

theorem remove_reply : (host.answer (.removeTree root) (c.used host v.start)).1 = reply := by
  have h := hc.genuine
  have hremoving := removing_some hscope
  rw [Course.journal, genuine_append, hremoving] at h
  simp only [used, filled, ← after_append, ← List.append_assoc]
  exact h.2.1.symm

/-- Once the scope is filled it is still where it was made, and nothing else has changed. -/
theorem filled_confined {files : Files σ} (kept : files.KeptBy host) :
    files.Confined root (files.spot (after host v.start c.founding) root) (files.there v.start)
      (c.filled host v.start) := by
  obtain ⟨mode, evaluate, inside, -, hinside, hfilling, -⟩ := hc.housed root reply hscope
  have hmaking := making_some hscope
  have hmade := made_confined kept (hc.make_ok hscope)
  have hstart : files.Confined root (files.spot (after host v.start c.founding) root)
      (files.there v.start) inside := by
    rw [hinside, after_append, hmaking]
    exact ⟨hmade.sealed, hmade.spot, fun q hq =>
      (hmade.outside q hq).trans (hc.founding_there kept q)⟩
  rw [filled, after_append, ← hinside, hfilling, after_journal]
  exact Files.prepare_confined kept ⟨root, true⟩ v.scenario.setup inside hstart

end Of

/-- A scope that is removed takes with it whatever came into it, and nothing else. -/
theorem Of.entries_kept {v : Visit σ} (hc : c.Of host bench v) {files : Files σ}
    (kept : files.KeptBy host) {dir : Place} (hleaves : c.LeavesAlone host v.start files dir)
    (hcleared : c.Cleared) (name : Bytes) :
    files.there (v.finish host bench) (dir ++ [name]) ↔ files.there v.start (dir ++ [name]) := by
  rw [hc.finish_eq]
  rcases hscope : c.scope with _ | ⟨root, reply⟩
  · have hmaking := making_none hscope
    have hremoving := removing_none hscope
    have hfilled : c.filled host v.start = after host v.start c.founding := by
      rw [filled, hmaking, (hc.unhoused hscope).1, List.append_nil, List.append_nil]
    have hused := hleaves.entries name (by simp [hscope])
    rw [hremoving, after_nil, hused, hfilled]
    exact hc.founding_there kept _
  · have hremoving := removing_some hscope
    have hconfined := hc.filled_confined hscope kept
    have hway := hleaves.way (root, reply) hscope
    have hreply := hc.remove_reply hscope
    have hremoved := kept.removed root (c.used host v.start) (dir ++ [name])
      (by rw [hreply]; exact hcleared (root, reply) hscope)
    rw [hremoving]
    refine hremoved.trans ?_
    rw [hway, hconfined.spot]
    by_cases hunder : files.spot (after host v.start c.founding) root <+: dir ++ [name]
    · have hfree := kept.free root _ (hc.make_ok hscope)
      refine iff_of_false (fun h => h.2 hunder) fun h => hfree ?_
      exact kept.above _ _ _ hunder ((hc.founding_there kept _).mpr h)
    · have hused := hleaves.entries name fun x hx => by
        obtain rfl : x = (root, reply) := Option.some.inj (hx.symm.trans hscope)
        rwa [hconfined.spot]
      rw [and_iff_left hunder, hused]
      exact hconfined.outside _ hunder

end Course

/-- A run makes one scope at most for each scenario that needs one. It removes every scope it made,
once, after the evaluator and before the next scenario; and a directory that subject and evaluator
leave alone has after the scenario the entries it had before. -/
theorem Suite.run_houses (host : Host σ) (bench : Bench) (suite : Suite) (t : Transcript) (s : σ) :
    ∃ visits : List (Visit σ),
      Walk host bench s visits ((suite.run bench t).journal host s) ∧
      visits.map (·.scenario) <+: suite.scenarios ∧
      (∀ report, ((suite.run bench t).run host s).1.result = .ok report →
        visits.map (·.scenario) = suite.scenarios ∧
          report.scenarios = visits.map (·.entry host bench)) ∧
      ∀ v ∈ visits, ∃ c : Course, c.Of host bench v ∧
        ∀ (files : Files σ) (dir : Place), files.KeptBy host →
          c.LeavesAlone host v.start files dir → c.Cleared →
          ∀ name, files.there (v.finish host bench) (dir ++ [name]) ↔
            files.there v.start (dir ++ [name]) := by
  obtain ⟨visits, outcome, htours, hbegins, hreport⟩ :=
    suite.run_tours host bench t s
  refine ⟨visits, htours.walk, hbegins, ?_, fun v _ => ?_⟩
  · rw [htours.result]
    exact hreport
  · obtain ⟨c, hc⟩ := v.exists_course host bench
    exact ⟨c, hc, fun files dir kept hleaves hcleared => hc.entries_kept kept hleaves hcleared⟩

/-- A scenario with a scope and a setup, whose evaluator panics. -/
def furnished : Scenario :=
  .withSetup
    (.bounded "Data" "directory" ⟨"daemon", .ofString "/bin"⟩ ["\x7bscope\x7d"] .zero
      fun _ => pure (.error .payload))
    (.createDir (.ofString "data/logs"))

def tmp : Place := [Bytes.ofString "tmp"]

theorem Shelf.after_eq {j : List Exchange} (h : ∀ x ∈ j, x.request.tends) (s : List Place) :
    after .shelf s j = s := by
  induction j with
  | nil => rfl
  | cons x j ih =>
    have hsame : (Host.shelf.answer x.request s).2 = s := by
      have hx := h x List.mem_cons_self
      cases hr : x.request <;> first | rfl | (rw [hr] at hx; cases hx)
    exact (congrArg (after .shelf · j) hsame).trans (ih fun y hy => h y (List.mem_cons_of_mem _ hy))

theorem run_houses_furnished :
    ∃ visits : List (Visit (List Place)),
      Walk .shelf .standard [tmp] visits
        ((Suite.run ⟨"Data", [furnished], .registered⟩ .standard .start).journal .shelf [tmp]) ∧
      ∀ v ∈ visits, ∀ name, Shelf.There (v.finish .shelf .standard) (tmp ++ [name]) ↔
        Shelf.There v.start (tmp ++ [name]) := by
  obtain ⟨visits, hwalk, hbegins, -, hvisits⟩ :=
    Suite.run_houses .shelf .standard ⟨"Data", [furnished], .registered⟩ .start [tmp]
  refine ⟨visits, hwalk, fun v hv => ?_⟩
  obtain ⟨c, hc, hentries⟩ := hvisits v hv
  have hscenario : v.scenario = furnished :=
    List.mem_singleton.mp (hbegins.subset (List.mem_map_of_mem hv))
  have hjudging : c.judging = [] := by
    rcases hc.judging with hnone | ⟨mode, evaluate, e, s, haction, heq⟩
    · exact hnone
    · rw [hscenario] at haction
      cases haction
      exact heq
  have hused : c.used .shelf v.start = c.filled .shelf v.start := by
    rw [Course.used, hjudging, List.append_nil]
    exact Shelf.after_eq hc.tending _
  have hleaves : c.LeavesAlone Host.shelf v.start Shelf.files tmp :=
    ⟨fun name _ => by rw [hused], fun x _ => rfl⟩
  refine hentries Shelf.files tmp Shelf.files_keptBy hleaves ?_
  rintro ⟨root, reply⟩ hscope
  rw [← hc.remove_reply hscope]
  exact Shelf.clear_reply _ root.names

end SmokeBench
