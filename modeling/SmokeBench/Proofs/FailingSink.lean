import SmokeBench.Proofs.Rendering

/-! What a run writes to a sink that may fail at any line. The lines of a report are tried in order,
and the first one that the sink refuses is the last one tried. Where it stands among the lines of
the report tells how far the run came. -/

namespace SmokeBench

open Dialogue

/-- A text that the sink was to take, and what it replied. -/
abbrev Attempt := String × Except IoError Unit

def Exchange.attempt : Exchange → Option Attempt
  | ⟨.print text, reply⟩ => some (text, reply)
  | _ => none

def attempts (j : List Exchange) : List Attempt := j.filterMap Exchange.attempt

@[simp] theorem attempts_nil : attempts [] = [] := rfl

@[simp] theorem attempts_append (i j : List Exchange) :
    attempts (i ++ j) = attempts i ++ attempts j :=
  List.filterMap_append

variable {σ α β : Type} {host : Host σ}

theorem attempts_eq_nil {j : List Exchange} (h : ∀ x ∈ j, x.request.Silent) : attempts j = [] := by
  refine List.filterMap_eq_nil_iff.mpr fun x hx => ?_
  have hsilent := h x hx
  obtain ⟨r, reply⟩ := x
  cases r with
  | print text => exact hsilent.elim
  | _ => rfl

variable (host) in
theorem attempts_of_silent {d : Dialogue α} (h : d.Only Request.Silent) (s : σ) :
    attempts (d.journal host s) = [] := attempts_eq_nil (h.journal s)

def accepted (lines : List String) : List Attempt := lines.map fun line => (line ++ "\n", .ok ())

@[simp] theorem accepted_append (a b : List String) :
    accepted (a ++ b) = accepted a ++ accepted b :=
  List.map_append

/-- After the lines `past` some lines were tried, and the last of these was refused. -/
def Refused (past lines : List String) (e : IoError) (as : List Attempt) : Prop :=
  ∃ before line after, lines = before ++ line :: after ∧
    as = accepted (past ++ before) ++ [(line ++ "\n", .error e)]

/-- How the lines were tried, by what came of it. -/
def Tried (lines : List String) (as : List Attempt) : Except IoError Unit → Prop
  | .ok () => as = accepted lines
  | .error e => Refused [] lines e as

namespace Refused

variable {past lines more : List String} {e : IoError} {as : List Attempt}

theorem length (h : Refused past lines e as) :
    past.length < as.length ∧ as.length ≤ past.length + lines.length := by
  obtain ⟨before, line, after, rfl, rfl⟩ := h
  simp only [accepted, List.length_append, List.length_map, List.length_cons, List.length_nil]
  omega

theorem not_accepted (h : Refused past lines e as) (all : List String) : as ≠ accepted all := by
  obtain ⟨before, line, after, -, rfl⟩ := h
  intro heq
  have hmem : (line ++ "\n", .error e) ∈ accepted all := by
    rw [← heq]
    exact List.mem_append_right _ (List.mem_singleton_self _)
  obtain ⟨_, -, hpair⟩ := List.mem_map.mp hmem
  exact absurd (Prod.ext_iff.mp hpair).2 (by simp)

/-- What was accepted before may be counted to what is past. -/
theorem after_accepted (h : Refused past lines e as) (earlier : List String) :
    Refused (earlier ++ past) lines e (accepted earlier ++ as) := by
  obtain ⟨before, line, after, hlines, rfl⟩ := h
  exact ⟨before, line, after, hlines, by simp⟩

theorem extend (h : Refused past lines e as) (more : List String) :
    Refused past (lines ++ more) e as := by
  obtain ⟨before, line, after, rfl, has⟩ := h
  exact ⟨before, line, after ++ more, by simp, has⟩

theorem absorb (h : Refused past lines e as) : Refused [] (past ++ lines) e as := by
  obtain ⟨before, line, after, rfl, has⟩ := h
  exact ⟨past ++ before, line, after, by simp, has⟩

end Refused

namespace Tried

variable {first rest : List String} {as bs : List Attempt}

theorem append {r : Except IoError Unit} (h : Tried first as (.ok ())) (hrest : Tried rest bs r) :
    Tried (first ++ rest) (as ++ bs) r := by
  obtain rfl : as = accepted first := h
  cases r with
  | error e =>
    have hmore := (Refused.after_accepted hrest first).absorb
    rw [List.append_nil] at hmore
    exact hmore
  | ok =>
    obtain rfl : bs = accepted rest := hrest
    exact (accepted_append first rest).symm

theorem stop {e : IoError} (h : Tried first as (.error e)) (rest : List String) :
    Tried (first ++ rest) as (.error e) := Refused.extend h rest

end Tried

/-- From a state on, a step comes to a transcript and tries to write some lines. -/
def Tries (host : Host σ) (step : Transcript.Step) (s : σ) (t : Transcript) (lines : List String) :
    Prop :=
  ∃ r j, Yields host step s (r, t) j ∧ Tried lines (attempts j) r

namespace Transcript

theorem printLines_tried (lines : List String) (s : σ) :
    Tried lines (attempts ((printLines lines).journal host s))
      ((printLines lines).run host s).1 := by
  induction lines generalizing s with
  | nil => rfl
  | cons line rest ih =>
    have hrest := ih (host.answer (.print (line ++ "\n")) s).2
    rw [printLines, journal_bind, run_bind, attempts_append, journal_ask, run_ask]
    rcases (host.answer (.print (line ++ "\n")) s).1 with e | ⟨⟩
    · exact ⟨[], line, rest, rfl, rfl⟩
    · have hfirst : Tried [line] (attempts [⟨.print (line ++ "\n"), .ok ()⟩]) (.ok ()) := rfl
      exact hfirst.append hrest

variable (host) in
theorem print_tries (lines : List String) (t : Transcript) (s : σ) :
    Tries host (do return (← printLines lines, t)) s t lines :=
  ⟨_, _, (Yields.self _ s).bind_pure rfl, printLines_tried lines s⟩

variable (host) in
theorem enter_tries (t : Transcript) (name : String) (s : σ) :
    Tries host (t.enter name) s ⟨some name⟩ (headerLines t.sectionName name) := by
  unfold enter headerLines
  by_cases h : t.sectionName = some name
  · rw [if_pos h, if_pos h]
    have ht : t = ⟨some name⟩ := by rw [← h]
    rw [ht]
    exact ⟨.ok (), [], .pure _ s, rfl⟩
  · rw [if_neg h, if_neg h]
    exact print_tries host _ _ s

end Transcript

namespace Suite

variable (host) in
theorem printVerdicts_tries (t : Transcript) (vs : List Verdict) (s : σ) :
    Tries host (printVerdicts t vs) s t (vs.map Verdict.display) := by
  induction vs generalizing s with
  | nil => exact ⟨.ok (), [], .pure _ s, rfl⟩
  | cons v rest ih =>
    obtain ⟨r, i, hverdict, htried⟩ := Transcript.print_tries host [v.display] t s
    rcases r with e | ⟨⟩
    · exact ⟨.error e, i, hverdict.bind_pure rfl, htried.stop _⟩
    · obtain ⟨r, j, hrest, hmore⟩ := ih ((t.verdict v).run host s).2
      refine ⟨r, i ++ j, hverdict.bind hrest, ?_⟩
      rw [attempts_append]
      exact htried.append hmore

/-- The entry of a scenario that the run did not come to. -/
def unreached (s : Scenario) : ScenarioReport := ⟨s.sectionName, s.name, [.info "not reached"]⟩

theorem unreached_tells (scenarios : List Scenario) :
    List.Forall₂ (fun s r => ScenarioReport.Tells r s) scenarios (scenarios.map unreached) := by
  induction scenarios with
  | nil => exact .nil
  | cons s rest ih => exact .cons ⟨rfl, rfl, by simp [unreached]⟩ ih

variable (host) in
/-- The lines of a report are tried in order; from where one is refused the entries are open. -/
theorem runScenarios_tries (bench : Bench) (t : Transcript) (known : Known)
    (done : List ScenarioReport) (scenarios : List Scenario)
    (hjudges : ∀ s ∈ scenarios, s.Judges Request.Silent) (st : σ) :
    ∃ entries r t' j, List.Forall₂ (fun s r => ScenarioReport.Tells r s) scenarios entries ∧
      Yields host (runScenarios bench t known done scenarios) st
        (r.map fun _ => done ++ entries, t') j ∧
      Tried (SuiteReport.entryLines t.sectionName entries) (attempts j) r := by
  induction scenarios generalizing t known done st with
  | nil =>
    refine ⟨[], .ok (), t, [], .nil, ?_, rfl⟩
    rw [List.append_nil]
    exact .pure _ st
  | cons s rest ih =>
    have hquiet := s.execute_silent (hjudges s (by simp)) bench
    obtain ⟨r, i, henter, hheader⟩ :=
      Transcript.enter_tries host t s.sectionName st
    set s₁ := ((t.enter s.sectionName).run host st).2
    rcases r with e | ⟨⟩
    · refine ⟨(s :: rest).map unreached, .error e, _, i, unreached_tells _,
        henter.bind_pure rfl, ?_⟩
      rw [List.map_cons, SuiteReport.entryLines_cons, List.append_assoc]
      exact hheader.stop _
    have hlook : Yields host (lookUp known s.binary) s₁ _ _ := .self _ s₁
    have hlooked := attempts_of_silent host (lookUp_silent known s.binary) s₁
    set looked := (lookUp known s.binary).run host s₁
    have hexec : Yields host (s.execute bench looked.1.1) looked.2 _ _ := .self _ looked.2
    have hexecuted := attempts_of_silent host (hquiet looked.1.1) looked.2
    set ran := (s.execute bench looked.1.1).run host looked.2
    obtain ⟨r, k, hprint, hverdicts⟩ :=
      printVerdicts_tries host ⟨some s.sectionName⟩ ran.1 ran.2
    set s₂ := ((printVerdicts ⟨some s.sectionName⟩ ran.1).run host ran.2).2
    let entry : ScenarioReport := ⟨s.sectionName, s.name, ran.1⟩
    have hentry : entry.Tells s := ⟨rfl, rfl, s.execute_ne_nil bench _ _⟩
    rcases r with e | ⟨⟩
    · refine ⟨entry :: rest.map unreached, .error e, _, _, .cons hentry (unreached_tells _),
        henter.bind (hlook.bind (hexec.bind (hprint.bind_pure rfl))), ?_⟩
      rw [attempts_append, attempts_append, attempts_append, hlooked, hexecuted,
        SuiteReport.entryLines_cons]
      exact (hheader.append hverdicts).stop _
    · obtain ⟨entries, r, t', j, hmatch, hrest, hlines⟩ := ih ⟨some s.sectionName⟩ looked.1.2
        (done ++ [entry]) (fun x hx => hjudges x (by simp [hx])) s₂
      rw [List.append_assoc, List.singleton_append] at hrest
      refine ⟨entry :: entries, r, t', _, .cons hentry hmatch,
        henter.bind (hlook.bind (hexec.bind (hprint.bind hrest))), ?_⟩
      rw [attempts_append, attempts_append, attempts_append, attempts_append, hlooked, hexecuted,
        SuiteReport.entryLines_cons]
      rw [List.append_assoc]
      exact hheader.append (hverdicts.append hlines)

end Suite

namespace SuiteReport

def openingLines (r : SuiteReport) : List String :=
  Transcript.bannerLines r.title ++ entryLines none r.scenarios

end SuiteReport

/-- How a run ended, by the lines of a report that it tried to write. -/
inductive Ended (report : SuiteReport) (as : List Attempt) :
    Except SuiteError SuiteReport → Phase → Prop
  | reported (h : as = accepted report.lines) : Ended report as (.ok report) .reported
  | aggregated {e : IoError}
      (h : Refused report.openingLines (Transcript.resultLines report) e as) :
      Ended report as (.error (.transcript e)) .aggregated
  | running {e : IoError} (h : Refused [] report.openingLines e as) :
      Ended report as (.error (.transcript e)) .running

namespace Ended

variable {report : SuiteReport} {as : List Attempt} {result : Except SuiteError SuiteReport}
  {phase : Phase} (h : Ended report as result phase)

include h

theorem reported_iff : phase = .reported ↔ ∃ r, result = .ok r := by
  cases h with
  | reported h => exact iff_of_true rfl ⟨report, rfl⟩
  | aggregated h => exact iff_of_false (by simp) (by simp)
  | running h => exact iff_of_false (by simp) (by simp)

theorem aggregated_iff : phase = .aggregated ↔
    ∃ e, Refused report.openingLines (Transcript.resultLines report) e as := by
  cases h with
  | reported h =>
    exact iff_of_false (by simp) fun ⟨e, hrefused⟩ => hrefused.not_accepted _ h
  | aggregated h => exact iff_of_true rfl ⟨_, h⟩
  | running h =>
    refine iff_of_false (by simp) fun ⟨e, hrefused⟩ => ?_
    have hearly := h.length.2
    have hlate := hrefused.length.1
    rw [List.length_nil] at hearly
    omega

theorem running_iff : phase = .running ↔ ∃ e, Refused [] report.openingLines e as := by
  cases h with
  | reported h =>
    exact iff_of_false (by simp) fun ⟨e, hrefused⟩ => hrefused.not_accepted _ h
  | aggregated h =>
    refine iff_of_false (by simp) fun ⟨e, hrefused⟩ => ?_
    have hlate := h.length.1
    have hearly := hrefused.length.2
    rw [List.length_nil] at hearly
    omega
  | running h => exact iff_of_true rfl ⟨_, h⟩

end Ended

namespace Suite

variable (host) in
theorem run_ended (bench : Bench) (suite : Suite) (t : Transcript)
    (hphase : suite.phase = .registered)
    (hjudges : ∀ s ∈ suite.scenarios, s.Judges Request.Silent) (st : σ) :
    ∃ report : SuiteReport, report.title = suite.title ∧
      List.Forall₂ (fun s r => ScenarioReport.Tells r s) suite.scenarios report.scenarios ∧
      Ended report (attempts ((suite.run bench t).journal host st))
        ((suite.run bench t).run host st).1.result
        ((suite.run bench t).run host st).1.suite.phase := by
  have hexpect : suite.expectRegistered = .ok () := by simp [expectRegistered, hphase]
  obtain ⟨r, i, hbanner, hopened⟩ :=
    Transcript.print_tries host (Transcript.bannerLines suite.title) ⟨none⟩ st
  set s₁ := ((t.banner suite.title).run host st).2
  obtain ⟨entries, r', t', j, hmatch, hscenarios, hentries⟩ :=
    runScenarios_tries host bench ⟨none⟩ [] [] suite.scenarios hjudges s₁
  set s₂ := ((runScenarios bench ⟨none⟩ [] [] suite.scenarios).run host s₁).2
  let report : SuiteReport := ⟨suite.title, entries⟩
  refine ⟨report, rfl, hmatch, ?_⟩
  have hend {o : Outcome} {j : List Exchange} (h : Yields host (suite.run bench t) st o j)
      (hended : Ended report (attempts j) o.result o.suite.phase) :
      Ended report (attempts ((suite.run bench t).journal host st))
        ((suite.run bench t).run host st).1.result
        ((suite.run bench t).run host st).1.suite.phase := by
    rw [h.result, h.journal]
    exact hended
  unfold run at hend ⊢
  rw [hexpect] at hend ⊢
  rcases r with e | ⟨⟩
  · exact hend (hbanner.bind_pure rfl) (.running (hopened.stop _))
  rcases r' with e | ⟨⟩
  · refine hend (hbanner.bind (hscenarios.bind_pure rfl)) (.running ?_)
    rw [attempts_append]
    exact hopened.append hentries
  obtain ⟨r'', k, hresult, htold⟩ :=
    Transcript.print_tries host (Transcript.resultLines report) t' s₂
  have hopening : Tried report.openingLines (attempts i ++ attempts j) (.ok ()) :=
    hopened.append hentries
  rcases r'' with e | ⟨⟩
  · refine hend (hbanner.bind (hscenarios.bind (hresult.bind_pure rfl))) (.aggregated ?_)
    rw [attempts_append, attempts_append, ← List.append_assoc, show _ ++ _ = _ from hopening]
    have hlast := Refused.after_accepted htold report.openingLines
    rwa [List.append_nil] at hlast
  · refine hend (hbanner.bind (hscenarios.bind (hresult.bind_pure rfl))) (.reported ?_)
    rw [attempts_append, attempts_append, ← List.append_assoc]
    exact hopening.append htold

end Suite

end SmokeBench
