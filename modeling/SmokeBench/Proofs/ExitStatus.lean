import SmokeBench.Proofs.Agreement
import SmokeBench.Proofs.ProgramSteps
import SmokeBench.Proofs.SummaryFiles

/-! The status that the program ends with. Two says that the settings could not be loaded, and then
nothing but settings was asked for. Otherwise a run of suites ends with zero exactly if it was
without a fault, and with one if it was not; there is no third way. -/

namespace SmokeBench.Program

open Dialogue

/-- Both files of the summary were stored, if one is wanted. -/
def Recorded (s : Settings) (j : List Exchange) : Prop :=
  ∀ dir, s.summaryDir = some dir →
    Stored j (RunSummary.jsonPath dir) ∧ Stored j (RunSummary.digestPath dir)

/-- Takes part in writing a summary of these reports. -/
def Records (reports : List SuiteReport) (r : Request) : Prop :=
  r.digs ∨ r = .calendar ∨
    ∃ (summary : RunSummary) (dir : Path), summary.suites = reports ∧ summary.IsFile dir r

section Recorded

variable {s : Settings} {i j : List Exchange}

theorem spares_stored (h : ∀ x ∈ i, x.request.SparesSummaries) (dir : Path) :
    ¬ Stored i (RunSummary.jsonPath dir) ∧ ¬ Stored i (RunSummary.digestPath dir) :=
  ⟨not_stored h fun content hspares => (hspares dir content).1 rfl,
    not_stored h fun content hspares => (hspares dir content).2 rfl⟩

theorem recorded_append_left (hi : ∀ x ∈ i, x.request.SparesSummaries) :
    Recorded s (i ++ j) ↔ Recorded s j := by
  have hnone := spares_stored hi
  unfold Recorded
  simp only [stored_append, or_iff_right (hnone _).1, or_iff_right (hnone _).2]

theorem recorded_append_right (hj : ∀ x ∈ j, x.request.SparesSummaries) :
    Recorded s (i ++ j) ↔ Recorded s i := by
  have hnone := spares_stored hj
  unfold Recorded
  simp only [stored_append, or_iff_left (hnone _).1, or_iff_left (hnone _).2]

end Recorded

section Conclusion

variable {σ : Type} (host : Host σ) (s : Settings) (started : Nat) (reports : List SuiteReport)

theorem record_records : (record s started reports).run.Only (Records reports) := by
  cases hdir : s.summaryDir with
  | none =>
    unfold record
    rw [hdir]
    exact only_pure _
  | some dir =>
    rw [record_some started reports hdir]
    refine Only.bind (only_ask (.inr (.inl rfl))) fun ended => ?_
    apply ((RunSummary.writeTo_only _ dir).map _).mono
    rintro r (hdigs | hfile)
    · exact .inl hdigs
    · exact .inr (.inr ⟨_, dir, rfl, hfile⟩)

theorem record_result (st : σ) :
    (((record s started reports).run.run host st).1 = .ok () ∧
      Recorded s ((record s started reports).run.journal host st)) ∨
    ((∃ message, ((record s started reports).run.run host st).1 = .error (failedRun message)) ∧
      ¬ Recorded s ((record s started reports).run.journal host st)) := by
  unfold Recorded
  cases hdir : s.summaryDir with
  | none =>
    unfold record
    rw [hdir]
    exact .inl ⟨rfl, fun _ h => nomatch h⟩
  | some dir =>
    have hiff := RunSummary.writeTo_ok_iff
      (.of started (host.answer .calendar st).1 reports) dir host (host.answer .calendar st).2
    have hcalendar (p : Path) : ¬ Stored ((ask .calendar).journal host st) p :=
      not_stored (P := (· = .calendar)) (fun x hx => by rw [List.mem_singleton.mp hx])
        fun _ h => nomatch h
    rw [record_some started reports hdir, run_bind, journal_bind, run_map, journal_map]
    simp only [Option.some.injEq, forall_eq', stored_append, or_iff_right (hcalendar _)]
    rw [run_ask, ← hiff]
    rcases ((RunSummary.writeTo _ dir).run host _).1 with e | paths
    · exact .inr ⟨⟨_, rfl⟩, by simp⟩
    · exact .inl ⟨rfl, paths, rfl⟩

theorem silent_of_records {r : Request} (h : Records reports r) : r.Silent := by
  rcases h with hdigs | rfl | ⟨summary, dir, -, rfl | rfl⟩
  · cases r <;> trivial
  · trivial
  · trivial
  · trivial

/-- After the last suite the status is that of the reports, if they were told and recorded. -/
theorem conclude_result (t : Transcript) (st : σ) :
    (((conclude s started reports t).run.run host st).1 =
        .ok (if reports.any (·.failed) then 1 else 0) ∧
      attempts ((conclude s started reports t).run.journal host st) =
        accepted (Transcript.overallLines reports) ∧
      Recorded s ((conclude s started reports t).run.journal host st)) ∨
    ((∃ f, ((conclude s started reports t).run.run host st).1 = .error f ∧ f.status = 1) ∧
      ¬ (attempts ((conclude s started reports t).run.journal host st) =
          accepted (Transcript.overallLines reports) ∧
        Recorded s ((conclude s started reports t).run.journal host st))) := by
  have htried : Tried _ (attempts ((Transcript.printLines (Transcript.overallLines reports)).journal
      host st)) _ := Transcript.printLines_tried (Transcript.overallLines reports) st
  have hprinted : ∀ x ∈ (Transcript.printLines (Transcript.overallLines reports)).journal host st,
      x.request.SparesSummaries :=
    (Transcript.printLines_only (fun _ => Request.spares_of_announces rfl) _).journal st
  rw [conclude_run, run_bind, journal_bind, attempts_append, recorded_append_left hprinted]
  cases hr : ((Transcript.printLines (Transcript.overallLines reports)).run host st).1 with
  | error e =>
    rw [hr] at htried
    refine .inr ⟨⟨_, rfl, rfl⟩, ?_⟩
    rintro ⟨haccepted, -⟩
    rw [journal_pure, attempts_nil, List.append_nil] at haccepted
    exact htried.not_accepted _ haccepted
  | ok u =>
    rw [hr] at htried
    have hsilent := attempts_of_silent host
      ((record_records s started reports).mono fun _ => silent_of_records reports)
    dsimp only
    rw [run_map, journal_map, hsilent, List.append_nil, show attempts _ = _ from htried]
    rcases record_result host s started reports _ with ⟨hok, hrecorded⟩ | ⟨⟨message, herror⟩, hnot⟩
    · rw [hok]
      exact .inl ⟨rfl, rfl, hrecorded⟩
    · rw [herror]
      exact .inr ⟨⟨_, rfl, rfl⟩, fun h => hnot h.2⟩

theorem conclude_asks (t : Transcript) : (conclude s started reports t).run.Only fun r =>
    r.announces ∨ Records reports r := by
  rw [conclude_run]
  refine (Transcript.printLines_only (fun _ => .inl rfl) _).bind fun r => ?_
  split
  · exact only_pure _
  · exact ((record_records s started reports).map _).mono fun _ => .inr

end Conclusion

def transcriptLines (reports : List SuiteReport) : List String :=
  reports.flatMap (·.lines) ++ Transcript.overallLines reports

/-- A run without a fault: every suite came to its end, no check failed, the sink took the whole
transcript, and the summary that is wanted was stored. -/
structure Succeeds (s : Settings) (suites : List Suite) (os : List Suite.Outcome)
    (j : List Exchange) : Prop where
  reported : Suite.AllReported suites os
  passed : ∀ r ∈ Suite.reports os, ∀ v ∈ r.verdicts, v.outcome ≠ .fail
  taken : attempts j = accepted (transcriptLines (Suite.reports os))
  recorded : Recorded s j

/-- Reports on exactly the selected suites, each of them once and in canonical order. -/
def Covers (selected : List SuiteKind) (s : Settings) (reports : List SuiteReport) : Prop :=
  ∃ kinds : List SuiteKind, kinds.Sublist SuiteKind.all ∧
    (∀ k, k ∈ kinds ↔ selected = [] ∨ k ∈ selected) ∧
    List.Forall₂ (fun k r => SuiteReport.Tells r (Catalog.suite s k)) kinds reports

theorem suite_ready (s : Settings) (k : SuiteKind) : (Catalog.suite s k).Ready where
  registered := rfl
  silent x hx mode evaluate haction e :=
    (Catalog.scenarios_look k s x hx mode evaluate haction e).mono fun _ => Request.silent_of_looks

theorem suitesFor_ready (i : Invocation) (s : Settings) : ∀ suite ∈ suitesFor i s, suite.Ready := by
  intro suite hsuite
  obtain ⟨k, -, rfl⟩ := List.mem_map.mp hsuite
  exact suite_ready s k

theorem covers_of_told {i : Invocation} {s : Settings} {reports : List SuiteReport}
    (h : List.Forall₂ (fun suite r => SuiteReport.Tells r suite) (suitesFor i s) reports) :
    Covers i.suites s reports := by
  refine ⟨Catalog.selectedKinds i.suites, List.filter_sublist, fun k => Catalog.mem_selectedKinds, ?_⟩
  exact List.forall₂_map_left_iff.mp h

theorem any_failed_iff (rs : List SuiteReport) :
    rs.any (·.failed) = true ↔ ¬ ∀ r ∈ rs, ∀ v ∈ r.verdicts, v.outcome ≠ .fail := by
  simp [List.any_eq_true, SuiteReport.failed_iff_verdict]

section Runs

variable {σ : Type} (host : Host σ) (i : Invocation) (s : Settings) (st : σ)

def outcomes : List Suite.Outcome :=
  ((Suite.runEach s.bench .start (suitesFor i s)).run host (host.answer .calendar st).2).1

theorem runEach_spares (st : σ) :
    ∀ x ∈ (Suite.runEach s.bench .start (suitesFor i s)).journal host st,
      x.request.SparesSummaries := by
  intro x hx
  rcases Suite.runEach_asks s.bench .start st x hx with
    hannounces | ⟨suite, hsuite, scenario, hscenario, available, st', hx⟩
  · exact Request.spares_of_announces hannounces
  · obtain ⟨k, -, rfl⟩ := List.mem_map.mp hsuite
    exact (Catalog.execute_spares_summaries k s hscenario s.bench available).journal st' x hx

def suitesJournal : List Exchange :=
  (ask .calendar).journal host st ++
    (Suite.runEach s.bench .start (suitesFor i s)).journal host (host.answer .calendar st).2

theorem suitesJournal_spares : ∀ x ∈ suitesJournal host i s st, x.request.SparesSummaries := by
  intro x hx
  rcases List.mem_append.mp hx with hx | hx
  · rw [List.mem_singleton.mp hx]
    exact Request.spares_of_ne_store fun _ _ h => nomatch h
  · exact runEach_spares host i s _ x hx

/-- Either a suite does not come to its end, and the run ends with it; or every suite does, and the
run is concluded with the reports of all. -/
theorem runSuites_cases :
    (¬ Suite.AllReported (suitesFor i s) (outcomes host i s st) ∧ ∃ message,
      Yields host (runSuites i s).run st (.error (failedRun message)) (suitesJournal host i s st)) ∨
    (Suite.AllReported (suitesFor i s) (outcomes host i s st) ∧
      Covers i.suites s (Suite.reports (outcomes host i s st)) ∧
      attempts (suitesJournal host i s st) =
        accepted ((Suite.reports (outcomes host i s st)).flatMap (·.lines)) ∧
      ∃ started t st', Yields host (runSuites i s).run st
        ((conclude s started (Suite.reports (outcomes host i s st)) t).run.run host st').1
        (suitesJournal host i s st ++
          (conclude s started (Suite.reports (outcomes host i s st)) t).run.journal host st')) := by
  have hcalendar : Yields host (ask .calendar) st _ _ := .self (ask .calendar) st
  have heach : Yields host (Suite.runEach s.bench .start (suitesFor i s))
      (host.answer .calendar st).2 (outcomes host i s st) _ := ⟨rfl, rfl⟩
  rw [runSuites_run]
  cases Suite.runEach_sequel host s.bench .start (suitesFor_ready i s) (host.answer .calendar st).2 with
  | stopped hall herror =>
    obtain ⟨e, hconcluded⟩ := concluded_error herror [] .start
    refine .inl ⟨hall, e.message, hcalendar.bind (heach.bind_pure ?_)⟩
    rw [show concluded [] .start (outcomes host i s st) = _ from hconcluded]
  | reported hall htold hresults haccepted =>
    obtain ⟨t, hconcluded⟩ := concluded_ok hresults [] .start
    rw [List.nil_append] at hconcluded
    refine .inr ⟨hall, covers_of_told htold, ?_, (host.answer .calendar st).1, t,
      ((Suite.runEach s.bench .start (suitesFor i s)).run host (host.answer .calendar st).2).2, ?_⟩
    · rw [suitesJournal, attempts_append, haccepted]
      rfl
    · rw [suitesJournal, List.append_assoc]
      refine hcalendar.bind (heach.bind ?_)
      rw [show concluded [] .start (outcomes host i s st) = _ from hconcluded]
      exact .self _ _

theorem suitesJournal_begins :
    suitesJournal host i s st <+: (runSuites i s).run.journal host st := by
  rcases runSuites_cases host i s st with ⟨-, message, hyields⟩ | ⟨-, -, -, started, t, st', hyields⟩
  · exact hyields.journal.symm ▸ List.prefix_refl _
  · rw [hyields.journal]
    exact List.prefix_append _ _

theorem runSuites_result :
    (statusOf ((runSuites i s).run.run host st).1 = 0 ∧
      Succeeds s (suitesFor i s) (outcomes host i s st) ((runSuites i s).run.journal host st)) ∨
    (statusOf ((runSuites i s).run.run host st).1 = 1 ∧
      ¬ Succeeds s (suitesFor i s) (outcomes host i s st) ((runSuites i s).run.journal host st)) := by
  rcases runSuites_cases host i s st with
    ⟨hall, message, hyields⟩ | ⟨hall, -, hattempts, started, t, st', hyields⟩
  · rw [hyields.result]
    exact .inr ⟨rfl, fun h => hall h.reported⟩
  · rw [hyields.result, hyields.journal]
    set reports := Suite.reports (outcomes host i s st)
    have htaken (j : List Exchange) : attempts (suitesJournal host i s st ++ j) =
        accepted (transcriptLines reports) ↔ attempts j = accepted (Transcript.overallLines reports) := by
      rw [attempts_append, hattempts, transcriptLines, accepted_append, List.append_cancel_left_eq]
    have hrecorded (j : List Exchange) :
        Recorded s (suitesJournal host i s st ++ j) ↔ Recorded s j :=
      recorded_append_left (suitesJournal_spares host i s st)
    rcases conclude_result host s started reports t st' with ⟨hok, hdone⟩ | ⟨⟨f, herror, hstatus⟩, hnot⟩
    · rw [hok]
      by_cases hfailed : reports.any (·.failed) = true
      · rw [if_pos hfailed]
        exact .inr ⟨rfl, fun h => (any_failed_iff _).mp hfailed h.passed⟩
      · rw [if_neg hfailed]
        rw [any_failed_iff, not_not] at hfailed
        exact .inl ⟨rfl, hall, hfailed, (htaken _).mpr hdone.1, (hrecorded _).mpr hdone.2⟩
    · rw [herror]
      exact .inr ⟨hstatus, fun h => hnot ⟨(htaken _).mp h.taken, (hrecorded _).mp h.recorded⟩⟩

end Runs

/-- What is stored as a summary is a summary of this kind, and what is stored as a digest is the
digest of one. -/
def Summarises (P : RunSummary → Prop) (r : Request) : Prop :=
  ∀ dir content,
    (r = .store (RunSummary.jsonPath dir) content → ∃ summary, P summary ∧
      content = Bytes.ofString summary.canonical) ∧
    (r = .store (RunSummary.digestPath dir) content → ∃ summary, P summary ∧
      content = Bytes.ofString summary.digest)

theorem summarises_of_spares {P : RunSummary → Prop} {r : Request} (h : r.SparesSummaries) :
    Summarises P r := by
  intro dir content
  exact ⟨fun heq => absurd heq (h dir content).1, fun heq => absurd heq (h dir content).2⟩

theorem Summarises.mono {P Q : RunSummary → Prop} {r : Request} (h : Summarises P r)
    (hpq : ∀ summary, P summary → Q summary) : Summarises Q r := by
  intro dir content
  constructor
  · intro heq
    obtain ⟨summary, hsummary, hcontent⟩ := (h dir content).1 heq
    exact ⟨summary, hpq summary hsummary, hcontent⟩
  · intro heq
    obtain ⟨summary, hsummary, hcontent⟩ := (h dir content).2 heq
    exact ⟨summary, hpq summary hsummary, hcontent⟩

theorem summarises_of_records {P : RunSummary → Prop} {reports : List SuiteReport}
    (hP : ∀ summary : RunSummary, summary.suites = reports → P summary) {r : Request}
    (h : Records reports r) : Summarises P r := by
  rcases h with hdigs | rfl | ⟨summary, dir, hsuites, hfile⟩
  · exact summarises_of_spares (Request.spares_of_digs hdigs)
  · exact summarises_of_spares (Request.spares_of_ne_store fun _ _ h => nomatch h)
  · intro dir' content
    rcases hfile with rfl | rfl
    · constructor
      · intro heq
        exact ⟨summary, hP summary hsuites, (Request.store.inj heq).2.symm⟩
      · intro heq
        exact absurd (Request.store.inj heq).1 (RunSummary.jsonPath_ne_any_digestPath _ _)
    · constructor
      · intro heq
        exact absurd (Request.store.inj heq).1.symm (RunSummary.jsonPath_ne_any_digestPath _ _)
      · intro heq
        exact ⟨summary, hP summary hsuites, (Request.store.inj heq).2.symm⟩

/-- The summary of a run is that of all its reports. -/
def SummaryOf {σ : Type} (host : Host σ) (i : Invocation) (s : Settings) (st : σ)
    (summary : RunSummary) : Prop :=
  summary.suites = Suite.reports (outcomes host i s st) ∧ Covers i.suites s summary.suites

theorem runSuites_summarises {σ : Type} (host : Host σ) (i : Invocation) (s : Settings) (st : σ) :
    ∀ x ∈ (runSuites i s).run.journal host st,
      Summarises (SummaryOf host i s st) x.request := by
  have hspares := suitesJournal_spares host i s st
  intro x hx
  rcases runSuites_cases host i s st with
    ⟨-, message, hyields⟩ | ⟨-, hcovers, -, started, t, st', hyields⟩
  · rw [hyields.journal] at hx
    exact summarises_of_spares (hspares x hx)
  · rw [hyields.journal] at hx
    rcases List.mem_append.mp hx with hx | hx
    · exact summarises_of_spares (hspares x hx)
    · rcases (conclude_asks s started _ t).journal st' x hx with hannounces | hrecords
      · exact summarises_of_spares (Request.spares_of_announces hannounces)
      · refine summarises_of_records ?_ hrecords
        rintro summary hsuites
        exact ⟨hsuites, hsuites ▸ hcovers⟩

/-- Reads the environment, a file or where the program is, or complains; prints, makes, stores and
starts nothing. -/
def Consults : Request → Prop
  | .environment _ | .load _ | .runnerPath | .printError _ => True
  | _ => False

theorem load_consults (cli : Overrides) : (Settings.load cli).Only Consults := by
  have henvironment : EnvironmentSettings.load.Only Consults := by
    unfold EnvironmentSettings.load
    repeat refine Only.bind (only_ask trivial) fun _ => ?_
    exact only_pure _
  have hfile (config : Option Path) : (Settings.fileOf config).Only Consults := by
    cases config with
    | none => exact only_pure _
    | some path =>
      refine Only.bind (only_ask trivial) fun reply => ?_
      split <;> exact only_pure _
  rw [Settings.load_eq]
  refine henvironment.bind fun env => ?_
  split
  · exact only_pure _
  · refine (hfile _).bind fun file => ?_
    split
    · exact only_pure _
    · refine Only.bind (only_ask trivial) fun runner => ?_
      split
      · exact only_pure _
      · split <;> exact only_pure _

theorem silent_of_consults {r : Request} (h : Consults r) : r.Silent := by
  cases r <;> trivial

theorem spares_of_consults {r : Request} (h : Consults r) : r.SparesSummaries := by
  apply Request.spares_of_ne_store
  rintro path content rfl
  cases h

theorem report_consults (r : Except Failure Nat) : (report r).Only Consults := by
  unfold report
  cases r with
  | ok status => exact only_pure _
  | error f => exact (Only.discard (only_ask trivial)).bind fun _ => only_pure _

section Ends

variable {σ : Type} (host : Host σ) (i : Invocation) (st : σ)

/-- How the program ends: with which status, and after which journal. -/
structure Ends (status : Nat) (j : List Exchange) : Prop where
  two_iff : status = 2 ↔
    i.showVersion = false ∧ ∃ e, ((Settings.load i.overrides).run host st).1 = .error e
  consults : status = 2 → ∀ x ∈ j, Consults x.request
  /-- The suites can always be built. They run from where the settings were loaded, and the status is
  zero if the run succeeds and one if it does not. -/
  run : ∀ s, i.showVersion = false → i.list = false →
    ((Settings.load i.overrides).run host st).1 = .ok s →
    let ready := ((Settings.load i.overrides).run host st).2
    Catalog.buildSelected i.suites s = .ok (suitesFor i s) ∧
    suitesJournal host i s ready <:+: j ∧
    ((status = 0 ∧ Succeeds s (suitesFor i s) (outcomes host i s ready) j) ∨
      (status = 1 ∧ ¬ Succeeds s (suitesFor i s) (outcomes host i s ready) j))
  /-- Whatever is stored under the names of a summary is the summary of that run. -/
  summary : ∀ x ∈ j, Summarises (fun summary => ∃ s,
    ((Settings.load i.overrides).run host st).1 = .ok s ∧
      SummaryOf host i s ((Settings.load i.overrides).run host st).2 summary) x.request

end Ends

section Frame

variable {s : Settings} {suites : List Suite} {os : List Suite.Outcome} {i j : List Exchange}

/-- Only what the sink was to take and what was stored counts. -/
theorem Succeeds.congr (hattempts : attempts i = attempts j)
    (hrecorded : Recorded s i ↔ Recorded s j) (h : Succeeds s suites os i) :
    Succeeds s suites os j where
  reported := h.reported
  passed := h.passed
  taken := hattempts ▸ h.taken
  recorded := hrecorded.mp h.recorded

theorem attempts_of_consults (h : ∀ x ∈ i, Consults x.request) : attempts i = [] :=
  attempts_eq_nil fun x hx => silent_of_consults (h x hx)

theorem Succeeds.append_left (hi : ∀ x ∈ i, Consults x.request) :
    Succeeds s suites os (i ++ j) ↔ Succeeds s suites os j := by
  have hattempts : attempts (i ++ j) = attempts j := by
    rw [attempts_append, attempts_of_consults hi, List.nil_append]
  have hrecorded : Recorded s (i ++ j) ↔ Recorded s j :=
    recorded_append_left fun x hx => spares_of_consults (hi x hx)
  exact ⟨.congr hattempts hrecorded, .congr hattempts.symm hrecorded.symm⟩

theorem Succeeds.append_right (hj : ∀ x ∈ j, Consults x.request) :
    Succeeds s suites os (i ++ j) ↔ Succeeds s suites os i := by
  have hattempts : attempts (i ++ j) = attempts i := by
    rw [attempts_append, attempts_of_consults hj, List.append_nil]
  have hrecorded : Recorded s (i ++ j) ↔ Recorded s i :=
    recorded_append_right fun x hx => spares_of_consults (hj x hx)
  exact ⟨.congr hattempts hrecorded, .congr hattempts.symm hrecorded.symm⟩

end Frame

section Ends

variable {σ : Type} {host : Host σ} {i : Invocation} {st : σ} {status : Nat} {j k : List Exchange}

theorem Ends.append (h : Ends host i st status j) (hk : ∀ x ∈ k, Consults x.request) :
    Ends host i st status (j ++ k) where
  two_iff := h.two_iff
  consults htwo x hx := (List.mem_append.mp hx).elim (h.consults htwo x) (hk x)
  run s hversion hlist hload := by
    obtain ⟨hbuilt, hinfix, hstatus⟩ := h.run s hversion hlist hload
    refine ⟨hbuilt, hinfix.trans (List.prefix_append j k).isInfix, ?_⟩
    rwa [Succeeds.append_right hk]
  summary x hx := (List.mem_append.mp hx).elim (h.summary x) fun hx =>
    summarises_of_spares (spares_of_consults (hk x hx))

/-- If the settings are not asked for, lines are printed, and the status is not two. -/
theorem ends_of_version (hversion : i.showVersion = true) (hstatus : status ≤ 1)
    (hj : ∀ x ∈ j, x.request.announces) : Ends host i st status j where
  two_iff := iff_of_false (by omega) (by simp [hversion])
  consults htwo := by omega
  run s hshow := by simp [hversion] at hshow
  summary x hx := summarises_of_spares (Request.spares_of_announces (hj x hx))

theorem ends_of_unset {e : SettingsError} (hversion : i.showVersion = false)
    (hload : ((Settings.load i.overrides).run host st).1 = .error e)
    (hj : ∀ x ∈ j, Consults x.request) : Ends host i st 2 j where
  two_iff := iff_of_true rfl ⟨hversion, e, hload⟩
  consults _ := hj
  run s _ _ hset := by
    rw [hload] at hset
    cases hset
  summary x hx := summarises_of_spares (spares_of_consults (hj x hx))

theorem ends_of_list {s : Settings} (hlist : i.list = true)
    (hload : ((Settings.load i.overrides).run host st).1 = .ok s) (hstatus : status ≤ 1)
    (hj : ∀ x ∈ j, Consults x.request ∨ x.request.announces) : Ends host i st status j where
  two_iff := iff_of_false (by omega) (by simp [hload])
  consults htwo := by omega
  run s _ hrun := by simp [hlist] at hrun
  summary x hx := summarises_of_spares
    ((hj x hx).elim spares_of_consults Request.spares_of_announces)

theorem ends_of_run {s : Settings}
    (hload : ((Settings.load i.overrides).run host st).1 = .ok s) :
    let ready := ((Settings.load i.overrides).run host st).2
    Ends host i st (statusOf ((runSuites i s).run.run host ready).1)
      ((Settings.load i.overrides).journal host st ++ (runSuites i s).run.journal host ready) := by
  intro ready
  have hconsults : ∀ x ∈ (Settings.load i.overrides).journal host st, Consults x.request :=
    (load_consults i.overrides).journal st
  have hresult := runSuites_result host i s ready
  refine ⟨?_, ?_, ?_, ?_⟩
  · refine iff_of_false ?_ (by simp [hload])
    rcases hresult with ⟨hzero, -⟩ | ⟨hone, -⟩
    · omega
    · omega
  · intro htwo
    rcases hresult with ⟨hzero, -⟩ | ⟨hone, -⟩
    · omega
    · omega
  · intro s' _ _ hset
    obtain rfl : s = s' := Except.ok.inj (hload.symm.trans hset)
    refine ⟨Catalog.buildSelected_eq _ _, ?_, ?_⟩
    · exact (suitesJournal_begins host i s ready).isInfix.trans (List.suffix_append _ _).isInfix
    · rwa [Succeeds.append_left hconsults]
  · intro x hx
    rcases List.mem_append.mp hx with hx | hx
    · exact summarises_of_spares (spares_of_consults (hconsults x hx))
    · refine (runSuites_summarises host i s ready x hx).mono ?_
      exact fun summary hsummary => ⟨s, hload, hsummary⟩

variable (host i st) in
theorem act_ends : Ends host i st (statusOf ((act i).run.run host st).1)
    ((act i).run.journal host st) := by
  have hconsults : ∀ x ∈ (Settings.load i.overrides).journal host st, Consults x.request :=
    (load_consults i.overrides).journal st
  rw [act_eq]
  by_cases hversion : i.showVersion = true
  · rw [if_pos hversion]
    have hprints := printLines_prints [s!"{CommandLine.programName} {CommandLine.version}"]
    exact ends_of_version hversion (hprints.status_le host st)
      ((hprints.bind fun _ => .pure _).only.journal st)
  rw [if_neg hversion, run_bind, journal_bind]
  cases hload : ((Settings.load i.overrides).run host st).1 with
  | error e =>
    rw [Bool.not_eq_true] at hversion
    dsimp only
    rw [journal_pure, List.append_nil]
    exact ends_of_unset hversion hload hconsults
  | ok s =>
    dsimp only
    by_cases hlist : i.list = true
    · rw [if_pos hlist]
      have hprints := printLines_prints ((Catalog.selectedKinds i.suites).flatMap fun kind =>
        suiteListing kind (Catalog.suite s kind))
      rw [list_eq]
      refine ends_of_list hlist hload (hprints.status_le host _) ?_
      intro y hy
      refine (List.mem_append.mp hy).imp (hconsults y) fun hy => ?_
      exact (hprints.bind fun _ => .pure _).only.journal _ y hy
    · rw [if_neg hlist]
      exact ends_of_run hload

end Ends

/-- Every accepted command line but a call for help ends so: with status two exactly if the settings
cannot be loaded, and then nothing was written and nothing was started; and otherwise, if suites are
to run, with status zero exactly if the run was without a fault, and with one if it was not. -/
theorem main_ends {args : List Bytes} {i : Invocation} (hparse : CommandLine.parse args = .ok i)
    {σ : Type} (host : Host σ) (st : σ) :
    Ends host i st ((main args).run host st).1 ((main args).journal host st) := by
  rw [main_eq hparse, run_bind, journal_bind, report_status]
  exact (act_ends host i st).append ((report_consults _).journal _)

/-- A host without binaries, whose environment may ask for a time to wait. -/
def bare (timeout : Option String) : Host Unit where
  answer r s := match r with
    | .availability _ => (.missing, s)
    | .environment name =>
      (if name = EnvironmentKey.timeoutSeconds.name then timeout.map Bytes.ofString else none, s)
    | r => Host.still.answer r s

/-- A host that cannot tell where the program lies. -/
def unlocated : Host Unit where
  answer r s := match r with
    | .runnerPath => (.error .notFound, s)
    | r => (bare none).answer r s

def configArgs : List Bytes := [Bytes.ofString "--suite=config"]

def configOnly : Invocation := ⟨false, false, ⟨none, none, none, none⟩, [.config]⟩

def bareSettings : Settings where
  srcDir := .ofString "/../../src"
  qtDir := .ofString "/../../src/qt"
  timing := .standard
  scopeRoot := none
  scopePrefix := Bench.standardPrefix
  summaryDir := none

theorem main_ends_bare :
    CommandLine.parse configArgs = .ok configOnly ∧
    ((main configArgs).run (bare none) ()).1 = 0 ∧
    Succeeds bareSettings (suitesFor configOnly bareSettings)
      (outcomes (bare none) configOnly bareSettings ())
      ((main configArgs).journal (bare none) ()) ∧
    ((main configArgs).run (bare (some "0")) ()).1 = 2 ∧
    ((main configArgs).run unlocated ()).1 = 2 := by
  have hparse : CommandLine.parse configArgs = .ok configOnly := by decide +kernel
  have hload : ((Settings.load configOnly.overrides).run (bare none) ()).1 = .ok bareSettings := by
    decide +kernel
  have hzero : ((main configArgs).run (bare none) ()).1 = 0 := by decide +kernel
  refine ⟨hparse, hzero, ?_, ?_, ?_⟩
  · obtain ⟨-, -, ⟨-, hsucceeds⟩ | ⟨hone, -⟩⟩ :=
      (main_ends hparse (bare none) ()).run bareSettings rfl rfl hload
    · exact hsucceeds
    · omega
  · exact (main_ends hparse (bare (some "0")) ()).two_iff.mpr ⟨rfl, _, rfl⟩
  · exact (main_ends hparse unlocated ()).two_iff.mpr ⟨rfl, .runnerUnknown .notFound, rfl⟩

end SmokeBench.Program
