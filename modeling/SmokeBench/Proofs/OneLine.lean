import SmokeBench.Proofs.Agreement
import SmokeBench.Proofs.CatalogVerdicts
import SmokeBench.Proofs.Entries
import SmokeBench.Summary.Basic

/-! One line for each verdict. Headings never have a line feed, so a transcript or a digest falls
into the lines it was made of if and only if no message has one, and then its failures can be
counted line by line. The catalog keeps to this but for the check of the configuration file. -/

namespace SmokeBench

open Dialogue

theorem Verdict.oneLine_display (v : Verdict) : OneLine v.display ↔ OneLine v.message := by
  have hlabel : OneLine v.outcome.label ∧ OneLine ": " := by
    cases v.outcome <;> decide
  rw [display, oneLine_append, oneLine_append]
  exact and_iff_right hlabel

def Text.begins (start s : String) : Bool := start.toList.isPrefixOf s.toList

def tellsFailure (line : String) : Bool := Text.begins "FAIL: " line

namespace SuiteReport

/-- Nothing but a message can run over several lines. -/
structure Headed (r : SuiteReport) : Prop where
  title : OneLine r.title
  sections : ∀ x ∈ r.scenarios, OneLine x.sectionName
  names : ∀ x ∈ r.scenarios, OneLine x.name

theorem eachOneLine_iff (r : SuiteReport) :
    EachOneLine r.verdicts ↔ ∀ x ∈ r.scenarios, EachOneLine x.verdicts := by
  unfold EachOneLine verdicts
  exact List.forall_mem_flatMap

theorem headerLines_oneLine (before : Option String) {name : String} (hname : OneLine name) :
    ∀ l ∈ Transcript.headerLines before name, OneLine l := by
  unfold Transcript.headerLines
  split
  · simp
  · intro l hl
    simp only [Transcript.sectionLines, List.mem_cons, List.not_mem_nil, or_false] at hl
    rcases hl with rfl | rfl
    · decide
    · simp only [oneLine_append]
      exact ⟨⟨.chars (by decide), hname⟩, .chars (by decide)⟩

theorem displays_oneLine_iff (vs : List Verdict) :
    (∀ l ∈ vs.map Verdict.display, OneLine l) ↔ EachOneLine vs := by
  rw [List.forall_mem_map]
  exact forall₂_congr fun v _ => v.oneLine_display

theorem entryLines_oneLine_iff (before : Option String) {rs : List ScenarioReport}
    (hsections : ∀ x ∈ rs, OneLine x.sectionName) :
    (∀ l ∈ entryLines before rs, OneLine l) ↔ ∀ x ∈ rs, EachOneLine x.verdicts := by
  induction rs generalizing before with
  | nil => simp [entryLines]
  | cons r rest ih =>
    rw [entryLines_cons, List.forall_mem_append, List.forall_mem_append, displays_oneLine_iff,
      ih _ fun x hx => hsections x (List.mem_cons_of_mem _ hx), List.forall_mem_cons]
    exact and_congr_left' (and_iff_right (headerLines_oneLine before (hsections r (by simp))))

theorem tellsFailure_display (v : Verdict) : tellsFailure v.display = (v.outcome == .fail) := by
  obtain ⟨outcome, message⟩ := v
  cases outcome <;>
    simp [tellsFailure, Text.begins, Verdict.display, Outcome.label, List.isPrefixOf]

theorem countP_headerLines (before : Option String) (name : String) :
    (Transcript.headerLines before name).countP tellsFailure = 0 := by
  unfold Transcript.headerLines
  split
  · rfl
  · simp [Transcript.sectionLines, tellsFailure, Text.begins, toString]

theorem countP_entryLines (before : Option String) (rs : List ScenarioReport) :
    (entryLines before rs).countP tellsFailure =
      (Tally.count (rs.flatMap (·.verdicts))).failed := by
  induction rs generalizing before with
  | nil => rfl
  | cons r rest ih =>
    have hverdicts : (r.verdicts.map Verdict.display).countP tellsFailure =
        (Tally.count r.verdicts).failed := by
      rw [List.countP_map]
      exact List.countP_congr fun v _ => by rw [Function.comp_apply, tellsFailure_display]
    rw [entryLines_cons, List.countP_append, List.countP_append, countP_headerLines, hverdicts, ih,
      List.flatMap_cons, Tally.count_append, Tally.merge, Nat.zero_add]

end SuiteReport

namespace RunSummary

theorem scenarioLines_oneLine_iff {r : ScenarioReport} (hname : OneLine r.name) :
    (∀ l ∈ scenarioLines r, OneLine l) ↔ EachOneLine r.verdicts := by
  have hentry : OneLine s!"- {r.name} ({r.outcome.label})" := by
    simp only [oneLine_append]
    refine ⟨⟨⟨⟨.chars (by decide), hname⟩, .chars (by decide)⟩, ?_⟩, .chars (by decide)⟩
    cases r.outcome <;> decide
  rw [scenarioLines, List.forall_mem_cons, and_iff_right hentry, List.forall_mem_map]
  refine forall₂_congr fun v _ => ?_
  rw [oneLine_append, and_iff_right (.chars (by decide)), v.oneLine_display]

theorem suiteLines_oneLine_iff {r : SuiteReport} (h : r.Headed) :
    (∀ l ∈ suiteLines r, OneLine l) ↔ EachOneLine r.verdicts := by
  have hheading : ∀ l ∈ ["", "## " ++ r.title, ""], OneLine l := by
    intro l hl
    simp only [List.mem_cons, List.not_mem_nil, or_false] at hl
    rcases hl with rfl | rfl | rfl
    · decide
    · exact (oneLine_append _ _).mpr ⟨.chars (by decide), h.title⟩
    · decide
  rw [suiteLines, List.forall_mem_append, and_iff_right hheading, r.eachOneLine_iff]
  split
  · rename_i hempty
    rw [List.isEmpty_iff.mp hempty]
    exact iff_of_true (by decide) (by simp)
  · rw [List.forall_mem_flatMap]
    exact forall₂_congr fun x hx => scenarioLines_oneLine_iff (h.names x hx)

theorem digestLines_oneLine_iff (started ended : Nat) {reports : List SuiteReport}
    (h : ∀ r ∈ reports, r.Headed) :
    (∀ l ∈ (of started ended reports).digestLines, OneLine l) ↔
      ∀ r ∈ reports, EachOneLine r.verdicts := by
  have hstatus : OneLine (of started ended reports).status := by
    unfold of
    dsimp only
    split <;> decide
  rw [digestLines, List.forall_mem_append, List.forall_mem_flatMap]
  refine (and_iff_right ?_).trans (forall₂_congr fun r hr => suiteLines_oneLine_iff (h r hr))
  intro l hl
  simp only [List.mem_cons, List.not_mem_nil, or_false] at hl
  rcases hl with rfl | rfl | rfl | rfl | rfl | rfl | rfl
  · decide
  · decide
  · decide
  · decide
  · exact (oneLine_append _ _).mpr ⟨.chars (by decide), hstatus⟩
  · simp only [oneLine_append, oneLine_toString]
    exact ⟨.chars (by decide), trivial⟩
  · simp only [oneLine_append, oneLine_toString]
    decide

end RunSummary

namespace Catalog

variable {σ : Type} {settings : Settings}

/-- Whatever a subject did and whatever is found in its scope, the catalog tells each verdict in one
line unless the configuration file was refused with several lines on stderr. A transcript and a
digest fall into their lines under the same condition, and the failures told are then the failures
counted. -/
theorem verdicts_on_one_line (kind : SuiteKind) (hsettings : settings.Plain) (host : Host σ) :
    (∀ s ∈ kind.scenarios settings, ∀ mode evaluate, s.action = .run mode evaluate →
      ∀ e : Evidence, e.name = s.name → e.binary = s.binary →
      (∀ p, e.scope = some p → p.OneLine) → ∀ st, ∃ vs,
        ((evaluate e).run host st).1 = .ok vs ∧ (EachOneLine vs ↔ ¬ Spills s.name e.run)) ∧
    (host.TakesAll → host.Plain → ∀ suite t st, build kind settings = .ok suite →
      ∃ (report : SuiteReport) (body : List String),
        ((suite.run settings.bench t).run host st).1.result = .ok report ∧ report.Headed ∧
        (∀ r ∈ report.scenarios, ∀ v ∈ r.verdicts, Fine r.name v) ∧
        written ((suite.run settings.bench t).journal host st) =
          (Transcript.bannerLines suite.title).map (· ++ "\n") ++ body ++
            (Transcript.resultLines report).map (· ++ "\n") ∧
        (Text.lines (String.join body) = SuiteReport.entryLines none report.scenarios ++ [""] ↔
          EachOneLine report.verdicts) ∧
        (EachOneLine report.verdicts →
          (Text.lines (String.join body)).countP tellsFailure = report.tally.failed)) ∧
    ∀ (started ended : Nat) (reports : List SuiteReport), (∀ r ∈ reports, r.Headed) →
      (Text.lines (RunSummary.of started ended reports).digest =
          (RunSummary.of started ended reports).digestLines ++ [""] ↔
        ∀ r ∈ reports, EachOneLine r.verdicts) := by
  refine ⟨fun s hs mode evaluate haction e hname hbinary hscope st => ?_,
    fun hsink hplain suite t st hbuild => ?_, fun started ended reports hheaded => ?_⟩
  · have hgives := (scenarios_tame hsettings kind s hs).judges mode evaluate haction e hname hbinary
      hscope
    obtain ⟨vs, hvs, hjudged⟩ := hgives.run host (fun _ _ => trivial) st
    exact ⟨vs, hvs, hjudged.each⟩
  · have htame := scenarios_tame hsettings kind
    rw [build_eq] at hbuild
    obtain rfl := Except.ok.inj hbuild
    let suite : Suite := ⟨kind.title, kind.scenarios settings, .registered⟩
    have hsilent : ∀ s ∈ suite.scenarios, s.Judges Request.Silent :=
      fun s hs => (htame s hs).silent
    obtain ⟨hresult, hwritten⟩ := suite.run_tells settings.bench hsink t rfl hsilent st
    set report := suite.reportOf host settings.bench t st
    have hvisit (r : ScenarioReport) (hr : r ∈ report.scenarios) : ∃ v : Visit σ,
        v.scenario ∈ kind.scenarios settings ∧ r = v.entry host settings.bench :=
      Suite.exists_visit_of_mem hr
    have htitle : OneLine kind.title := by cases kind <;> decide
    have hheaded : report.Headed := by
      refine ⟨htitle, fun r hr => ?_, fun r hr => ?_⟩
      · obtain ⟨v, hv, rfl⟩ := hvisit r hr
        exact (htame _ hv).sectionName
      · obtain ⟨v, hv, rfl⟩ := hvisit r hr
        exact (htame _ hv).name
    have hlines := (Text.lines_join_iff (SuiteReport.entryLines none report.scenarios)).trans
      ((SuiteReport.entryLines_oneLine_iff none hheaded.sections).trans report.eachOneLine_iff.symm)
    refine ⟨report, (SuiteReport.entryLines none report.scenarios).map (· ++ "\n"), hresult,
      hheaded, fun r hr => ?_, ?_, hlines, fun hone => ?_⟩
    · obtain ⟨v, hv, rfl⟩ := hvisit r hr
      have hgives : (v.scenario.execute settings.bench v.available).Gives
          fun vs => ∀ w ∈ vs, Fine v.scenario.name w :=
        Scenario.execute_gives (fun _ _ h => h.fine) (htame _ hv) (fun _ => .inl)
          hsettings.scopeRoot hsettings.scopeStem v.available
      exact hgives.run host hplain v.start
    · rw [hwritten, SuiteReport.lines_eq, List.map_append, List.map_append]
      rfl
    · rw [hlines.mpr hone, List.countP_append, SuiteReport.countP_entryLines, report.tally_eq]
      rfl
  · exact (Text.lines_join_iff _).trans (RunSummary.digestLines_oneLine_iff started ended hheaded)

def plainSettings : Settings where
  srcDir := .ofString "/src"
  qtDir := .ofString "/src/qt"
  timing := .standard
  scopeRoot := some (.ofString "/tmp")
  scopePrefix := Bench.standardPrefix
  summaryDir := none

theorem plainSettings_plain : plainSettings.Plain where
  srcDir := by decide
  qtDir := by decide
  scopeRoot p h := by
    cases h
    decide
  scopeStem := by decide

def configSuite : Suite :=
  ⟨SuiteKind.config.title, SuiteKind.config.scenarios plainSettings, .registered⟩

theorem configSuite_silent : ∀ s ∈ configSuite.scenarios, s.Judges Request.Silent :=
  fun s hs => (scenarios_tame plainSettings_plain .config s hs).silent

end Catalog

theorem Host.still_plain : (Host.still : Host Unit).Plain := by
  intro r s
  cases r with
  | makeDir path => exact (by decide : OneLine IoError.permissionDenied.message)
  | store path content => exact (by decide : OneLine IoError.permissionDenied.message)
  | workingDir => exact (by decide : (Path.ofString "/").OneLine)
  | randomSuffix => exact (.chars (by decide) : OneLine "a")
  | environment name =>
    intro b hb
    cases hb
  | _ => trivial

/-- A host whose subjects fail and tell it in two lines. -/
def Host.grumbling : Host Unit where
  answer r s := match r with
    | .makeDir _ | .store _ _ | .removeTree _ => (.ok (), s)
    | .awaitExit _ _ => (.ok (some (.exited 1)), s)
    | .drain _ .err _ => (Bytes.ofString "Error: bad\nFAIL: worse\n", s)
    | r => Host.still.answer r s

namespace Catalog

def refusedFile : Evidence where
  name := configTest
  binary := (Subjects.of plainSettings).daemon
  run := ⟨some 1, none, "", "Error: bad\nhint: see the manual\n", .zero, false, false⟩
  scope := none
  observation := .empty

/-- Where no scope can be made every check that needs one fails, in one line. A refused file that
is told with a hint has a verdict of two. -/
theorem verdicts_on_one_line_denied :
    plainSettings.Plain ∧ (Host.still : Host Unit).TakesAll ∧ (Host.still : Host Unit).Plain ∧
    build .config plainSettings = .ok configSuite ∧
    (∃ vs, ((judge parsesConfigFile refusedFile).run Host.still ()).1 = .ok vs ∧
      ¬ EachOneLine vs) ∧
    ∃ (report : SuiteReport) (body : List String),
      ((configSuite.run plainSettings.bench .start).run .still ()).1.result = .ok report ∧
      EachOneLine report.verdicts ∧
      Text.lines (String.join body) = SuiteReport.entryLines none report.scenarios ++ [""] ∧
      (Text.lines (String.join body)).countP tellsFailure = report.tally.failed ∧
      Text.lines (RunSummary.of 0 1 [report]).digest =
        (RunSummary.of 0 1 [report]).digestLines ++ [""] := by
  have hbuild : build .config plainSettings = .ok configSuite := build_eq _ _
  obtain ⟨hevaluators, hrun, hdigests⟩ :=
    verdicts_on_one_line .config plainSettings_plain (.still : Host Unit)
  obtain ⟨report, body, hresult, hheaded, -, -, hlines, hcount⟩ :=
    hrun Host.still_takesAll Host.still_plain configSuite .start () hbuild
  have hreport := (Suite.run_tells plainSettings.bench Host.still_takesAll configSuite .start rfl
    configSuite_silent ()).1
  have hone : EachOneLine report.verdicts := by
    rw [Except.ok.inj (hresult.symm.trans hreport)]
    decide +kernel
  have hdigest := hdigests 0 1 [report] fun r hr => List.mem_singleton.mp hr ▸ hheaded
  have hrefused : ∃ vs, ((judge parsesConfigFile refusedFile).run Host.still ()).1 = .ok vs ∧
      ¬ EachOneLine vs := by
    obtain ⟨vs, hvs, hone⟩ := hevaluators _ (List.mem_of_getElem? (i := 3) rfl) .bounded
      (judge parsesConfigFile) rfl refusedFile rfl rfl (fun _ h => nomatch h) ()
    have hspills : Spills configTest refusedFile.run := by decide
    exact ⟨vs, hvs, fun h => hone.mp h hspills⟩
  exact ⟨plainSettings_plain, Host.still_takesAll, Host.still_plain, hbuild, hrefused, report, body,
    hresult, hone, hlines.mpr hone, hcount hone,
    hdigest.mpr fun r hr => List.mem_singleton.mp hr ▸ hone⟩

def grumbledReport : SuiteReport where
  title := SuiteKind.config.title
  scenarios :=
    [⟨"invalid option rejection", "Invalid option test",
        [.pass "Invalid option correctly rejected"]⟩,
      ⟨"conflicting options", "Conflicting options test",
        [.pass "Conflicting network options correctly rejected"]⟩,
      ⟨"-printtoconsole", "printtoconsole test", [.pass "-printtoconsole works with -?"]⟩,
      ⟨"config file parsing", configTest, [.fail "Config parsing issue: Error: bad\nFAIL: worse"]⟩]

theorem reportOf_grumbling :
    configSuite.reportOf .grumbling plainSettings.bench .start () = grumbledReport := by
  decide +kernel

/-- One check fails, and two lines tell a failure. -/
theorem config_failure_on_two_lines :
    build .config plainSettings = .ok configSuite ∧
    ((configSuite.run plainSettings.bench .start).run .grumbling ()).1.result =
      .ok grumbledReport ∧
    written ((configSuite.run plainSettings.bench .start).journal .grumbling ()) =
      grumbledReport.lines.map (· ++ "\n") ∧
    ¬ EachOneLine grumbledReport.verdicts ∧ grumbledReport.tally.failed = 1 ∧
    (Text.lines (String.join ((SuiteReport.entryLines none grumbledReport.scenarios).map
      (· ++ "\n")))).countP tellsFailure = 2 := by
  have hsink : Host.grumbling.TakesAll := fun _ _ => rfl
  obtain ⟨hresult, hwritten⟩ :=
    Suite.run_tells plainSettings.bench hsink configSuite .start rfl configSuite_silent ()
  rw [reportOf_grumbling] at hresult hwritten
  refine ⟨build_eq _ _, hresult, hwritten, by decide, by decide, ?_⟩
  rw [Text.lines, String.toList_join]
  decide +kernel

end Catalog

end SmokeBench
