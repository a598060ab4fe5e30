import SmokeBench.Catalog.Basic
import SmokeBench.Proofs.Evaluators
import SmokeBench.Proofs.Messages

/-! The verdicts of the catalog. Its evaluators tell what they found in texts of their own, and what
they take from a subject is a number or its first line. Only the check of the configuration file
tells all that the subject wrote to stderr, so only there a verdict can run over several lines. -/

namespace SmokeBench

open Dialogue

def EachOneLine (vs : List Verdict) : Prop := ∀ v ∈ vs, OneLine v.message

instance (vs : List Verdict) : Decidable (EachOneLine vs) :=
  inferInstanceAs (Decidable (∀ v ∈ vs, OneLine v.message))

theorem eachOneLine_singleton (v : Verdict) : EachOneLine [v] ↔ OneLine v.message :=
  List.forall_mem_singleton

namespace Catalog

/-- The name of the check that tells what the subject wrote to stderr. -/
def configTest : String := "Config file test"

/-- The configuration file is not accepted, and what is then told of it has several lines. -/
def Spills (name : String) (r : RunResult) : Prop :=
  name = configTest ∧ r.timedOut = false ∧ r.success = false ∧
    r.stdout.utf8ByteSize ≤ helpFloor ∧ ¬ OneLine (Text.trimEnd r.stderr)

instance (name : String) (r : RunResult) : Decidable (Spills name r) :=
  inferInstanceAs (Decidable (_ ∧ _ ∧ _ ∧ _ ∧ _))

/-- A verdict that a scenario of the catalog may have. -/
def Fine (name : String) (v : Verdict) : Prop :=
  OneLine v.message ∨
    (name = configTest ∧ ∃ stderr, v = .fail s!"Config parsing issue: {Text.trimEnd stderr}")

/-- How a scenario of the catalog judges a run. -/
structure Judgement (name : String) (r : RunResult) (vs : List Verdict) : Prop where
  each : EachOneLine vs ↔ ¬ Spills name r
  fine : ∀ v ∈ vs, Fine name v

theorem Judgement.of_other {name : String} (hname : name ≠ configTest) {r : RunResult}
    {vs : List Verdict} (h : EachOneLine vs) : Judgement name r vs where
  each := iff_of_true h fun hspills => hname hspills.1
  fine v hv := .inl (h v hv)

section Evaluators

variable {e : Evidence}

theorem reportsVersion_oneLine (h : OneLine e.binary.name) : EachOneLine (reportsVersion e) := by
  unfold reportsVersion
  dsimp only
  split
  · simp only [eachOneLine_singleton, Verdict.fail, oneLine_append]
    exact ⟨h, .chars (by decide)⟩
  · split
    · simp only [eachOneLine_singleton, Verdict.pass, oneLine_append]
      exact ⟨⟨h, .chars (by decide)⟩, e.run.oneLine_firstLine⟩
    · simp only [eachOneLine_singleton, Verdict.fail, oneLine_append]
      exact ⟨h, .chars (by decide)⟩

theorem printsHelp_oneLine (h : OneLine e.binary.name) : EachOneLine (printsHelp e) := by
  unfold printsHelp
  dsimp only
  split
  · simp only [eachOneLine_singleton, Verdict.fail, oneLine_append]
    exact ⟨h, .chars (by decide)⟩
  · split
    · simp only [eachOneLine_singleton, Verdict.pass, oneLine_append, oneLine_toString]
      exact ⟨⟨⟨h, .chars (by decide)⟩, trivial⟩, .chars (by decide)⟩
    · simp only [eachOneLine_singleton, Verdict.fail, oneLine_append, oneLine_toString]
      exact ⟨⟨⟨h, .chars (by decide)⟩, trivial⟩, .chars (by decide)⟩

theorem nonzeroExit_oneLine {onPass onFail : String} (hname : OneLine e.name)
    (hpass : OneLine onPass) (hfail : OneLine onFail) :
    EachOneLine (nonzeroExit onPass onFail e) := by
  unfold nonzeroExit
  dsimp only
  split
  · simp only [eachOneLine_singleton, Verdict.fail, oneLine_append]
    exact ⟨hname, .chars (by decide)⟩
  · rw [eachOneLine_singleton]
    split
    · exact hpass
    · exact hfail

theorem printsWithConsoleFlag_oneLine : EachOneLine (printsWithConsoleFlag e) := by
  unfold printsWithConsoleFlag
  split
  · exact (eachOneLine_singleton _).mpr (.chars (by decide))
  · split <;> exact (eachOneLine_singleton _).mpr (.chars (by decide))

theorem outputMinLength_passed (r : RunResult) (stream : Stream) (least : Nat) :
    (Check.outputMinLength r stream least).passed =
      decide (least ≤ (r.text stream).utf8ByteSize) := by
  unfold Check.outputMinLength
  dsimp only
  split
  · rename_i h
    exact (decide_eq_true h).symm
  · rename_i h
    exact (decide_eq_false h).symm

theorem parsesConfigFile_judges : Judgement configTest e.run (parsesConfigFile e) := by
  unfold parsesConfigFile
  rw [outputMinLength_passed]
  split
  · rename_i htimed
    have hone : EachOneLine [.fail "Config file test timed out"] :=
      (eachOneLine_singleton _).mpr (.chars (by decide))
    exact ⟨iff_of_true hone fun h => Bool.false_ne_true (h.2.1.symm.trans htimed),
      fun v hv => .inl (hone v hv)⟩
  · rename_i htimed
    split
    · rename_i haccepted
      have hone : EachOneLine [.pass "Config file parsed successfully"] :=
        (eachOneLine_singleton _).mpr (.chars (by decide))
      refine ⟨iff_of_true hone fun ⟨_, _, hfailed, hshort, _⟩ => ?_, fun v hv => .inl (hone v hv)⟩
      rw [hfailed, Bool.false_or, decide_eq_true_eq] at haccepted
      exact absurd hshort (Nat.not_le_of_lt haccepted)
    · rename_i hrefused
      rw [Bool.not_eq_true, Bool.or_eq_false_iff, decide_eq_false_iff_not, Nat.not_le] at hrefused
      refine ⟨?_, fun v hv => .inr ⟨rfl, e.run.stderr, List.mem_singleton.mp hv⟩⟩
      simp only [eachOneLine_singleton, Verdict.fail, oneLine_append]
      constructor
      · exact fun h hspills => hspills.2.2.2.2 h.2
      · intro h
        by_contra hmany
        exact h ⟨rfl, Bool.not_eq_true _ ▸ htimed, hrefused.1, Nat.le_of_lt_succ hrefused.2,
          fun hone => hmany ⟨.chars (by decide), hone⟩⟩

variable (hscope : ∀ p, e.scope = some p → p.OneLine)

/-- What an evaluator that looks at the files comes to, whatever it finds. -/
abbrev FindsOneLine (f : Evidence → Dialogue (List Verdict)) (e : Evidence) : Prop :=
  (f e).Gives EachOneLine fun _ _ => True

include hscope in
theorem createsDataDir_oneLine : FindsOneLine createsDataDir e := by
  unfold FindsOneLine createsDataDir
  split
  · rename_i data regtest hdata _
    have hpath : data.OneLine := by
      obtain ⟨root, hroot, rfl⟩ := Option.map_eq_some_iff.mp hdata
      exact (hscope root hroot).join (.ofString (.chars (by decide)))
    refine (Gives.anything _).bind fun found _ => ?_
    split
    · refine (Gives.anything _).bind fun below _ => .pure ?_
      have hmade : OneLine s!"Data directory created at {data.display}" := by
        rw [oneLine_append]
        exact ⟨.chars (by decide), hpath.display⟩
      refine List.forall_mem_cons.mpr ⟨hmade, (eachOneLine_singleton _).mpr ?_⟩
      cases below <;> decide
    · exact .pure ((eachOneLine_singleton _).mpr (.chars (by decide)))
  · exact .pure ((eachOneLine_singleton _).mpr (.chars (by decide)))

theorem logAt_oneLine (relative : Path) {location : String} (hlocation : OneLine location) :
    (logAt e relative location).Gives (fun found => ∀ v, found = some v → OneLine v.message)
      fun _ _ => True := by
  unfold logAt
  split
  · exact .pure fun v h => by cases h
  · refine (Gives.anything _).bind fun reply _ => ?_
    split
    · refine .pure fun v h => ?_
      split at h
      · cases h
        simp only [Verdict.pass, oneLine_append, oneLine_toString]
        exact ⟨⟨⟨⟨.chars (by decide), hlocation⟩, .chars (by decide)⟩, trivial⟩, .chars (by decide)⟩
      · cases h
    · refine .pure fun v h => ?_
      split at h
      · cases h
        simp only [Verdict.pass, oneLine_append]
        exact ⟨⟨.chars (by decide), hlocation⟩, .chars (by decide)⟩
      · cases h

theorem createsDebugLog_oneLine : FindsOneLine createsDebugLog e := by
  refine (logAt_oneLine _ (.chars (by decide))).bind fun first hfirst => ?_
  split
  · exact .pure ((eachOneLine_singleton _).mpr (hfirst _ rfl))
  · refine (logAt_oneLine _ (.chars (by decide))).bind fun second hsecond => ?_
    split
    · exact .pure ((eachOneLine_singleton _).mpr (hsecond _ rfl))
    · exact .pure ((eachOneLine_singleton _).mpr (.chars (by decide)))

theorem createsPidFile_oneLine : FindsOneLine createsPidFile e := by
  have hverdict (present : Bool) : EachOneLine [if present then .pass "PID file created"
      else .info "PID file not found (may be normal for non-daemon mode)"] := by
    rw [eachOneLine_singleton]
    cases present <;> decide
  unfold FindsOneLine createsPidFile
  split
  · exact (Gives.anything _).bind fun present _ => .pure (hverdict present)
  · exact .pure (hverdict false)

end Evaluators

section Scenarios

variable {sectionName name : String} {binary : Binary} {args : List String}
  {Q : RunResult → List Verdict → Prop}

/-- What a scenario of the catalog is made of has no line feed. -/
structure Simple (sectionName name : String) (binary : Binary) (args : List String) : Prop where
  sectionName : OneLine sectionName
  name : OneLine name
  path : binary.path.OneLine
  binary : OneLine binary.name
  args : ∀ a ∈ args, OneLine a

namespace Simple

theorem locate (h : Simple sectionName binary.name binary []) :
    (Scenario.locate sectionName binary).Tame Q where
  sectionName := h.sectionName
  name := h.name
  binary := h.binary
  path := h.path
  args := h.args
  setup _ hs := by cases hs
  watch _ hp := by cases hp
  silent _ _ haction := by cases haction
  judges _ _ haction := by cases haction

theorem bounded (h : Simple sectionName name binary args) (timeout : Duration)
    {f : Evidence → List Verdict}
    (hf : ∀ e : Evidence, e.name = name → e.binary = binary → Q e.run (f e)) :
    (Scenario.bounded sectionName name binary args timeout (judge f)).Tame Q where
  sectionName := h.sectionName
  name := h.name
  binary := h.binary
  path := h.path
  args := h.args
  setup _ hs := by cases hs
  watch _ hp := by cases hp
  silent _ _ haction _ := by
    cases haction
    exact only_pure _
  judges _ _ haction e hname hbinary _ := by
    cases haction
    exact .pure ⟨_, rfl, hf e hname hbinary⟩

theorem supervised (h : Simple sectionName name binary args) (window grace : Duration)
    {f : Evidence → Dialogue (List Verdict)} (hlooks : LooksInside f)
    (hf : ∀ e : Evidence, (∀ p, e.scope = some p → p.OneLine) →
      (f e).Gives (Q e.run) fun _ _ => True) :
    (Scenario.supervised sectionName name binary args window grace (inspect f)).Tame Q where
  sectionName := h.sectionName
  name := h.name
  binary := h.binary
  path := h.path
  args := h.args
  setup _ hs := by cases hs
  watch _ hp := by cases hp
  silent _ _ haction e := by
    cases haction
    exact (hlooks.silent e).map _
  judges _ _ haction e _ _ hscope := by
    cases haction
    exact (hf e hscope).map fun vs hvs => ⟨vs, rfl, hvs⟩

end Simple

variable {s : Scenario}

theorem tame_withSetup (h : s.Tame Q) {step : SetupStep} (hstep : step.path.OneLine) :
    (s.withSetup step).Tame Q :=
  { h with
    setup := fun x hx => (List.mem_append.mp hx).elim (h.setup x) fun hx => by
      rw [List.mem_singleton.mp hx]
      exact hstep }

theorem tame_watching (h : s.Tame Q) {relative : Path} (hrelative : relative.OneLine) :
    (s.watching relative).Tame Q :=
  { h with
    watch := fun x hx => (List.mem_append.mp hx).elim (h.watch x) fun hx => by
      rw [List.mem_singleton.mp hx]
      exact hrelative }

end Scenarios

end Catalog

structure Settings.Plain (s : Settings) : Prop where
  srcDir : s.srcDir.OneLine
  qtDir : s.qtDir.OneLine
  scopeRoot : ∀ p, s.scopeRoot = some p → p.OneLine
  scopeStem : OneLine s.scopePrefix

namespace Catalog

variable {settings : Settings} (h : settings.Plain)

include h

theorem subjects_oneLine {b : Subjects} (hb : b = .of settings) :
    ∀ x ∈ [b.daemon, b.cli, b.tx, b.qt], OneLine x.name ∧ x.path.OneLine := by
  intro x hx
  have hpath {dir : Path} (hdir : dir.OneLine) {name : String} (hname : OneLine name) :
      OneLine name ∧ (Binary.path ⟨name, dir⟩).OneLine := ⟨hname, hdir.join (.ofString hname)⟩
  subst hb
  simp only [Subjects.of, List.mem_cons, List.not_mem_nil, or_false] at hx
  rcases hx with rfl | rfl | rfl | rfl
  · exact hpath h.srcDir (.chars (by decide) : OneLine daemonName)
  · exact hpath h.srcDir (.chars (by decide) : OneLine cliName)
  · exact hpath h.srcDir (.chars (by decide) : OneLine txName)
  · exact hpath h.qtDir (.chars (by decide) : OneLine qtName)

omit h in
theorem asked_tame {sectionName : String} (hsection : OneLine sectionName) {x : Binary}
    (hx : OneLine x.name ∧ x.path.OneLine) {asked : String} (hasked : OneLine asked)
    (hother : x.name ++ asked ≠ configTest) {args : List String} (hargs : ∀ a ∈ args, OneLine a)
    (timeout : Duration) {f : Evidence → List Verdict}
    (hf : ∀ {e : Evidence}, OneLine e.binary.name → EachOneLine (f e)) :
    (Scenario.bounded sectionName (x.name ++ asked) x args timeout (judge f)).Tame
      (Judgement (x.name ++ asked)) := by
  have hname : OneLine (x.name ++ asked) := (oneLine_append _ _).mpr ⟨hx.1, hasked⟩
  refine Simple.bounded ⟨hsection, hname, hx.2, hx.1, hargs⟩ timeout fun e _ hbinary => ?_
  exact .of_other hother (hf (hbinary ▸ hx.1))

theorem basicResponse_tame (t : Timing) :
    ∀ s ∈ basicResponse (.of settings) t, s.Tame (Judgement s.name) := by
  have hsubjects := subjects_oneLine h rfl
  intro s hs
  rcases List.mem_append.mp hs with hs | hs
  · rcases List.mem_append.mp hs with hs | hs
    · obtain ⟨x, hx, rfl⟩ := List.mem_map.mp hs
      obtain ⟨hname, hpath⟩ := hsubjects x hx
      exact Simple.locate ⟨.chars (by decide), hname, hpath, hname, by simp⟩
    · obtain ⟨x, hx, rfl⟩ := List.mem_map.mp hs
      have hsubject := hsubjects x (List.mem_of_mem_take (i := 2) hx)
      refine asked_tame (.chars (by decide)) hsubject (.chars (by decide)) ?_ (by decide) _
        reportsVersion_oneLine
      simp only [Subjects.of, List.mem_cons, List.not_mem_nil, or_false] at hx
      rcases hx with rfl | rfl
      · exact (by decide : daemonName ++ " --version" ≠ configTest)
      · exact (by decide : cliName ++ " --version" ≠ configTest)
  · obtain ⟨x, hx, rfl⟩ := List.mem_map.mp hs
    have hsubject := hsubjects x (List.mem_of_mem_take (i := 3) hx)
    refine asked_tame (.chars (by decide)) hsubject (.chars (by decide)) ?_ (by decide) _
      printsHelp_oneLine
    simp only [Subjects.of, List.mem_cons, List.not_mem_nil, or_false] at hx
    rcases hx with rfl | rfl | rfl
    · exact (by decide : daemonName ++ " --help" ≠ configTest)
    · exact (by decide : cliName ++ " --help" ≠ configTest)
    · exact (by decide : txName ++ " --help" ≠ configTest)

theorem argumentParsing_tame (t : Timing) :
    ∀ s ∈ argumentParsing (.of settings) t, s.Tame (Judgement s.name) := by
  obtain ⟨hname, hpath⟩ := subjects_oneLine h rfl _ List.mem_cons_self
  intro s hs
  simp only [argumentParsing, List.mem_cons, List.not_mem_nil, or_false] at hs
  rcases hs with rfl | rfl | rfl | rfl
  · refine Simple.bounded ⟨.chars (by decide), .chars (by decide), hpath, hname, by decide⟩ _
      fun e he _ => ?_
    exact .of_other (by decide : "Invalid option test" ≠ configTest)
      (nonzeroExit_oneLine (by rw [he]; decide) (.chars (by decide)) (.chars (by decide)))
  · refine Simple.bounded ⟨.chars (by decide), .chars (by decide), hpath, hname, by decide⟩ _
      fun e he _ => ?_
    exact .of_other (by decide : "Conflicting options test" ≠ configTest)
      (nonzeroExit_oneLine (by rw [he]; decide) (.chars (by decide)) (.chars (by decide)))
  · refine Simple.bounded ⟨.chars (by decide), .chars (by decide), hpath, hname, by decide⟩ _
      fun e _ _ => ?_
    exact .of_other (by decide : "printtoconsole test" ≠ configTest) printsWithConsoleFlag_oneLine
  · refine tame_withSetup ?_ (by decide)
    exact Simple.bounded ⟨.chars (by decide), .chars (by decide), hpath, hname, by decide⟩ _
      fun e _ _ => parsesConfigFile_judges

theorem dataDirectory_tame (t : Timing) :
    ∀ s ∈ dataDirectory (.of settings) t, s.Tame (Judgement s.name) := by
  obtain ⟨hname, hpath⟩ := subjects_oneLine h rfl _ List.mem_cons_self
  have hother {name : String} (hname : name ≠ configTest) {f : Evidence → Dialogue (List Verdict)}
      {e : Evidence} (hf : FindsOneLine f e) :
      (f e).Gives (Judgement name e.run) fun _ _ => True := hf.mono fun _ => .of_other hname
  intro s hs
  simp only [dataDirectory, List.mem_cons, List.not_mem_nil, or_false] at hs
  rcases hs with rfl | rfl | rfl
  · refine tame_watching (tame_withSetup ?_ (by decide)) (by decide)
    exact Simple.supervised ⟨.chars (by decide), .chars (by decide), hpath, hname, by decide⟩ _ _
      createsDataDir_inside fun e hscope =>
        hother (by decide : "Datadir creation test" ≠ configTest) (createsDataDir_oneLine hscope)
  · refine tame_watching (tame_watching (tame_withSetup ?_ (by decide)) (by decide)) (by decide)
    exact Simple.supervised ⟨.chars (by decide), .chars (by decide), hpath, hname, by decide⟩ _ _
      createsDebugLog_inside fun e _ =>
        hother (by decide : "Debug log test" ≠ configTest) createsDebugLog_oneLine
  · refine tame_watching (tame_withSetup ?_ (by decide)) (by decide)
    exact Simple.supervised ⟨.chars (by decide), .chars (by decide), hpath, hname, by decide⟩ _ _
      createsPidFile_inside fun e _ =>
        hother (by decide : "PID file test" ≠ configTest) createsPidFile_oneLine

theorem scenarios_tame (kind : SuiteKind) :
    ∀ s ∈ kind.scenarios settings, s.Tame (Judgement s.name) := by
  cases kind with
  | binaries => exact basicResponse_tame h _
  | config => exact argumentParsing_tame h _
  | datadir => exact dataDirectory_tame h _

omit h in
/-- Building a suite registers the scenarios of its kind. -/
theorem build_eq (kind : SuiteKind) (settings : Settings) :
    build kind settings = .ok ⟨kind.title, kind.scenarios settings, .registered⟩ := by
  have hfold (scenarios : List Scenario) (suite : Suite) (hphase : suite.phase = .registered) :
      scenarios.foldlM (fun suite scenario => suite.register scenario) suite =
        .ok { suite with scenarios := suite.scenarios ++ scenarios } := by
    induction scenarios generalizing suite with
    | nil =>
      rw [List.append_nil]
      rfl
    | cons s rest ih =>
      rw [List.foldlM_cons, Suite.register, Suite.expectRegistered, if_pos hphase]
      refine (ih { suite with scenarios := suite.scenarios ++ [s] } hphase).trans ?_
      rw [List.append_assoc]
      rfl
  exact hfold (kind.scenarios settings) (.empty kind.title) rfl

end Catalog

end SmokeBench
