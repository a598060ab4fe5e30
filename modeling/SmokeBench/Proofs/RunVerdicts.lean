import SmokeBench.Proofs.AsciiCase
import SmokeBench.Proofs.CatalogVerdicts
import SmokeBench.Proofs.Trimming

/-! The verdicts on a run that was only to answer. There is one for each run, and it is a failure
for every run that was overdue. Else the check of `--version` looks for a word in both streams
together, in any mixture of lower and upper case but of no other script. The checks of the second
suite look either at the exit code alone, so that nothing written changes them, or at what was
written, where more output never takes a pass away. -/

namespace SmokeBench

namespace Verdict

/-- A pass if something holds, and a failure if not. -/
structure Settles (v : Verdict) (p : Prop) : Prop where
  pass : v.outcome = .pass ↔ p
  fail : v.outcome = .fail ↔ ¬ p

variable {v : Verdict} {p : Prop}

theorem Settles.of_pass (hv : v.outcome = .pass) (h : p) : v.Settles p where
  pass := iff_of_true hv h
  fail := iff_of_false (fun hfail => nomatch hv.symm.trans hfail) (not_not.mpr h)

theorem Settles.of_fail (hv : v.outcome = .fail) (h : ¬ p) : v.Settles p where
  pass := iff_of_false (fun hpass => nomatch hv.symm.trans hpass) h
  fail := iff_of_true hv h

theorem timely_settles (timed : Bool) {test : Bool} (htest : test = true ↔ p)
    (late good bad : String) :
    ∃ v, (if timed then [fail late] else if test then [pass good] else [fail bad]) = [v] ∧
      v.Settles (timed = false ∧ p) ∧ (v.outcome = .pass → v.message = good) ∧
        (timed = false → v.outcome = .fail → v.message = bad) := by
  cases timed with
  | true => exact ⟨_, rfl, .of_fail rfl nofun, nofun, nofun⟩
  | false =>
    cases test with
    | true => exact ⟨_, rfl, .of_pass rfl ⟨rfl, htest.mp rfl⟩, fun _ => rfl, nofun⟩
    | false =>
      have hnot : ¬ (false = false ∧ p) := fun h => Bool.false_ne_true (htest.mpr h.2)
      exact ⟨_, rfl, .of_fail rfl hnot, nofun, fun _ _ => rfl⟩

theorem anyPass_passed (vs : List Verdict) : (anyPass vs).passed = vs.any passed := by
  unfold anyPass
  split
  · rename_i v hfound
    rw [List.find?_some hfound]
    have hv : v ∈ vs := List.mem_of_find?_eq_some hfound
    exact (List.any_eq_true.mpr ⟨v, hv, List.find?_some hfound⟩).symm
  · rename_i hnone
    have hany : vs.any passed = false := by
      rw [← Bool.not_eq_true, List.any_eq_true]
      rintro ⟨v, hv, hpassed⟩
      exact List.find?_eq_none.mp hnone v hv hpassed
    rw [hany]
    split
    · rfl
    · unfold joinMisses
      split <;> rfl

end Verdict

namespace Check

/-- Only an exit code passes: what has died by a signal has none. -/
theorem exitCodeIs_settles (r : RunResult) (expected : ExitExpectation) :
    (exitCodeIs r expected).Settles (∃ code, r.exitCode = some code ∧ expected.accepts code) := by
  unfold exitCodeIs
  cases hcode : r.exitCode with
  | none =>
    have hnot : ¬ ∃ code, none = some code ∧ expected.accepts code := fun ⟨_, h, _⟩ => nomatch h
    dsimp only
    split
    · exact .of_fail rfl hnot
    · split <;> exact .of_fail rfl hnot
  | some code =>
    dsimp only
    split
    · rename_i haccepts
      exact .of_pass rfl ⟨code, rfl, haccepts⟩
    · rename_i hrefuses
      refine .of_fail rfl ?_
      rintro ⟨_, hsame, haccepts⟩
      cases hsame
      exact hrefuses haccepts

end Check

namespace Catalog

section Version

def TellsVersion (output : String) : Prop :=
  Text.Spells output "version" ∨ "LitecoinCash".toList <:+: output.toList

theorem plainWord_version : Text.PlainWord "version".toList where
  letters l hl := by
    have hplain : "version".toList.all
        (fun l => decide (Text.Ascii l ∧ l.toLower = l ∧ l ≠ 'k')) = true := by decide +kernel
    obtain ⟨hascii, hlower, hne⟩ := of_decide_eq_true (List.all_eq_true.mp hplain l hl)
    exact ⟨hascii, hlower, hne⟩
  last := by decide +kernel

theorem found_version (r : RunResult) :
    (Verdict.anyPass [Check.outputContains r "version" .combined .insensitive,
      Check.outputContains r "LitecoinCash" .combined .sensitive]).passed ↔
    TellsVersion (r.stdout ++ r.stderr) := by
  rw [Verdict.anyPass_passed, List.any_cons, List.any_cons, List.any_nil, Bool.or_false,
    Bool.or_eq_true, Check.outputContains_passed, Check.outputContains_passed]
  exact or_congr (Text.contains_lowercase_plain plainWord_version _) Text.contains_iff

/-- The verdict on what a subject answers to `--version`. -/
structure VersionVerdict (e : Evidence) (v : Verdict) : Prop where
  settles : v.Settles (e.run.timedOut = false ∧ TellsVersion (e.run.stdout ++ e.run.stderr))
  told : v.outcome = .pass → ∃ shown,
    Text.HeadLine (e.run.stdout ++ e.run.stderr).toList shown ∧
      v.message = s!"{e.binary.name} --version: " ++ String.ofList shown

/-- Whatever a run left, there is one verdict on it. It passes exactly if the run ended in time and
the output tells a version, and then shows the first line of the output. -/
theorem reportsVersion_told (e : Evidence) : ∃ v, reportsVersion e = [v] ∧ VersionVerdict e v := by
  obtain ⟨v, hone, hsettles, hpass, -⟩ := Verdict.timely_settles e.run.timedOut
    (found_version e.run) s!"{e.binary.name} --version timed out"
    s!"{e.binary.name} --version: {e.run.firstLine}"
    s!"{e.binary.name} --version no version info in output"
  exact ⟨v, hone, hsettles, fun h => ⟨_, Text.headLine_iff.mp rfl, hpass h⟩⟩

end Version

/-- The checks of the second suite. -/
inductive ArgumentCheck
  | invalidOption
  | conflictingNetworks
  | consoleFlag
  | configFile
  deriving DecidableEq, Repr

end Catalog

/-- The same run with more output at the end of both streams. -/
def RunResult.saying (r : RunResult) (out err : String) : RunResult :=
  { r with stdout := r.stdout ++ out, stderr := r.stderr ++ err }

def Evidence.saying (e : Evidence) (out err : String) : Evidence :=
  { e with run := e.run.saying out err }

namespace Catalog

namespace ArgumentCheck

def all : List ArgumentCheck := [invalidOption, conflictingNetworks, consoleFlag, configFile]

def sectionName : ArgumentCheck → String
  | invalidOption => "invalid option rejection"
  | conflictingNetworks => "conflicting options"
  | consoleFlag => "-printtoconsole"
  | configFile => "config file parsing"

def verdicts : ArgumentCheck → Evidence → List Verdict
  | invalidOption => rejectsInvalidOption
  | conflictingNetworks => rejectsConflictingNetworks
  | consoleFlag => printsWithConsoleFlag
  | configFile => parsesConfigFile

/-- The subject has to refuse its arguments. -/
def Rejection (k : ArgumentCheck) : Prop := k = invalidOption ∨ k = conflictingNetworks

/-- What the check asks of a run that was not overdue. -/
def Accepts : ArgumentCheck → RunResult → Prop
  | invalidOption, r | conflictingNetworks, r => ∃ code, r.exitCode = some code ∧ code ≠ 0
  | consoleFlag, r => r.stdout ≠ "" ∨ r.stderr ≠ ""
  | configFile, r => r.exitCode = some 0 ∨ 100 < r.stdout.utf8ByteSize

/-- The verdict of a check. `more` compares it with that on a run with more output. -/
structure Judged (k : ArgumentCheck) (e : Evidence) (v : Verdict) : Prop where
  settles : v.Settles (e.run.timedOut = false ∧ k.Accepts e.run)
  exited : k.Rejection → ∀ status : ExitStatus, e.run.exitCode = status.code →
    v.Settles (e.run.timedOut = false ∧ ∃ code, status = .exited code ∧ code ≠ 0)
  told : k = configFile → e.run.timedOut = false → v.outcome = .fail → ∃ shown,
    Text.CutEnd e.run.stderr.toList shown ∧
      v.message = "Config parsing issue: " ++ String.ofList shown
  more : ∀ out err, ∃ v', k.verdicts (e.saying out err) = [v'] ∧
    (v.outcome = .pass → v'.outcome = .pass) ∧ (k.Rejection → v' = v)

variable {e : Evidence}

theorem nonzeroExit_settles (onPass onFail : String) : ∃ v, nonzeroExit onPass onFail e = [v] ∧
    v.Settles (e.run.timedOut = false ∧ ∃ code, e.run.exitCode = some code ∧ code ≠ 0) := by
  have hexit : (Check.exitCodeIs e.run .nonzero).Settles
      (∃ code, e.run.exitCode = some code ∧ code ≠ 0) := by
    simpa only [ExitExpectation.accepts, bne_iff_ne] using
      Check.exitCodeIs_settles e.run .nonzero
  unfold nonzeroExit
  dsimp only
  split
  · rename_i htimed
    exact ⟨_, rfl, .of_fail rfl fun h => Bool.false_ne_true (h.1.symm.trans htimed)⟩
  · rename_i htimed
    refine ⟨_, rfl, ?_⟩
    split
    · rename_i hpassed
      exact .of_pass rfl ⟨Bool.eq_false_iff.mpr htimed, hexit.pass.mp (beq_iff_eq.mp hpassed)⟩
    · rename_i hpassed
      have hnot := mt hexit.pass.mpr (mt beq_iff_eq.mpr hpassed)
      exact .of_fail (hexit.fail.mpr hnot) fun h => hnot h.2

theorem printsWithConsoleFlag_settles : ∃ v, printsWithConsoleFlag e = [v] ∧
    v.Settles (e.run.timedOut = false ∧ (e.run.stdout ≠ "" ∨ e.run.stderr ≠ "")) := by
  have htest : (Check.outputMinLength e.run .combined 1).passed = true ↔
      e.run.stdout ≠ "" ∨ e.run.stderr ≠ "" := by
    rw [outputMinLength_passed, decide_eq_true_eq, Nat.one_le_iff_ne_zero, Ne,
      String.utf8ByteSize_eq_zero_iff, RunResult.text, String.append_eq_empty_iff, not_and_or]
  obtain ⟨v, hone, hsettles, -⟩ := Verdict.timely_settles e.run.timedOut htest
    "printtoconsole test timed out" "-printtoconsole works with -?"
    "No output with -printtoconsole -?"
  exact ⟨v, hone, hsettles⟩

theorem parsesConfigFile_settles : ∃ v, parsesConfigFile e = [v] ∧
    v.Settles (e.run.timedOut = false ∧
      (e.run.exitCode = some 0 ∨ 100 < e.run.stdout.utf8ByteSize)) ∧
    (e.run.timedOut = false → v.outcome = .fail →
      v.message = s!"Config parsing issue: {Text.trimEnd e.run.stderr}") := by
  have htest : (e.run.success ||
      (Check.outputMinLength e.run .stdout (helpFloor + 1)).passed) = true ↔
      e.run.exitCode = some 0 ∨ 100 < e.run.stdout.utf8ByteSize := by
    rw [Bool.or_eq_true, outputMinLength_passed, decide_eq_true_eq]
    exact or_congr beq_iff_eq Iff.rfl
  obtain ⟨v, hone, hsettles, -, hfail⟩ := Verdict.timely_settles e.run.timedOut htest
    "Config file test timed out" "Config file parsed successfully"
    s!"Config parsing issue: {Text.trimEnd e.run.stderr}"
  exact ⟨v, hone, hsettles, hfail⟩

theorem Accepts.saying {k : ArgumentCheck} {r : RunResult} (h : k.Accepts r) (out err : String) :
    k.Accepts (r.saying out err) := by
  cases k with
  | invalidOption => exact h
  | conflictingNetworks => exact h
  | consoleFlag =>
    refine h.imp (fun hout => ?_) fun herr => ?_
    · exact fun hempty => hout (String.append_eq_empty_iff.mp hempty).1
    · exact fun hempty => herr (String.append_eq_empty_iff.mp hempty).1
  | configFile =>
    refine h.imp id fun hsize => ?_
    have hlonger : (r.stdout ++ out).utf8ByteSize =
        r.stdout.utf8ByteSize + out.utf8ByteSize := String.utf8ByteSize_append
    exact hlonger ▸ Nat.lt_add_right _ hsize

/-- A rejection is judged by how the subject ended, not by what it wrote. -/
theorem Rejection.verdicts_saying {k : ArgumentCheck} (h : k.Rejection) (out err : String) :
    k.verdicts (e.saying out err) = k.verdicts e := by
  rcases h with rfl | rfl <;> rfl

theorem verdicts_settle (k : ArgumentCheck) (e : Evidence) : ∃ v, k.verdicts e = [v] ∧
    v.Settles (e.run.timedOut = false ∧ k.Accepts e.run) ∧
    (k = configFile → e.run.timedOut = false → v.outcome = .fail →
      v.message = s!"Config parsing issue: {Text.trimEnd e.run.stderr}") := by
  cases k with
  | invalidOption =>
    obtain ⟨v, hone, hsettles⟩ := nonzeroExit_settles _ _
    exact ⟨v, hone, hsettles, nofun⟩
  | conflictingNetworks =>
    obtain ⟨v, hone, hsettles⟩ := nonzeroExit_settles _ _
    exact ⟨v, hone, hsettles, nofun⟩
  | consoleFlag =>
    obtain ⟨v, hone, hsettles⟩ := printsWithConsoleFlag_settles
    exact ⟨v, hone, hsettles, nofun⟩
  | configFile =>
    obtain ⟨v, hone, hsettles, hfail⟩ := parsesConfigFile_settles
    exact ⟨v, hone, hsettles, fun _ => hfail⟩

theorem Rejection.accepts_iff {k : ArgumentCheck} (h : k.Rejection) {r : RunResult}
    {status : ExitStatus} (hstatus : r.exitCode = status.code) :
    k.Accepts r ↔ ∃ code, status = .exited code ∧ code ≠ 0 := by
  have haccepts : k.Accepts r ↔ ∃ code, r.exitCode = some code ∧ code ≠ 0 := by
    rcases h with rfl | rfl <;> rfl
  rw [haccepts, hstatus]
  cases status with
  | exited n => simp [ExitStatus.code]
  | signaled n => simp [ExitStatus.code]

end ArgumentCheck

/-- The second suite runs these four checks, and each has one verdict on every run. -/
theorem argumentParsing_judged (b : Subjects) (t : Timing) :
    (argumentParsing b t).map (fun s => (s.sectionName, s.action)) =
      ArgumentCheck.all.map (fun k => (k.sectionName, .run .bounded (judge k.verdicts))) ∧
    ∀ (k : ArgumentCheck) (e : Evidence), ∃ v, k.verdicts e = [v] ∧ k.Judged e v := by
  refine ⟨rfl, fun k e => ?_⟩
  obtain ⟨v, hone, hsettles, htold⟩ := k.verdicts_settle e
  refine ⟨v, hone, hsettles, fun hrejection status hstatus => ?_, fun hk htimely hfail => ?_,
    fun out err => ?_⟩
  · rwa [← hrejection.accepts_iff hstatus]
  · exact ⟨_, Text.trimEndChars_eq_iff.mp rfl, htold hk htimely hfail⟩
  · obtain ⟨v', hone', hsettles', -⟩ := k.verdicts_settle (e.saying out err)
    refine ⟨v', hone', fun hpass => ?_, fun hrejection => ?_⟩
    · obtain ⟨htimely, haccepts⟩ := hsettles.pass.mp hpass
      exact hsettles'.pass.mpr ⟨htimely, haccepts.saying out err⟩
    · rw [hrejection.verdicts_saying, hone] at hone'
      exact (List.singleton_inj.mp hone').symm

end Catalog

end SmokeBench
