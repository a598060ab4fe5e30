import Mathlib.Data.List.Forall2
import Mathlib.Tactic.TFAE
import SmokeBench.Proofs.Sink
import SmokeBench.Summary.Basic

/-! Pass and fail are derived in several places: by the outcome of a scenario, by the exit status of
a suite, by the status and the totals of the summary and by two texts of the transcript. All of
them are functions of the tallies, and a tally counts verdicts wherever they stand. So they agree,
and none depends on the order of verdicts, scenarios or suites. -/

namespace SmokeBench

open Dialogue

namespace Outcome

/-- What an outcome weighs beside others: FAIL over PASS over INFO over SKIP. -/
def weight : Outcome → Nat
  | .skip => 0
  | .info => 1
  | .pass => 2
  | .fail => 3

/-- An outcome that some verdict has and no verdict outweighs. -/
structure Tops (o : Outcome) (vs : List Verdict) : Prop where
  reached : ∃ v ∈ vs, v.outcome = o
  greatest : ∀ v ∈ vs, v.outcome.weight ≤ o.weight

end Outcome

namespace ScenarioReport

theorem any_outcome_iff (vs : List Verdict) (o : Outcome) :
    vs.any (·.outcome == o) = true ↔ ∃ v ∈ vs, v.outcome = o := by
  simp

theorem outcome_tops {r : ScenarioReport} (h : r.verdicts ≠ []) : r.outcome.Tops r.verdicts := by
  obtain ⟨first, hfirst⟩ := List.exists_mem_of_ne_nil _ h
  unfold outcome
  simp only [any_outcome_iff, Bool.and_eq_true, Bool.not_eq_true']
  split_ifs with hfail hpass hskip
  · exact ⟨hfail, fun w _ => by cases w.outcome <;> decide⟩
  · refine ⟨hpass, fun w hw => ?_⟩
    cases ho : w.outcome with
    | fail => exact absurd ⟨w, hw, ho⟩ hfail
    | _ => decide
  · refine ⟨hskip.1, fun w hw => ?_⟩
    have hinfo : w.outcome ≠ .info := by simpa using (List.any_eq_false.mp hskip.2) w hw
    cases ho : w.outcome with
    | fail => exact absurd ⟨w, hw, ho⟩ hfail
    | pass => exact absurd ⟨w, hw, ho⟩ hpass
    | info => exact absurd ho hinfo
    | skip => decide
  · have hweak (w : Verdict) (hw : w ∈ r.verdicts) : w.outcome = .skip ∨ w.outcome = .info := by
      cases ho : w.outcome with
      | fail => exact absurd ⟨w, hw, ho⟩ hfail
      | pass => exact absurd ⟨w, hw, ho⟩ hpass
      | info => exact Or.inr rfl
      | skip => exact Or.inl rfl
    refine ⟨?_, fun w hw => ?_⟩
    · rcases hweak first hfirst with ho | ho
      · by_contra hnone
        refine hskip ⟨⟨first, hfirst, ho⟩, ?_⟩
        exact List.any_eq_false.mpr fun w hw hinfo => hnone ⟨w, hw, by simpa using hinfo⟩
      · exact ⟨first, hfirst, ho⟩
    · rcases hweak w hw with ho | ho
      · simp [ho, Outcome.weight]
      · simp [ho, Outcome.weight]

theorem outcome_eq_fail_iff (r : ScenarioReport) :
    r.outcome = .fail ↔ ∃ v ∈ r.verdicts, v.outcome = .fail := by
  unfold outcome
  simp only [any_outcome_iff]
  split_ifs with hfail <;> simp [hfail]

/-- The same entry with its verdicts in another order. -/
structure Reorders (a b : ScenarioReport) : Prop where
  sectionName : a.sectionName = b.sectionName
  name : a.name = b.name
  verdicts : a.verdicts.Perm b.verdicts

theorem Reorders.outcome_eq {a b : ScenarioReport} (h : a.Reorders b) : a.outcome = b.outcome := by
  unfold outcome
  simp only [h.verdicts.any_eq]

end ScenarioReport

namespace Tally

def count (vs : List Verdict) : Tally :=
  ⟨vs.countP (·.outcome == .pass), vs.countP (·.outcome == .fail),
    vs.countP (·.outcome == .skip), vs.countP (·.outcome == .info)⟩

def sum (ts : List Tally) : Tally := ts.foldr merge zero

theorem merge_comm (a b : Tally) : a.merge b = b.merge a := by
  simp [merge, Nat.add_comm]

theorem merge_assoc (a b c : Tally) : (a.merge b).merge c = a.merge (b.merge c) := by
  simp [merge, Nat.add_assoc]

theorem zero_merge (t : Tally) : zero.merge t = t := by simp [merge, zero]

theorem add_eq_merge (t : Tally) (v : Verdict) : t.add v.outcome = t.merge (count [v]) := by
  cases ho : v.outcome <;> simp [add, merge, count, ho]

theorem count_cons (v : Verdict) (vs : List Verdict) :
    count (v :: vs) = (count [v]).merge (count vs) := by
  simp [count, merge, List.countP_cons, Nat.add_comm]

theorem foldl_add_eq (t : Tally) (vs : List Verdict) :
    vs.foldl (fun t v => t.add v.outcome) t = t.merge (count vs) := by
  induction vs generalizing t with
  | nil => rfl
  | cons v rest ih => rw [List.foldl_cons, ih, add_eq_merge, merge_assoc, ← count_cons]

theorem foldl_merge_eq (t : Tally) (ts : List Tally) : ts.foldl merge t = t.merge (sum ts) := by
  induction ts generalizing t with
  | nil => rfl
  | cons u rest ih => rw [List.foldl_cons, ih, merge_assoc]; rfl

theorem count_append (a b : List Verdict) : count (a ++ b) = (count a).merge (count b) := by
  simp [count, merge]

theorem total_count (vs : List Verdict) : (count vs).total = vs.length := by
  induction vs with
  | nil => rfl
  | cons v rest ih =>
    have hone : (count [v]).total = 1 := by cases ho : v.outcome <;> simp [count, total, ho]
    have hmerge (a b : Tally) : (a.merge b).total = a.total + b.total := by
      simp only [merge, total]
      omega
    rw [count_cons, hmerge, hone, ih, List.length_cons, Nat.add_comm]

theorem sum_perm {ts ts' : List Tally} (h : ts.Perm ts') : sum ts = sum ts' := by
  induction h with
  | nil => rfl
  | cons t _ ih => exact congrArg t.merge ih
  | swap t u rest =>
    simp only [sum, List.foldr_cons, ← merge_assoc, merge_comm u t]
  | trans _ _ ih ih' => exact ih.trans ih'

end Tally

/-- The same elements up to `R`, in another order. -/
def ReorderedBy {α : Type} (R : α → α → Prop) (as bs : List α) : Prop :=
  ∃ cs, as.Perm cs ∧ List.Forall₂ R cs bs

theorem ReorderedBy.map_perm {α β : Type} {R : α → α → Prop} {f : α → β}
    (hf : ∀ a b, R a b → f a = f b) {as bs : List α} (h : ReorderedBy R as bs) :
    (as.map f).Perm (bs.map f) := by
  obtain ⟨cs, hperm, hrel⟩ := h
  refine (hperm.map f).trans (.of_eq ?_)
  clear hperm
  induction hrel with
  | nil => rfl
  | cons hab _ ih => rw [List.map_cons, List.map_cons, hf _ _ hab, ih]

theorem ReorderedBy.flatMap_perm {α β : Type} {R : α → α → Prop} {f : α → List β}
    (hf : ∀ a b, R a b → (f a).Perm (f b)) {as bs : List α} (h : ReorderedBy R as bs) :
    (as.flatMap f).Perm (bs.flatMap f) := by
  obtain ⟨cs, hperm, hrel⟩ := h
  refine (hperm.flatMap_right f).trans ?_
  clear hperm
  induction hrel with
  | nil => exact .refl _
  | cons hab _ ih => exact (hf _ _ hab).append ih

namespace SuiteReport

def verdicts (r : SuiteReport) : List Verdict := r.scenarios.flatMap (·.verdicts)

theorem tally_eq (r : SuiteReport) : r.tally = Tally.count r.verdicts := by
  unfold tally
  rw [Tally.foldl_add_eq, Tally.zero_merge]
  rfl

theorem failed_iff (r : SuiteReport) :
    r.failed = true ↔ ∃ e ∈ r.scenarios, e.outcome = .fail := by
  simp [failed, Outcome.isFailure]

theorem failed_iff_verdict (r : SuiteReport) :
    r.failed = true ↔ ∃ v ∈ r.verdicts, v.outcome = .fail := by
  simp only [failed_iff, ScenarioReport.outcome_eq_fail_iff, verdicts, List.mem_flatMap]
  constructor
  · rintro ⟨e, he, v, hv, ho⟩
    exact ⟨v, ⟨e, he, hv⟩, ho⟩
  · rintro ⟨v, ⟨e, he, hv⟩, ho⟩
    exact ⟨e, he, v, hv, ho⟩

theorem failed_iff_tally (r : SuiteReport) : r.failed = true ↔ 0 < r.tally.failed := by
  rw [failed_iff_verdict, tally_eq, Tally.count, List.countP_pos_iff]
  simp only [beq_iff_eq]

theorem exitStatus_eq_one_iff (r : SuiteReport) : r.exitStatus = 1 ↔ r.failed = true := by
  unfold exitStatus
  split_ifs with h <;> simp [h]

theorem totals_eq (rs : List SuiteReport) : totals rs = Tally.sum (rs.map tally) := by
  unfold totals
  rw [Tally.foldl_merge_eq, Tally.zero_merge]

theorem totals_eq_count (rs : List SuiteReport) :
    totals rs = Tally.count (rs.flatMap verdicts) := by
  rw [totals_eq]
  induction rs with
  | nil => rfl
  | cons r rest ih => rw [List.flatMap_cons, Tally.count_append, ← ih, ← tally_eq]; rfl

theorem totals_failed_pos_iff (rs : List SuiteReport) :
    0 < (totals rs).failed ↔ ∃ r ∈ rs, r.failed = true := by
  rw [totals_eq_count, Tally.count, List.countP_pos_iff]
  simp only [beq_iff_eq, List.mem_flatMap, failed_iff_verdict]
  constructor
  · rintro ⟨v, ⟨r, hr, hv⟩, ho⟩
    exact ⟨r, hr, v, hv, ho⟩
  · rintro ⟨r, hr, v, hv, ho⟩
    exact ⟨v, ⟨r, hr, hv⟩, ho⟩

/-- The same suite with its scenarios, and the verdicts of each, in another order. -/
structure Reorders (a b : SuiteReport) : Prop where
  title : a.title = b.title
  scenarios : ReorderedBy ScenarioReport.Reorders a.scenarios b.scenarios

theorem Reorders.tally_eq {a b : SuiteReport} (h : a.Reorders b) : a.tally = b.tally := by
  have hperm := h.scenarios.flatMap_perm (f := (·.verdicts)) fun _ _ he => he.verdicts
  have hcount (o : Outcome) :
      a.verdicts.countP (·.outcome == o) = b.verdicts.countP (·.outcome == o) :=
    hperm.countP_eq _
  simp only [SuiteReport.tally_eq, Tally.count, hcount]

theorem Reorders.failed_eq {a b : SuiteReport} (h : a.Reorders b) : a.failed = b.failed := by
  rw [Bool.eq_iff_iff, failed_iff_tally, failed_iff_tally, h.tally_eq]

end SuiteReport

namespace Transcript

theorem ne_of_ends {a b x y : String} (n : Nat) (ha : n ≤ a.toList.length)
    (hb : n ≤ b.toList.length) (h : a.toList.reverse.take n ≠ b.toList.reverse.take n) :
    x ++ a ≠ y ++ b := by
  intro heq
  have hrev : a.toList.reverse ++ x.toList.reverse = b.toList.reverse ++ y.toList.reverse := by
    rw [← List.reverse_append, ← List.reverse_append, ← String.toList_append,
      ← String.toList_append, heq]
  have htake := congrArg (List.take n) hrev
  rw [List.take_append_of_le_length (by rwa [List.length_reverse]),
    List.take_append_of_le_length (by rwa [List.length_reverse])] at htake
  exact h htake

theorem rule_toList : rule.toList = List.replicate 60 '=' := String.toList_ofList

theorem append_ne_rule (x a : String) (h : ∃ c ∈ a.toList, c ≠ '=') : x ++ a ≠ rule := by
  intro heq
  obtain ⟨c, hc, hne⟩ := h
  have hmem : c ∈ (x ++ a).toList := by
    rw [String.toList_append]
    exact List.mem_append_right _ hc
  rw [heq, rule_toList] at hmem
  exact hne (List.eq_of_mem_replicate hmem)

theorem failed_mem_resultLines_iff (r : SuiteReport) :
    s!"RESULT: Some {r.title} checks FAILED" ∈ resultLines r ↔ r.failed = true := by
  have hempty : s!"RESULT: Some {r.title} checks FAILED" ≠ "" := fun h =>
    absurd (String.append_eq_empty_iff.mp h).2 (by decide)
  have hrule : s!"RESULT: Some {r.title} checks FAILED" ≠ rule :=
    append_ne_rule _ " checks FAILED" ⟨'F', by decide, by decide⟩
  have hpassed : s!"RESULT: Some {r.title} checks FAILED" ≠
      s!"RESULT: All {r.title} checks PASSED" :=
    ne_of_ends 6 (by decide) (by decide) (by decide)
  unfold resultLines
  simp only [List.mem_cons, List.not_mem_nil, or_false, false_or, hempty, hrule]
  split_ifs with hfailed
  · simp only [hfailed]
  · simp only [hpassed, hfailed, Bool.false_eq_true]

theorem failed_mem_overallLines_iff (rs : List SuiteReport) :
    s!"RESULT: {rs.countP (·.failed)} of {rs.length} suites FAILED" ∈ overallLines rs ↔
      ∃ r ∈ rs, r.failed = true := by
  have hcount : (rs.filter (·.failed)).length = rs.countP (·.failed) :=
    List.countP_eq_length_filter.symm
  have hoverall (x y z : String) : x ++ " suites FAILED" ≠ y ++ (z ++ " info") := by
    rw [← String.append_assoc]
    exact ne_of_ends 1 (by decide) (by decide) (by decide)
  have hpassed (x : String) : x ++ " suites FAILED" ≠ "RESULT: All" ++ " suites PASSED" :=
    ne_of_ends 6 (by decide) (by decide) (by decide)
  have hpos : 0 < rs.countP (·.failed) ↔ ∃ r ∈ rs, r.failed = true := List.countP_pos_iff
  rw [← hpos]
  unfold overallLines
  simp only [List.mem_cons, List.not_mem_nil, or_false, hcount]
  by_cases hzero : rs.countP (·.failed) = 0
  · rw [if_pos hzero, hzero]
    refine iff_of_false ?_ (Nat.lt_irrefl 0)
    rintro (h | h)
    · exact hoverall _ _ _ h
    · exact hpassed _ h
  · rw [if_neg hzero]
    exact iff_of_true (.inr rfl) (Nat.pos_of_ne_zero hzero)

end Transcript

namespace SuiteReport

theorem Reorders.resultLines_eq {a b : SuiteReport} (h : a.Reorders b) :
    Transcript.resultLines a = Transcript.resultLines b := by
  unfold Transcript.resultLines
  rw [h.title, h.failed_eq]

section

variable {rs rs' : List SuiteReport} (h : ReorderedBy Reorders rs rs')

include h

theorem totals_reordered : totals rs = totals rs' := by
  rw [totals_eq, totals_eq, Tally.sum_perm (h.map_perm fun _ _ hr => hr.tally_eq)]

theorem length_reordered : rs.length = rs'.length := by
  simpa using (h.map_perm (f := title) fun _ _ hr => hr.title).length_eq

theorem countP_failed_reordered : rs.countP failed = rs'.countP failed := by
  have hperm : (rs.map failed).Perm (rs'.map failed) := h.map_perm fun _ _ hr => hr.failed_eq
  have hcount := hperm.countP_eq fun b => b
  rwa [List.countP_map, List.countP_map] at hcount

theorem any_failed_reordered : rs.any failed = rs'.any failed := by
  rw [Bool.eq_iff_iff, List.any_eq_true, List.any_eq_true, ← totals_failed_pos_iff,
    ← totals_failed_pos_iff, totals_reordered h]

theorem overallLines_reordered : Transcript.overallLines rs = Transcript.overallLines rs' := by
  unfold Transcript.overallLines
  simp only [totals_reordered h, length_reordered h, ← List.countP_eq_length_filter]
  rw [show rs.countP (fun r => r.failed) = _ from countP_failed_reordered h]

theorem outcomes_reordered :
    ((rs.flatMap (·.scenarios)).map (·.outcome)).Perm
      ((rs'.flatMap (·.scenarios)).map (·.outcome)) := by
  simp only [List.map_flatMap]
  exact h.flatMap_perm fun _ _ hr => hr.scenarios.map_perm fun _ _ he => he.outcome_eq

end

end SuiteReport

variable {σ : Type} {host : Host σ}

open SuiteReport Transcript

theorem suiteResult_writes_failed_iff (hsink : host.TakesAll) (t : Transcript) (r : SuiteReport)
    (s : σ) :
    s!"RESULT: Some {r.title} checks FAILED" ++ "\n" ∈ written ((t.suiteResult r).journal host s) ↔
      r.failed = true := by
  rw [(suiteResult_tells hsink t r s).sink, ← failed_mem_resultLines_iff]
  simp only [List.mem_map, String.append_left_inj, exists_eq_right]

theorem overall_writes_failed_iff (hsink : host.TakesAll) (t : Transcript) (rs : List SuiteReport)
    (s : σ) :
    s!"RESULT: {rs.countP (·.failed)} of {rs.length} suites FAILED" ++ "\n" ∈
        written ((t.overall rs).journal host s) ↔ ∃ r ∈ rs, r.failed = true := by
  rw [(overall_tells hsink t rs s).sink, ← failed_mem_overallLines_iff]
  simp only [List.mem_map, String.append_left_inj, exists_eq_right]

theorem create_eq (startedAt : Nat) (rs : List SuiteReport) (s : σ) :
    ((RunSummary.create startedAt rs).run host s).1 =
      RunSummary.of startedAt (host.answer .calendar s).1 rs := by
  rw [RunSummary.create, run_bind, run_pure, run_ask]

theorem status_eq_fail_iff (startedAt endedAt : Nat) (rs : List SuiteReport) :
    (RunSummary.of startedAt endedAt rs).status = "fail" ↔ ∃ r ∈ rs, r.failed = true := by
  rw [← List.any_eq_true, RunSummary.of]
  split_ifs with h <;> simp [h]

/-- Whatever tells whether a run failed tells the same, and counts the same suites. -/
theorem failure_agrees (hsink : host.TakesAll) (t : Transcript) (startedAt : Nat) (s : σ)
    (rs : List SuiteReport) :
    let summary := ((RunSummary.create startedAt rs).run host s).1
    let totals := summary.totals
    let overall := written ((t.overall rs).journal host s)
    let told (r : SuiteReport) := written ((t.suiteResult r).journal host s)
    let k := rs.countP fun r => s!"RESULT: Some {r.title} checks FAILED" ++ "\n" ∈ told r
    [∃ r ∈ rs, ∃ e ∈ r.scenarios, ∃ v ∈ e.verdicts, v.outcome = .fail,
      ∃ r ∈ rs, ∃ e ∈ r.scenarios, e.outcome = .fail,
      ∃ r ∈ rs, r.failed = true,
      ∃ r ∈ rs, r.exitStatus = 1,
      summary.status = "fail",
      0 < totals.failed,
      s!"RESULT: {k} of {rs.length} suites FAILED" ++ "\n" ∈ overall].TFAE ∧
    totals = .sum (rs.map (·.tally)) ∧
    overall.head? = some (s!"OVERALL: {rs.length} suites, {totals.total} checks: " ++
      (s!"{totals.passed} passed, {totals.failed} failed, " ++
        s!"{totals.skipped} skipped, {totals.info} info") ++ "\n") ∧
    totals.total = (rs.flatMap fun r => r.scenarios.flatMap (·.verdicts)).length ∧
    (∀ e : ScenarioReport, e.verdicts ≠ [] → e.outcome.Tops e.verdicts) ∧
    ∀ rs', ReorderedBy Reorders rs rs' →
      ((rs.flatMap (·.scenarios)).map (·.outcome)).Perm
        ((rs'.flatMap (·.scenarios)).map (·.outcome)) ∧
      (rs.map fun r => (r.failed, r.exitStatus, r.tally, told r)).Perm
        (rs'.map fun r => (r.failed, r.exitStatus, r.tally, told r)) ∧
      ((RunSummary.create startedAt rs').run host s).1 = { summary with suites := rs' } ∧
      written ((t.overall rs').journal host s) = overall := by
  intro summary totals overall told k
  have hsummary : summary = .of startedAt (host.answer .calendar s).1 rs := create_eq startedAt rs s
  have htotals : totals = SuiteReport.totals rs := by
    rw [show totals = summary.totals from rfl, hsummary]
    rfl
  have hk : k = rs.countP (·.failed) := by
    refine List.countP_congr fun r _ => ?_
    rw [decide_eq_true_iff, suiteResult_writes_failed_iff hsink t r s]
  refine ⟨?_, ?_, ?_, ?_, fun e he => ScenarioReport.outcome_tops he, fun rs' h => ⟨?_, ?_, ?_, ?_⟩⟩
  · rw [hsummary, htotals, hk]
    tfae_have 1 ↔ 2 := by simp only [ScenarioReport.outcome_eq_fail_iff]
    tfae_have 2 ↔ 3 := by simp only [failed_iff]
    tfae_have 4 ↔ 3 := by simp only [exitStatus_eq_one_iff]
    tfae_have 5 ↔ 3 := status_eq_fail_iff startedAt _ rs
    tfae_have 6 ↔ 3 := totals_failed_pos_iff rs
    tfae_have 7 ↔ 3 := overall_writes_failed_iff hsink t rs s
    tfae_finish
  · rw [htotals, totals_eq]
  · rw [htotals, show overall = _ from (overall_tells hsink t rs s).sink]
    simp only [overallLines, List.map_cons, List.head?_cons, String.append_assoc]
  · rw [htotals, totals_eq_count, Tally.total_count]
    rfl
  · exact outcomes_reordered h
  · refine h.map_perm fun a b hr => ?_
    have htold : told a = told b := by
      rw [show told a = _ from (suiteResult_tells hsink t a s).sink, hr.resultLines_eq,
        show told b = _ from (suiteResult_tells hsink t b s).sink]
    simp only [htold, exitStatus, hr.failed_eq, hr.tally_eq]
  · rw [hsummary, create_eq]
    unfold RunSummary.of
    rw [any_failed_reordered h, totals_reordered h]
  · rw [(overall_tells hsink t rs' s).sink, show overall = _ from (overall_tells hsink t rs s).sink,
      overallLines_reordered h]

/-- A run of an empty suite and of one with a failure among its verdicts. -/
def partlyFailed : List SuiteReport :=
  [⟨"Empty", []⟩,
    ⟨"Other", [⟨"Section", "check", [.pass "good", .fail "bad"]⟩, ⟨"Section", "none", []⟩]⟩]

theorem failure_agrees_partlyFailed :
    (Host.still : Host Unit).TakesAll ∧
    ((RunSummary.create 0 partlyFailed).run .still ()).1.status = "fail" := by
  have hverdict : ∃ r ∈ partlyFailed, ∃ e ∈ r.scenarios, ∃ v ∈ e.verdicts, v.outcome = .fail := by
    decide
  have hagree := failure_agrees Host.still_takesAll .start 0 () partlyFailed
  exact ⟨Host.still_takesAll, (hagree.1.out 0 4).mp hverdict⟩

end SmokeBench
