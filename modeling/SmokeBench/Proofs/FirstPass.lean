import Mathlib.Data.List.Basic
import SmokeBench.Verdict

/-! One verdict of several. The first pass is taken as it is; without one all messages are told in
order, and a failure outweighs the rest. So it does not matter whether the verdicts are put together
at once or group by group, nor whether failures are made inconclusive before or after. -/

namespace SmokeBench.Verdict

variable {vs : List Verdict}

theorem anyPass_of_find? {v : Verdict} (h : vs.find? passed = some v) : anyPass vs = v := by
  rw [anyPass, h]

theorem anyPass_of_misses (hne : vs ≠ []) (h : vs.find? passed = none) :
    anyPass vs = joinMisses vs := by
  rw [anyPass, h, if_neg (by simpa using hne)]

theorem find?_eq_none_of_ne_pass (h : ∀ v ∈ vs, v.outcome ≠ .pass) : vs.find? passed = none := by
  rw [List.find?_eq_none]
  intro v hv hpassed
  exact h v hv (beq_iff_eq.mp hpassed)

theorem find?_first {before : List Verdict} {v : Verdict} (h : ∀ w ∈ before, w.outcome ≠ .pass)
    (hv : v.outcome = .pass) (after : List Verdict) :
    (before ++ v :: after).find? passed = some v := by
  have hpassed : v.passed = true := beq_iff_eq.mpr hv
  rw [List.find?_append, find?_eq_none_of_ne_pass h, List.find?_cons, hpassed]
  rfl

theorem joinMisses_eq (vs : List Verdict) :
    joinMisses vs = ⟨if ∃ v ∈ vs, v.outcome = .fail then .fail else .info,
      String.intercalate "; " (vs.map (·.message))⟩ := by
  unfold joinMisses
  congr 1
  refine if_congr ?_ rfl rfl
  rw [List.any_eq_true]
  exact exists_congr fun v => and_congr_right fun _ => beq_iff_eq

theorem joinMisses_not_passed (vs : List Verdict) : (joinMisses vs).passed = false := by
  unfold joinMisses passed
  split <;> rfl

section Groups

variable {groups : List (List Verdict)}

/-- A group that has a pass gives its first one, and any other group gives none. -/
theorem find?_map_anyPass (groups : List (List Verdict)) :
    (groups.map anyPass).find? passed = groups.flatten.find? passed := by
  induction groups with
  | nil => rfl
  | cons g rest ih =>
    rw [List.map_cons, List.flatten_cons, List.find?_append, List.find?_cons, ih]
    cases hfirst : g.find? passed with
    | some v =>
      rw [anyPass_of_find? hfirst, List.find?_some hfirst]
      rfl
    | none =>
      have hnot : (anyPass g).passed = false := by
        by_cases hne : g = []
        · rw [hne]
          rfl
        · rw [anyPass_of_misses hne hfirst]
          exact joinMisses_not_passed g
      rw [hnot]
      rfl

theorem intercalate_flatten (sep : String) {texts : List (List String)} (h : ∀ g ∈ texts, g ≠ []) :
    sep.intercalate (texts.map sep.intercalate) = sep.intercalate texts.flatten := by
  induction texts with
  | nil => rfl
  | cons g rest ih =>
    obtain ⟨hg, hrest⟩ := List.forall_mem_cons.mp h
    rw [List.map_cons, List.flatten_cons]
    by_cases hnil : rest = []
    · rw [hnil, List.map_nil, List.flatten_nil, List.append_nil, String.intercalate_singleton]
    · have hflat : rest.flatten ≠ [] := by
        obtain ⟨g', more, rfl⟩ := List.exists_cons_of_ne_nil hnil
        rw [List.flatten_cons]
        exact List.append_ne_nil_of_left_ne_nil (hrest g' List.mem_cons_self) _
      rw [String.intercalate_cons_of_ne_nil (by simpa using hnil), ih hrest,
        String.intercalate_append_of_ne_nil hg hflat]

theorem joinMisses_flatten (h : ∀ g ∈ groups, g ≠ []) :
    joinMisses (groups.map joinMisses) = joinMisses groups.flatten := by
  have hmessages : (groups.map joinMisses).map (·.message) =
      (groups.map (List.map (·.message))).map (String.intercalate "; ") := by
    rw [List.map_map, List.map_map]
    rfl
  have houtcome (g : List Verdict) :
      (joinMisses g).outcome.isFailure = g.any (·.outcome.isFailure) := by
    unfold joinMisses
    cases g.any (·.outcome.isFailure) <;> rfl
  have hany : (groups.map joinMisses).any (·.outcome.isFailure) =
      groups.flatten.any (·.outcome.isFailure) := by
    rw [List.any_map, List.any_flatten]
    exact congrArg groups.any (funext houtcome)
  rw [joinMisses, hany, hmessages, intercalate_flatten, ← List.map_flatten]
  · rfl
  · rw [List.forall_mem_map]
    exact fun g hg hnil => h g hg (List.map_eq_nil_iff.mp hnil)

theorem anyPass_flatten (h : ∀ g ∈ groups, g ≠ []) :
    anyPass (groups.map anyPass) = anyPass groups.flatten := by
  have hfind := find?_map_anyPass groups
  cases hfirst : groups.flatten.find? passed with
  | some v => rw [anyPass_of_find? hfirst, anyPass_of_find? (hfind.trans hfirst)]
  | none =>
    by_cases hnil : groups = []
    · rw [hnil]
      rfl
    · have hflat : groups.flatten ≠ [] := by
        obtain ⟨g, rest, rfl⟩ := List.exists_cons_of_ne_nil hnil
        rw [List.flatten_cons]
        exact List.append_ne_nil_of_left_ne_nil (h g List.mem_cons_self) _
      have hmisses : groups.map anyPass = groups.map joinMisses := by
        refine List.map_congr_left fun g hg => anyPass_of_misses (h g hg) ?_
        rw [List.find?_eq_none] at hfirst ⊢
        exact fun v hv => hfirst v (List.mem_flatten_of_mem hg hv)
      rw [anyPass_of_misses (by simpa using hnil) (hfind.trans hfirst), hmisses,
        joinMisses_flatten h, anyPass_of_misses hflat hfirst]

end Groups

section Inconclusive

variable {v : Verdict}

theorem passed_inconclusive (v : Verdict) : v.inconclusive.passed = v.passed := by
  unfold inconclusive passed
  split
  · rename_i hfail
    rw [hfail]
    rfl
  · rfl

theorem inconclusive_of_passed (h : v.passed = true) : v.inconclusive = v := by
  rw [inconclusive, if_neg]
  rw [beq_iff_eq.mp h]
  decide

theorem outcome_inconclusive_ne_fail (v : Verdict) : v.inconclusive.outcome ≠ .fail := by
  unfold inconclusive
  split
  · exact nofun
  · assumption

theorem message_inconclusive (v : Verdict) : v.inconclusive.message = v.message := by
  unfold inconclusive
  split <;> rfl

theorem find?_map_inconclusive (vs : List Verdict) :
    (vs.map inconclusive).find? passed = vs.find? passed := by
  have hsame : passed ∘ inconclusive = passed := funext passed_inconclusive
  rw [List.find?_map, hsame]
  cases hfirst : vs.find? passed with
  | some v => rw [Option.map_some, inconclusive_of_passed (List.find?_some hfirst)]
  | none => rfl

theorem joinMisses_map_inconclusive (vs : List Verdict) :
    joinMisses (vs.map inconclusive) = (joinMisses vs).inconclusive := by
  have hmessages : (vs.map inconclusive).map (·.message) = vs.map (·.message) := by
    rw [List.map_map]
    exact List.map_congr_left fun v _ => message_inconclusive v
  have hnone : ¬ ∃ v ∈ vs.map inconclusive, v.outcome = .fail := by
    rintro ⟨v, hv, hfail⟩
    obtain ⟨w, -, rfl⟩ := List.mem_map.mp hv
    exact outcome_inconclusive_ne_fail w hfail
  rw [joinMisses_eq, joinMisses_eq, if_neg hnone, hmessages, inconclusive]
  split <;> rfl

theorem anyPass_map_inconclusive (vs : List Verdict) :
    anyPass (vs.map inconclusive) = (anyPass vs).inconclusive := by
  have hfind := find?_map_inconclusive vs
  cases hfirst : vs.find? passed with
  | some v =>
    rw [anyPass_of_find? hfirst, anyPass_of_find? (hfind.trans hfirst),
      inconclusive_of_passed (List.find?_some hfirst)]
  | none =>
    by_cases hnil : vs = []
    · rw [hnil]
      rfl
    · rw [anyPass_of_misses hnil hfirst, anyPass_of_misses (by simpa using hnil)
        (hfind.trans hfirst), joinMisses_map_inconclusive]

end Inconclusive

/-- Several verdicts come to the first pass, or else to all messages in order, as a failure if one of
them is and as information if none is. Groups that are put together first come to the same, and so
do verdicts that are made inconclusive first. -/
theorem anyPass_composes :
    (∀ (before : List Verdict) (v : Verdict) (after : List Verdict),
      (∀ w ∈ before, w.outcome ≠ .pass) → v.outcome = .pass → anyPass (before ++ v :: after) = v) ∧
    (∀ vs : List Verdict, vs ≠ [] → (∀ v ∈ vs, v.outcome ≠ .pass) →
      anyPass vs = ⟨if ∃ v ∈ vs, v.outcome = .fail then .fail else .info,
        String.intercalate "; " (vs.map (·.message))⟩) ∧
    (anyPass []).outcome = .info ∧
    (∀ groups : List (List Verdict), (∀ g ∈ groups, g ≠ []) →
      anyPass (groups.map anyPass) = anyPass groups.flatten) ∧
    ∀ vs : List Verdict, anyPass (vs.map inconclusive) = (anyPass vs).inconclusive := by
  refine ⟨fun before v after hbefore hv => anyPass_of_find? (find?_first hbefore hv after),
    fun vs hne hmisses => ?_, rfl, fun groups => anyPass_flatten, anyPass_map_inconclusive⟩
  rw [anyPass_of_misses hne (find?_eq_none_of_ne_pass hmisses), joinMisses_eq]

/-- Groups with every outcome, the second with two passes. -/
def mixedGroups : List (List Verdict) :=
  [[.skip "absent", .fail "late"], [.info "unknown", .pass "first", .pass "second"], [.fail "bad"]]

theorem anyPass_composes_mixed :
    ((∀ w ∈ [skip "absent", fail "late", info "unknown"], w.outcome ≠ .pass) ∧
      anyPass mixedGroups.flatten = .pass "first") ∧
    ((∀ v ∈ [skip "absent", fail "late"], v.outcome ≠ .pass) ∧
      anyPass [skip "absent", fail "late"] = .fail "absent; late") ∧
    (∀ g ∈ mixedGroups, g ≠ []) ∧
    anyPass (mixedGroups.map anyPass) = anyPass mixedGroups.flatten := by
  obtain ⟨hfirst, hmisses, -, hgroups, -⟩ := anyPass_composes
  have hbefore : ∀ w ∈ [skip "absent", fail "late", info "unknown"], w.outcome ≠ .pass := by decide
  have hlate : ∀ v ∈ [skip "absent", fail "late"], v.outcome ≠ .pass := by decide
  have hne : ∀ g ∈ mixedGroups, g ≠ [] := by decide
  exact ⟨⟨hbefore, hfirst _ (.pass "first") [.pass "second", .fail "bad"] hbefore rfl⟩,
    ⟨hlate, hmisses _ (by decide) hlate⟩, hne, hgroups mixedGroups hne⟩

end SmokeBench.Verdict
