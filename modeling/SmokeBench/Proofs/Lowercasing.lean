import Mathlib.Data.List.Infix
import SmokeBench.Check
import SmokeBench.Proofs.TextSearch

/-! What lowercasing does to a part of a text. Every character is lowered by itself but the capital
sigma, whose form depends on the letters around it. So a part is lowered inside a text as it is
lowered alone, unless one of its sigmas looks over its edge. A search that lowers text and needle
apart misses such a needle in some text that holds it. -/

namespace SmokeBench

namespace Text

/-- Whether the first character that counts for a sigma is cased; none if no character counts. -/
def edge (cs : List Char) : Option Bool := (cs.find? (!isCaseIgnorable ·)).map isCased

theorem edge_append (xs ys : List Char) : edge (xs ++ ys) = (edge xs).or (edge ys) := by
  rw [edge, List.find?_append, Option.map_or]
  rfl

theorem meetsCased_eq (cs : List Char) : meetsCased cs = (edge cs == some true) := by
  induction cs with
  | nil => rfl
  | cons c rest ih =>
    rw [meetsCased, edge, List.dropWhile_cons, List.find?_cons]
    cases hc : isCaseIgnorable c with
    | true => exact ih
    | false => cases hcased : isCased c <;> simp [hcased]

theorem lowerSigma_eq (before after : List Char) :
    lowerSigma before after =
      if edge before = some true ∧ edge after ≠ some true then 'ς' else 'σ' := by
  rw [lowerSigma, meetsCased_eq, meetsCased_eq]
  simp

theorem lowerSigma_final_iff {before after : List Char} :
    lowerSigma before after = 'ς' ↔ edge before = some true ∧ edge after ≠ some true := by
  rw [lowerSigma_eq]
  split
  · rename_i h
    exact iff_of_true rfl h
  · rename_i h
    exact iff_of_false (by decide) h

theorem lowerSigma_inner_iff {before after : List Char} :
    lowerSigma before after = 'σ' ↔ ¬ (edge before = some true ∧ edge after ≠ some true) := by
  rw [lowerSigma_eq]
  split
  · rename_i h
    exact iff_of_false (by decide) (not_not.mpr h)
  · rename_i h
    exact iff_of_true rfl h

/-- A part of a text in lowercase; `before` is what stands in front of it, the nearest first. -/
def lowered (before : List Char) : (cs after : List Char) → List Char
  | [], _ => []
  | c :: rest, after =>
    (if c = 'Σ' then [lowerSigma before (rest ++ after)] else lowerChar c) ++
      lowered (c :: before) rest after

theorem lowerFrom_eq (before done cs : List Char) :
    lowerFrom before done cs = done.reverse ++ lowered before cs [] := by
  induction cs generalizing before done with
  | nil => simp [lowerFrom, lowered]
  | cons c rest ih =>
    rw [lowerFrom, ih, lowered, List.append_nil]
    split <;> simp

theorem lowercase_toList (s : String) : (lowercase s).toList = lowered [] s.toList [] := by
  rw [lowercase, lowerFrom_eq]
  simp

theorem lowered_append (before xs ys after : List Char) :
    lowered before (xs ++ ys) after =
      lowered before xs (ys ++ after) ++ lowered (xs.reverse ++ before) ys after := by
  induction xs generalizing before with
  | nil => rfl
  | cons c xs ih =>
    rw [List.cons_append, lowered, ih, lowered, List.reverse_cons]
    simp only [List.append_assoc, List.singleton_append]

/-- A sigma between these characters has its form whatever stands farther away: one side decides
alone, or both are known. -/
def sigmaSettled (before after : List Char) : Bool :=
  edge before == some false || edge after == some true ||
    ((edge before).isSome && (edge after).isSome)

/-- Every capital sigma in a text that goes on after `before` is settled. -/
def settledFrom (before : List Char) : List Char → Bool
  | [] => true
  | c :: rest => (c != 'Σ' || sigmaSettled before rest) && settledFrom (c :: before) rest

def settled (s : String) : Bool := settledFrom [] s.toList

theorem lowerSigma_of_settled {before after : List Char} (h : sigmaSettled before after)
    (xs ys : List Char) : lowerSigma (before ++ xs) (after ++ ys) = lowerSigma before after := by
  rw [lowerSigma_eq, lowerSigma_eq, edge_append, edge_append]
  unfold sigmaSettled at h
  rcases hb : edge before with _ | b <;> rcases ha : edge after with _ | a
  · simp [hb, ha] at h
  · cases a
    · simp [hb, ha] at h
    · simp
  · cases b
    · simp
    · simp [hb, ha] at h
  · simp

theorem lowered_of_settled {before cs : List Char} (h : settledFrom before cs) (xs ys : List Char) :
    lowered (before ++ xs) cs ys = lowered before cs [] := by
  induction cs generalizing before with
  | nil => rfl
  | cons c rest ih =>
    rw [settledFrom, Bool.and_eq_true] at h
    obtain ⟨hc, hrest⟩ := h
    rw [lowered, lowered, List.append_nil, ← List.cons_append, ih hrest]
    congr 1
    split
    · rename_i hsigma
      have hsettled : sigmaSettled before rest := by simpa [hsigma] using hc
      rw [lowerSigma_of_settled hsettled]
    · rfl

/-- A text that is not settled has a sigma that leaves one side open and is not decided by the
other. -/
theorem exists_open_sigma {before cs : List Char} (h : settledFrom before cs = false) :
    ∃ xs ys, cs = xs ++ 'Σ' :: ys ∧
      ((edge (xs.reverse ++ before) = some true ∧ edge ys = none) ∨
        (edge (xs.reverse ++ before) = none ∧ edge ys ≠ some true)) := by
  induction cs generalizing before with
  | nil => cases h
  | cons c rest ih =>
    rw [settledFrom, Bool.and_eq_false_iff] at h
    rcases h with hc | hrest
    · obtain ⟨rfl, hopen⟩ : c = 'Σ' ∧ sigmaSettled before rest = false := by simpa using hc
      refine ⟨[], rest, rfl, ?_⟩
      unfold sigmaSettled at hopen
      rcases hb : edge before with _ | b <;> rcases ha : edge rest with _ | a <;>
        simp_all
    · obtain ⟨xs, ys, rfl, hopen⟩ := ih hrest
      exact ⟨c :: xs, ys, rfl, by simpa using hopen⟩

/-- If a form of the sigma can only be lost by a change of what stands around, then a part of the
text has it no more often afterwards. -/
theorem count_lowered_le {form : Char} {before before' after after' : List Char}
    (h : ∀ xs ys, lowerSigma (xs ++ before') (ys ++ after') = form →
      lowerSigma (xs ++ before) (ys ++ after) = form) (cs : List Char) :
    (lowered before' cs after').count form ≤ (lowered before cs after).count form := by
  induction cs generalizing before before' with
  | nil => exact Nat.le_refl _
  | cons c rest ih =>
    have hrest : (lowered (c :: before') rest after').count form ≤
        (lowered (c :: before) rest after).count form := ih fun xs ys hlost => by
      have hlater := h (xs ++ [c]) ys
      simp only [List.append_assoc, List.singleton_append] at hlater
      exact hlater hlost
    have hfirst := h [] rest
    rw [lowered, lowered, List.count_append, List.count_append]
    refine Nat.add_le_add ?_ hrest
    split
    · rw [List.count_singleton, List.count_singleton]
      split
      · rename_i hform
        have hkept := hfirst (by simpa using hform)
        simp [show lowerSigma before (rest ++ after) = form from hkept]
      · exact Nat.zero_le _
    · exact Nat.le_refl _

theorem count_lowered_lt {form : Char} {before before' after after' : List Char}
    (h : ∀ xs ys, lowerSigma (xs ++ before') (ys ++ after') = form →
      lowerSigma (xs ++ before) (ys ++ after) = form) {xs ys : List Char}
    (hhad : lowerSigma (xs.reverse ++ before) (ys ++ after) = form)
    (hlost : lowerSigma (xs.reverse ++ before') (ys ++ after') ≠ form) :
    (lowered before' (xs ++ 'Σ' :: ys) after').count form <
      (lowered before (xs ++ 'Σ' :: ys) after).count form := by
  have hfront : (lowered before' xs ('Σ' :: ys ++ after')).count form ≤
      (lowered before xs ('Σ' :: ys ++ after)).count form :=
    count_lowered_le (fun us vs hform => by
      have hkept := h us (vs ++ 'Σ' :: ys)
      rw [List.append_assoc, List.append_assoc] at hkept
      exact hkept hform) xs
  have hback : (lowered ('Σ' :: (xs.reverse ++ before')) ys after').count form ≤
      (lowered ('Σ' :: (xs.reverse ++ before)) ys after).count form :=
    count_lowered_le (fun us vs hform => by
      have hkept := h (us ++ 'Σ' :: xs.reverse) vs
      simp only [List.append_assoc, List.cons_append] at hkept
      exact hkept hform) ys
  simp only [lowered_append, lowered, if_true, List.count_append, List.count_singleton, hhad,
    beq_self_eq_true, beq_eq_false_iff_ne.mpr hlost, Bool.false_eq_true, if_false]
  omega

-- read as a list: to walk the table by position takes the kernel much longer
theorem inRuns_eq (runs : Array (Nat × Nat)) (c : Char) :
    inRuns runs c = runs.toList.any fun r => r.1 ≤ c.toNat && c.toNat ≤ r.2 := by
  rw [inRuns, Array.any_toList]

theorem edge_singleton {c : Char} (hcounts : isCaseIgnorable c = false) (hcased : isCased c = true) :
    edge [c] = some true := by
  simp [edge, hcounts, hcased]

/-- A letter that counts for every sigma. -/
def letter : Char := 'a'

theorem edge_letter : edge [letter] = some true := by
  apply edge_singleton
  · rw [isCaseIgnorable, inRuns_eq]
    decide +kernel
  · rw [isCased, inRuns_eq]
    decide +kernel

theorem lowered_letter (before after : List Char) : lowered before [letter] after = [letter] := by
  rw [lowered, lowered, if_neg (by decide)]
  decide +kernel

/-- An open sigma changes its form when a letter is put beside the text, and the text in lowercase is
then found no more. -/
theorem exists_lost {cs : List Char} (h : settledFrom [] cs = false) :
    ∃ xs ys, ¬ lowered [] cs [] <:+: lowered [] (xs ++ cs ++ ys) [] := by
  have hless {xs ys : List Char} (form : Char)
      (hletters : (lowered [] xs (cs ++ ys)).count form = 0 ∧
        (lowered (cs.reverse ++ xs.reverse) ys []).count form = 0)
      (hlt : (lowered xs.reverse cs ys).count form < (lowered [] cs []).count form) :
      ¬ lowered [] cs [] <:+: lowered [] (xs ++ cs ++ ys) [] := by
    intro hinfix
    have hle := hinfix.sublist.count_le form
    rw [List.append_assoc, lowered_append, lowered_append, List.count_append, List.count_append,
      List.append_nil, List.append_nil, List.append_nil, hletters.1, hletters.2] at hle
    omega
  obtain ⟨us, vs, rfl, hopen⟩ := exists_open_sigma h
  rw [List.append_nil] at hopen
  rcases hopen with ⟨hcased, hnone⟩ | ⟨hnone, hend⟩
  · -- the final form is lost when a letter follows
    refine ⟨[], [letter], hless 'ς' ⟨rfl, ?_⟩ (count_lowered_lt (fun xs ys hform => ?_) ?_ ?_)⟩
    · rw [lowered_letter]
      decide
    · rw [lowerSigma_final_iff, edge_append ys, edge_letter] at hform
      rw [lowerSigma_final_iff, List.append_nil ys]
      refine ⟨hform.1, fun hcased' => hform.2 ?_⟩
      rw [hcased']
      rfl
    · rw [List.append_nil, List.append_nil, lowerSigma_final_iff]
      exact ⟨hcased, by simp [hnone]⟩
    · rw [Ne, lowerSigma_final_iff, edge_append vs, hnone, edge_letter]
      exact fun hform => hform.2 rfl
  · -- the inner form is lost when a letter goes before
    refine ⟨[letter], [], hless 'σ' ⟨?_, rfl⟩ (count_lowered_lt (fun xs ys hform => ?_) ?_ ?_)⟩
    · rw [lowered_letter]
      decide
    · rw [lowerSigma_inner_iff, List.reverse_singleton, edge_append xs, edge_letter] at hform
      rw [lowerSigma_inner_iff, List.append_nil xs]
      refine fun hfinal => hform ⟨?_, hfinal.2⟩
      rw [hfinal.1]
      rfl
    · rw [List.append_nil, lowerSigma_inner_iff, hnone]
      simp
    · rw [Ne, lowerSigma_inner_iff, List.reverse_singleton, edge_append us.reverse, hnone,
        edge_letter, List.append_nil]
      exact not_not.mpr ⟨rfl, hend⟩

/-- A text is found in lowercase wherever it was found as it is, exactly if its sigmas are settled. -/
theorem contains_lowercase_iff (needle : String) :
    (∀ text, contains text needle → contains (lowercase text) (lowercase needle)) ↔
      settled needle := by
  constructor
  · intro h
    by_contra hnot
    obtain ⟨xs, ys, hlost⟩ := exists_lost (Bool.eq_false_iff.mpr hnot)
    have hfound := h (String.ofList (xs ++ needle.toList ++ ys)) (by
      rw [contains_iff, String.toList_ofList]
      exact List.infix_append _ _ _)
    rw [contains_iff, lowercase_toList, lowercase_toList, String.toList_ofList] at hfound
    exact hlost hfound
  · intro h text hfound
    rw [contains_iff] at hfound ⊢
    obtain ⟨xs, ys, heq⟩ := hfound
    have hsame : lowered xs.reverse needle.toList ys = lowered [] needle.toList [] :=
      lowered_of_settled h xs.reverse ys
    rw [lowercase_toList, lowercase_toList, ← heq, List.append_assoc, lowered_append,
      lowered_append, List.append_nil, List.append_nil, List.append_nil, hsame]
    exact ⟨_, _, List.append_assoc _ _ _⟩

theorem edge_alpha : edge ['Α'] = some true := by
  apply edge_singleton
  · rw [isCaseIgnorable, inRuns_eq]
    decide +kernel
  · rw [isCased, inRuns_eq]
    decide +kernel

theorem lowerChar_alpha : lowerChar 'Α' = ['α'] := by decide +kernel

theorem lowercase_final : lowercase "ΑΣ" = "ας" := by
  have hsigma : lowerSigma ['Α'] [] = 'ς' := by
    rw [lowerSigma_final_iff, edge_alpha]
    decide
  rw [← String.toList_inj, lowercase_toList]
  simp [lowered, lowerChar_alpha, hsigma]

theorem lowercase_inner : lowercase "ΑΣΑ" = "ασα" := by
  have hsigma : lowerSigma ['Α'] ['Α'] = 'σ' := by
    rw [lowerSigma_inner_iff, edge_alpha]
    decide
  rw [← String.toList_inj, lowercase_toList]
  simp [lowered, lowerChar_alpha, hsigma]

end Text

def RunResult.telling (stream : Stream) (text : String) : RunResult where
  exitCode := some 0
  signal := none
  stdout := if stream = .stderr then "" else text
  stderr := if stream = .stderr then text else ""
  elapsed := .zero
  timedOut := false
  escalated := false

theorem RunResult.text_telling (stream : Stream) (text : String) :
    (telling stream text).text stream = text := by
  cases stream with
  | stdout => rfl
  | stderr => rfl
  | combined => exact String.append_empty

namespace Check

theorem outputContains_passed (r : RunResult) (needle : String) (stream : Stream)
    (mode : CaseMode) :
    (outputContains r needle stream mode).passed = found (r.text stream) needle mode := by
  rw [outputContains]
  split
  · rename_i h
    rw [h]
    rfl
  · rename_i h
    rw [Bool.eq_false_iff.mpr h]
    rfl

/-- The search that does not mind the case finds what the exact search finds, in every run, exactly
if the needle is settled. -/
theorem insensitive_permits_iff (needle : String) (stream : Stream) :
    (∀ r : RunResult, (outputContains r needle stream .sensitive).passed →
      (outputContains r needle stream .insensitive).passed) ↔ Text.settled needle := by
  simp only [outputContains_passed, found, ← Text.contains_lowercase_iff]
  constructor
  · intro h text hfound
    have hrun := h (.telling stream text)
    rw [RunResult.text_telling] at hrun
    exact hrun hfound
  · intro h r
    exact h (r.text stream)

/-- A sigma at the end of the needle that stands inside a word of the output. -/
theorem final_sigma_missed :
    let r := RunResult.telling .stdout "ΑΣΑ"
    outputContains r "ΑΣ" .stdout .sensitive = .pass "stdout contains \"ΑΣ\"" ∧
    outputContains r "ΑΣ" .stdout .insensitive = .fail "stdout does not contain \"ΑΣ\"" := by
  intro r
  have hmissed : found "ΑΣΑ" "ΑΣ" .insensitive = false := by
    rw [found, Text.lowercase_final, Text.lowercase_inner]
    decide
  constructor
  · decide +kernel
  · rw [outputContains, show r.text .stdout = "ΑΣΑ" from rfl, hmissed]
    decide +kernel

example : Text.settled "LitecoinCash version" = true := by decide +kernel

end Check

end SmokeBench
