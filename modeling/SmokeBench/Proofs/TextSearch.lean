import Mathlib.Data.List.Infix
import SmokeBench.Text.Search

/-! Finding a token and replacing it. What is looked for is found exactly where it stands, so a text
without the token is left as it is. Replacing goes on behind each occurrence, and what was put in
its place is not looked at again. -/

namespace SmokeBench.Text

variable {token replacement done : List Char}

theorem containsChars_iff {needle text : List Char} :
    containsChars needle text ↔ needle <:+: text := by
  induction text with
  | nil => simp [containsChars]
  | cons c rest ih =>
    rw [containsChars, Bool.or_eq_true, List.isPrefixOf_iff_prefix, ih, List.infix_cons_iff]

theorem contains_iff {text needle : String} :
    contains text needle ↔ needle.toList <:+: text.toList := containsChars_iff

theorem replaceFrom_skip (passed rest : List Char) :
    replaceFrom token replacement passed.length done (passed ++ rest) =
      replaceFrom token replacement 0 done rest := by
  induction passed with
  | nil => rfl
  | cons c passed ih => exact ih

theorem replaceFrom_token (h : token ≠ []) (rest : List Char) :
    replaceFrom token replacement 0 done (token ++ rest) =
      replaceFrom token replacement 0 (replacement.reverse ++ done) rest := by
  cases token with
  | nil => exact absurd rfl h
  | cons c token =>
    have hfound : (c :: token).isPrefixOf (c :: (token ++ rest)) = true :=
      List.isPrefixOf_iff_prefix.mpr (List.prefix_append (c :: token) rest)
    rw [List.cons_append, replaceFrom]
    simp only [hfound, if_true]
    exact replaceFrom_skip token rest

theorem replaceFrom_of_not_infix {text : List Char} (h : ¬ token <:+: text) :
    replaceFrom token replacement 0 done text = done.reverse ++ text := by
  induction text generalizing done with
  | nil => simp [replaceFrom]
  | cons c rest ih =>
    rw [List.infix_cons_iff, not_or] at h
    have hnot : token.isPrefixOf (c :: rest) = false := by
      rw [← Bool.not_eq_true, List.isPrefixOf_iff_prefix]
      exact h.1
    rw [replaceFrom]
    simp only [hnot, Bool.false_eq_true, if_false]
    rw [ih h.2, List.reverse_cons, List.append_assoc, List.singleton_append]

theorem replaceFrom_copies {c : Char} {before : List Char} (h : c ∉ before) (rest : List Char) :
    replaceFrom (c :: token) replacement 0 done (before ++ rest) =
      replaceFrom (c :: token) replacement 0 (before.reverse ++ done) rest := by
  induction before generalizing done with
  | nil => rfl
  | cons d before ih =>
    obtain ⟨hd, hbefore⟩ := not_or.mp (mt List.mem_cons.mpr h)
    have hnot : (c :: token).isPrefixOf (d :: (before ++ rest)) = false := by
      simp [List.isPrefixOf, hd]
    rw [List.cons_append, replaceFrom]
    simp only [hnot, Bool.false_eq_true, if_false]
    rw [ih hbefore, List.reverse_cons, List.append_assoc, List.singleton_append]

theorem replaceToken_of_not_contains {token replacement text : String}
    (h : ¬ contains text token) : replaceToken token replacement text = text := by
  rw [contains_iff] at h
  rw [replaceToken, replaceFrom_of_not_infix h]
  simp

theorem replaceToken_once {token replacement before after : String} {c : Char} {rest : List Char}
    (htoken : token.toList = c :: rest) (hbefore : c ∉ before.toList) (hafter : c ∉ after.toList) :
    replaceToken token replacement (before ++ token ++ after) = before ++ replacement ++ after := by
  have hnot : ¬ c :: rest <:+: after.toList := fun h => hafter (h.subset List.mem_cons_self)
  rw [replaceToken, htoken, String.toList_append, String.toList_append, htoken, List.append_assoc,
    replaceFrom_copies hbefore, replaceFrom_token (List.cons_ne_nil _ _),
    replaceFrom_of_not_infix hnot]
  apply String.toList_injective
  simp

end SmokeBench.Text
