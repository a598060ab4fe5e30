import Mathlib.Data.List.TakeWhile
import SmokeBench.RunResult

/-! What trimming leaves of a text: the part between two runs of blanks that has no blank at an end.
There is only one such part, so it can be told without the order in which the ends are cut. A first
line is shown without the blanks at its end, and so without the end of the line itself. -/

namespace SmokeBench

namespace Text

variable {cs kept : List Char}

def AllBlank (cs : List Char) : Prop := ∀ c ∈ cs, isBlank c = true

-- by the list, since there is an instance too that goes through all characters
instance (cs : List Char) : Decidable (AllBlank cs) :=
  decidable_of_iff (cs.all isBlank = true) List.all_eq_true

theorem dropWhile_isBlank_iff : cs.dropWhile isBlank = kept ↔
    (∃ before, cs = before ++ kept ∧ AllBlank before) ∧ ∀ c ∈ kept.head?, isBlank c = false := by
  constructor
  · rintro rfl
    refine ⟨⟨cs.takeWhile isBlank, List.takeWhile_append_dropWhile.symm,
      fun c hc => List.mem_takeWhile_imp hc⟩, fun c hc => ?_⟩
    have hhead := List.head?_dropWhile_not isBlank cs
    rwa [Option.mem_def.mp hc] at hhead
  · rintro ⟨⟨before, rfl, hbefore⟩, hhead⟩
    rw [List.dropWhile_append_of_pos hbefore]
    cases kept with
    | nil => rfl
    | cons c rest => rw [List.dropWhile_cons, hhead c rfl, if_neg Bool.false_ne_true]

/-- What is left when the blanks at the end of a text are cut off. -/
structure CutEnd (cs kept : List Char) : Prop where
  cut : ∃ after, cs = kept ++ after ∧ AllBlank after
  last : ∀ c ∈ kept.getLast?, isBlank c = false

theorem trimEndChars_eq_iff : trimEndChars cs = kept ↔ CutEnd cs kept := by
  rw [trimEndChars, List.reverse_eq_iff, dropWhile_isBlank_iff, List.head?_reverse]
  constructor
  · rintro ⟨⟨after, hcut, hafter⟩, hlast⟩
    refine ⟨⟨after.reverse, ?_, fun c hc => hafter c (List.mem_reverse.mp hc)⟩, hlast⟩
    rw [← List.reverse_reverse cs, hcut, List.reverse_append, List.reverse_reverse]
  · rintro ⟨⟨after, rfl, hafter⟩, hlast⟩
    exact ⟨⟨after.reverse, List.reverse_append, fun c hc => hafter c (List.mem_reverse.mp hc)⟩,
      hlast⟩

theorem trimEndChars_append_blank {after : List Char} (h : AllBlank after) :
    trimEndChars (cs ++ after) = trimEndChars cs := by
  obtain ⟨⟨blanks, hcut, hblanks⟩, hlast⟩ := trimEndChars_eq_iff.mp (rfl : trimEndChars cs = _)
  refine trimEndChars_eq_iff.mpr ⟨⟨blanks ++ after, ?_, ?_⟩, hlast⟩
  · rw [← List.append_assoc, ← hcut]
  · exact List.forall_mem_append.mpr ⟨hblanks, h⟩

/-- What is left when the blanks at both ends of a text are cut off. -/
structure Trimmed (cs kept : List Char) : Prop where
  cut : ∃ before after, cs = before ++ kept ++ after ∧ AllBlank before ∧ AllBlank after
  first : ∀ c ∈ kept.head?, isBlank c = false
  last : ∀ c ∈ kept.getLast?, isBlank c = false

theorem trimChars_eq_iff : trimChars cs = kept ↔ Trimmed cs kept := by
  rw [trimChars, trimEndChars_eq_iff]
  constructor
  · rintro ⟨⟨after, hrest, hafter⟩, hlast⟩
    obtain ⟨⟨before, hcs, hbefore⟩, hhead⟩ := dropWhile_isBlank_iff.mp hrest
    refine ⟨⟨before, after, ?_, hbefore, hafter⟩, fun c hc => ?_, hlast⟩
    · rw [hcs, List.append_assoc]
    · apply hhead
      rw [List.head?_append, Option.mem_def.mp hc]
      rfl
  · rintro ⟨⟨before, after, rfl, hbefore, hafter⟩, hfirst, hlast⟩
    rw [List.append_assoc]
    cases kept with
    | nil =>
      -- nothing is kept, so the front blanks take the whole text with them
      have hall : AllBlank (before ++ ([] ++ after)) :=
        List.forall_mem_append.mpr ⟨hbefore, hafter⟩
      rw [List.dropWhile_eq_nil_iff.mpr hall]
      exact ⟨⟨[], rfl, nofun⟩, hlast⟩
    | cons c rest =>
      have hdrop : (before ++ (c :: rest ++ after)).dropWhile isBlank = c :: rest ++ after :=
        dropWhile_isBlank_iff.mpr ⟨⟨before, rfl, hbefore⟩, hfirst⟩
      rw [hdrop]
      exact ⟨⟨after, rfl, hafter⟩, hlast⟩

/-- The first line of a text without the blanks at its end. -/
def HeadLine (cs kept : List Char) : Prop :=
  ∃ line rest, cs = line ++ rest ∧ '\n' ∉ line ∧ (∀ c ∈ rest.head?, c = '\n') ∧
    CutEnd line kept

/-- The carriage return before a line feed is blank, so it does not matter which of the two ends the
line. -/
theorem trimEndChars_firstLineChars :
    trimEndChars (firstLineChars cs) = trimEndChars (cs.takeWhile (· != '\n')) := by
  unfold firstLineChars
  dsimp only
  split
  · rename_i h
    rw [Bool.and_eq_true, beq_iff_eq] at h
    obtain ⟨front, hfront⟩ := List.getLast?_eq_some_iff.mp h.2
    rw [hfront, List.dropLast_concat]
    exact (trimEndChars_append_blank (by decide)).symm
  · rfl

theorem takeWhile_eq_of_line {line rest : List Char} (hline : '\n' ∉ line)
    (hrest : ∀ c ∈ rest.head?, c = '\n') : (line ++ rest).takeWhile (· != '\n') = line := by
  have hkeeps : ∀ c ∈ line, (c != '\n') = true := fun c hc =>
    bne_iff_ne.mpr (ne_of_mem_of_not_mem hc hline)
  rw [List.takeWhile_append_of_pos hkeeps]
  cases rest with
  | nil => rw [List.takeWhile_nil, List.append_nil]
  | cons c rest =>
    rw [hrest c rfl, List.takeWhile_cons, if_neg (by decide), List.append_nil]

theorem headLine_iff : trimEndChars (firstLineChars cs) = kept ↔ HeadLine cs kept := by
  rw [trimEndChars_firstLineChars]
  constructor
  · intro h
    refine ⟨_, cs.dropWhile (· != '\n'), List.takeWhile_append_dropWhile.symm, fun hmem => ?_,
      fun c hc => ?_, trimEndChars_eq_iff.mp h⟩
    · exact absurd (List.mem_takeWhile_imp hmem) (by decide)
    · have hhead := List.head?_dropWhile_not (· != '\n') cs
      rw [Option.mem_def.mp hc] at hhead
      simpa using hhead
  · rintro ⟨line, rest, rfl, hline, hrest, hcut⟩
    rw [takeWhile_eq_of_line hline hrest]
    exact trimEndChars_eq_iff.mpr hcut

theorem blank_iff {s : String} : blank s = true ↔ AllBlank s.toList := List.all_eq_true

end Text

end SmokeBench
