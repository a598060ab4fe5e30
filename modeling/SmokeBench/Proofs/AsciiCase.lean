import SmokeBench.Proofs.Decoding
import SmokeBench.Proofs.Lowercasing

/-! A word of ASCII letters looked for in a text in lowercase. Lowercasing goes over all of Unicode,
but only two characters that are not ASCII have ASCII in what they become: the Kelvin sign becomes a
`k`, and the dotted capital `İ` an `i` with the dot behind it as a character of its own. So a word
without a `k` that does not end in an `i` is found exactly where its own letters stand. -/

namespace SmokeBench

namespace Text

def Ascii (c : Char) : Prop := c.toNat < 0x80

instance (c : Char) : Decidable (Ascii c) := inferInstanceAs (Decidable (_ < _))

theorem ascii_forall {p : Char → Prop} (h : ∀ n < 0x80, p (Char.ofNat n)) {c : Char}
    (hc : Ascii c) : p c := Char.ofNat_toNat c ▸ h c.toNat hc

theorem lowerSimple_ascii {c : Char} (h : Ascii c) : lowerSimple c = c.toLower :=
  ascii_forall (p := fun c => lowerSimple c = c.toLower) (by decide +kernel) h

/-- A run of the table either begins and ends in ASCII, or is the Kelvin sign, or leads to
characters that are not ASCII. -/
def keepsApart (r : Nat × Nat × Nat × Int) : Bool :=
  r.2.1 < 0x80 || (r.1 == 0x212A && r.2.1 == 0x212A) ||
    (0x80 ≤ r.1 + r.2.2.2 &&
      (r.2.1 + r.2.2.2 < 0xD800 || (0xDFFF < r.1 + r.2.2.2 && r.2.1 + r.2.2.2 < 0x110000)))

theorem lowerRuns_keepApart : ∀ r ∈ lowerRuns.toList, keepsApart r := by decide +kernel

theorem lowerSimple_beyond {c : Char} (h : ¬ Ascii c) (hkelvin : c ≠ '\u212A') :
    ¬ Ascii (lowerSimple c) := by
  unfold Ascii at h ⊢
  have hother : c.toNat ≠ 0x212A := fun heq => hkelvin (Char.toNat_inj.mp heq)
  rw [lowerSimple, if_neg h]
  split
  · rename_i r hfound
    have hrun : r ∈ lowerRuns.toList := (Array.mem_of_find?_eq_some hfound).val
    have hapart := lowerRuns_keepApart r hrun
    have hwithin := Array.find?_some hfound
    simp only [keepsApart, Bool.or_eq_true, Bool.and_eq_true, decide_eq_true_eq,
      beq_iff_eq] at hapart
    simp only [Bool.and_eq_true, decide_eq_true_eq] at hwithin
    have hvalid : (c.toNat + r.2.2.2).toNat.isValidChar := by
      unfold Nat.isValidChar
      omega
    have hcode : (Char.ofNat (c.toNat + r.2.2.2).toNat).toNat = (c.toNat + r.2.2.2).toNat :=
      Utf8.val_ofNat hvalid
    omega
  · exact h

/-- What one character may become in lowercase. -/
inductive Lowers : Char → List Char → Prop
  | ascii {c : Char} (h : Ascii c) : Lowers c [c.toLower]
  | kelvin : Lowers '\u212A' ['k']
  | dotted : Lowers '\u0130' ['i', '\u0307']
  | beyond {c d : Char} (hc : ¬ Ascii c) (hd : ¬ Ascii d) : Lowers c [d]

theorem lowered_one (before : List Char) (c : Char) (after : List Char) :
    Lowers c (lowered before [c] after) := by
  rw [lowered, lowered, List.append_nil, List.nil_append]
  split
  · rename_i hsigma
    subst hsigma
    refine .beyond (by decide) ?_
    unfold lowerSigma
    split <;> decide
  · unfold lowerChar
    split
    · rename_i hdotted
      obtain rfl : c = '\u0130' := Char.toNat_inj.mp hdotted
      exact .dotted
    · by_cases hascii : Ascii c
      · rw [lowerSimple_ascii hascii]
        exact .ascii hascii
      · by_cases hkelvin : c = '\u212A'
        · subst hkelvin
          have hk : lowerSimple '\u212A' = 'k' := by decide +kernel
          rw [hk]
          exact .kelvin
        · exact .beyond hascii (lowerSimple_beyond hascii hkelvin)

theorem lowered_cons (before : List Char) (c : Char) (rest after : List Char) :
    ∃ image, Lowers c image ∧
      lowered before (c :: rest) after = image ++ lowered (c :: before) rest after :=
  ⟨_, lowered_one before c (rest ++ after), lowered_append before [c] rest after⟩

/-- An ASCII character that lowercase leaves as it is, and that nothing but its capital becomes. -/
structure PlainLetter (l : Char) : Prop where
  ascii : Ascii l
  lower : l.toLower = l
  ne_k : l ≠ 'k'

/-- A word that no characters but its own letters can become. -/
structure PlainWord (word : List Char) : Prop where
  letters : ∀ l ∈ word, PlainLetter l
  last : word.getLast? ≠ some 'i'

def LetterOf (c l : Char) : Prop := c = l ∨ c = l.toUpper

/-- The letters of a word one by one, each in lower or in upper case. -/
def Spelled (part word : List Char) : Prop := List.Forall₂ LetterOf part word

/-- The word stands in the text, in any mixture of lower and upper case. -/
def Spells (text word : String) : Prop :=
  ∃ part, part <:+: text.toList ∧ Spelled part word.toList

theorem PlainLetter.eq_toLower_iff {c l : Char} (hl : PlainLetter l) (hc : Ascii c) :
    l = c.toLower ↔ LetterOf c l := by
  have hback : c = c.toLower ∨ c = c.toLower.toUpper := ascii_forall
    (p := fun c => c = c.toLower ∨ c = c.toLower.toUpper) (by decide +kernel) hc
  have hforth : l.toLower = l → l.toUpper.toLower = l := ascii_forall
    (p := fun l => l.toLower = l → l.toUpper.toLower = l) (by decide +kernel) hl.ascii
  constructor
  · rintro rfl
    exact hback
  · rintro (rfl | rfl)
    · exact hl.lower.symm
    · exact (hforth hl.lower).symm

theorem PlainLetter.ascii_of {c l : Char} (hl : PlainLetter l) (h : LetterOf c l) : Ascii c := by
  rcases h with rfl | rfl
  · exact hl.ascii
  · exact ascii_forall (p := fun l => Ascii l.toUpper) (by decide +kernel) hl.ascii

theorem PlainWord.tail {l : Char} {word : List Char} (h : PlainWord (l :: word)) :
    PlainWord word where
  letters m hm := h.letters m (List.mem_cons_of_mem l hm)
  last hlast := h.last (by rw [List.getLast?_cons, hlast]; rfl)

theorem exists_spelled_cons_iff {c l : Char} {rest word : List Char} :
    (∃ part, part <+: c :: rest ∧ Spelled part (l :: word)) ↔
      LetterOf c l ∧ ∃ part, part <+: rest ∧ Spelled part word := by
  constructor
  · rintro ⟨part, hpart, hspelled⟩
    cases hspelled with
    | cons hletter hspelled =>
      obtain ⟨rfl, hrest⟩ := List.cons_prefix_cons.mp hpart
      exact ⟨hletter, _, hrest, hspelled⟩
  · rintro ⟨hletter, part, hpart, hspelled⟩
    exact ⟨c :: part, List.cons_prefix_cons.mpr ⟨rfl, hpart⟩, .cons hletter hspelled⟩

theorem PlainWord.prefix_lowered_iff {word : List Char} (h : PlainWord word)
    (before cs after : List Char) :
    word <+: lowered before cs after ↔ ∃ part, part <+: cs ∧ Spelled part word := by
  induction word generalizing before cs with
  | nil => exact iff_of_true (List.nil_prefix) ⟨[], List.nil_prefix, .nil⟩
  | cons l word ih =>
    have hl : PlainLetter l := h.letters l List.mem_cons_self
    cases cs with
    | nil =>
      refine iff_of_false (fun hprefix => ?_) ?_
      · exact List.cons_ne_nil l word (List.prefix_nil.mp hprefix)
      · rintro ⟨part, hpart, hspelled⟩
        rw [List.prefix_nil.mp hpart] at hspelled
        cases hspelled
    | cons c rest =>
      obtain ⟨image, himage, hlowered⟩ := lowered_cons before c rest after
      rw [hlowered, exists_spelled_cons_iff]
      cases himage with
      | ascii hascii =>
        rw [List.singleton_append, List.cons_prefix_cons, hl.eq_toLower_iff hascii, ih h.tail]
      | kelvin =>
        refine iff_of_false (fun hprefix => ?_) fun hletter => ?_
        · exact hl.ne_k (List.cons_prefix_cons.mp hprefix).1
        · exact absurd (hl.ascii_of hletter.1) (by decide)
      | dotted =>
        refine iff_of_false (fun hprefix => ?_) fun hletter => ?_
        · obtain ⟨rfl, hrest⟩ := List.cons_prefix_cons.mp hprefix
          cases word with
          | nil => exact h.last rfl
          | cons m word =>
            obtain ⟨rfl, -⟩ := List.cons_prefix_cons.mp hrest
            exact absurd (h.tail.letters _ List.mem_cons_self).ascii (by decide)
        · exact absurd (hl.ascii_of hletter.1) (by decide)
      | beyond hc hd =>
        refine iff_of_false (fun hprefix => ?_) fun hletter => ?_
        · obtain ⟨rfl, -⟩ := List.cons_prefix_cons.mp hprefix
          exact hd hl.ascii
        · exact hc (hl.ascii_of hletter.1)

/-- A word stands in a text in lowercase exactly where its letters stand in the text. -/
theorem PlainWord.infix_lowered_iff {word : List Char} (h : PlainWord word)
    (before cs after : List Char) :
    word <:+: lowered before cs after ↔ ∃ part, part <:+: cs ∧ Spelled part word := by
  induction cs generalizing before with
  | nil =>
    simp only [lowered, ← List.prefix_nil, List.infix_nil]
    exact h.prefix_lowered_iff before [] after
  | cons c rest ih =>
    -- a word cannot begin within what one character becomes
    have hwithin : word <:+: lowered before (c :: rest) after ↔
        word <+: lowered before (c :: rest) after ∨
          word <:+: lowered (c :: before) rest after := by
      obtain ⟨image, himage, hlowered⟩ := lowered_cons before c rest after
      rw [hlowered]
      cases himage with
      | ascii => exact List.infix_cons_iff
      | kelvin => exact List.infix_cons_iff
      | beyond => exact List.infix_cons_iff
      | dotted =>
        rw [List.cons_append, List.singleton_append, List.infix_cons_iff, List.infix_cons_iff]
        refine or_congr_right (or_iff_right_of_imp fun hprefix => ?_)
        cases word with
        | nil => exact List.nil_infix
        | cons l word =>
          obtain ⟨rfl, -⟩ := List.cons_prefix_cons.mp hprefix
          exact absurd (h.letters _ List.mem_cons_self).ascii (by decide)
    simp only [hwithin, h.prefix_lowered_iff, ih, List.infix_cons_iff, or_and_right, exists_or]

theorem PlainWord.lowered_self {word : List Char} (h : PlainWord word) (before after : List Char) :
    lowered before word after = word := by
  induction word generalizing before with
  | nil => rfl
  | cons l word ih =>
    have hl : PlainLetter l := h.letters l List.mem_cons_self
    obtain ⟨image, himage, hlowered⟩ := lowered_cons before l word after
    rw [hlowered, ih h.tail]
    cases himage with
    | ascii => rw [hl.lower, List.singleton_append]
    | kelvin => exact absurd hl.ascii (by decide)
    | dotted => exact absurd hl.ascii (by decide)
    | beyond hc => exact absurd hl.ascii hc

/-- The search in lowercase finds such a word exactly if its letters stand in the text, whatever
other characters there are. -/
theorem contains_lowercase_plain {word : String} (h : PlainWord word.toList) (text : String) :
    contains (lowercase text) (lowercase word) ↔ Spells text word := by
  rw [contains_iff, lowercase_toList, lowercase_toList, h.lowered_self]
  exact h.infix_lowered_iff [] text.toList []

-- without the two conditions a character of another script takes part
example : contains (lowercase "\u212A") "k" = true ∧
    contains (lowercase "\u0130") "i" = true := by decide +kernel

end Text

end SmokeBench
