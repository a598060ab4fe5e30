import Mathlib.Data.List.TakeWhile
import SmokeBench.Path
import SmokeBench.RunResult
import SmokeBench.Text.Search

/-! Texts of one line. Bytes without a line feed make a text without one, since no other byte and no
sequence of bytes reads as a line feed; paths keep it out when they are joined or cut. Lines that
have none are what a text made of them splits into. -/

namespace SmokeBench

def OneLine (s : String) : Prop := '\n' ∉ s.toList

instance (s : String) : Decidable (OneLine s) := inferInstanceAs (Decidable ('\n' ∉ s.toList))

theorem OneLine.chars {cs : List Char} (h : '\n' ∉ cs) : OneLine (String.ofList cs) := by
  rwa [OneLine, String.toList_ofList]

@[simp] theorem oneLine_append (a b : String) : OneLine (a ++ b) ↔ OneLine a ∧ OneLine b := by
  rw [OneLine, String.toList_append, List.mem_append, not_or]
  rfl

@[simp] theorem oneLine_toString (n : Nat) : OneLine (toString n) := by
  rw [OneLine, Nat.toString_eq_ofList_toDigits, String.toList_ofList]
  intro h
  exact absurd (Nat.isDigit_of_mem_toDigits (by decide) (by decide) h) (by decide)

theorem oneLine_intercalate {sep : String} {texts : List String} (hsep : OneLine sep)
    (h : ∀ t ∈ texts, OneLine t) : OneLine (String.intercalate sep texts) := by
  induction texts with
  | nil =>
    rw [String.intercalate_nil]
    decide
  | cons t rest ih =>
    have hrest := ih fun t ht => h t (List.mem_cons_of_mem _ ht)
    cases rest with
    | nil => exact h t (by simp)
    | cons u rest =>
      rw [String.intercalate_cons_cons]
      simp only [oneLine_append]
      exact ⟨⟨h t (by simp), hsep⟩, hrest⟩

namespace Text

theorem oneLine_replaceToken {token replacement text : String} (hreplacement : OneLine replacement)
    (h : OneLine text) : OneLine (replaceToken token replacement text) := by
  have hfrom (skip : Nat) (done rest : List Char) (hdone : '\n' ∉ done) (hrest : '\n' ∉ rest) :
      '\n' ∉ replaceFrom token.toList replacement.toList skip done rest := by
    induction rest generalizing skip done with
    | nil => simpa [replaceFrom] using hdone
    | cons c rest ih =>
      obtain ⟨hc, hrest⟩ := not_or.mp (mt List.mem_cons.mpr hrest)
      cases skip with
      | succ skip => exact ih skip done hdone hrest
      | zero =>
        unfold replaceFrom
        dsimp only
        split
        · refine ih _ _ ?_ hrest
          rw [List.mem_append, List.mem_reverse, not_or]
          exact ⟨hreplacement, hdone⟩
        · exact ih 0 _ (mt List.mem_cons.mp (not_or.mpr ⟨hc, hdone⟩)) hrest
  rw [OneLine, replaceToken, String.toList_ofList]
  exact hfrom 0 [] _ (by simp) h

theorem trimEndChars_subset (cs : List Char) : trimEndChars cs ⊆ cs := by
  intro c hc
  rw [trimEndChars, List.mem_reverse] at hc
  exact List.mem_reverse.mp ((List.dropWhile_suffix _).subset hc)

theorem newline_not_mem_firstLineChars (cs : List Char) : '\n' ∉ firstLineChars cs := by
  have htake : '\n' ∉ cs.takeWhile (· != '\n') := fun h =>
    absurd (List.mem_takeWhile_imp h) (by decide)
  unfold firstLineChars
  dsimp only
  split
  · exact fun h => htake (List.dropLast_subset _ h)
  · exact htake

end Text

theorem RunResult.oneLine_firstLine (r : RunResult) : OneLine r.firstLine := by
  rw [OneLine, firstLine, String.toList_ofList]
  exact fun h => Text.newline_not_mem_firstLineChars _ (Text.trimEndChars_subset _ h)

namespace Bytes

def lineFeed : UInt8 := 10

theorem eq_of_mem_utf8EncodeChar {b : UInt8} (hb : b < 0x80) {c : Char}
    (h : b ∈ String.utf8EncodeChar c) : c.toNat = b.toNat := by
  have hlow : b.toNat < 128 := hb
  have hbyte {n : Nat} (hn : b = UInt8.ofNat n) : n % 256 = b.toNat := by
    have htoNat := congrArg UInt8.toNat hn
    rw [UInt8.toNat_ofNat'] at htoNat
    exact htoNat.symm
  change c.val.toNat = b.toNat
  unfold String.utf8EncodeChar at h
  dsimp only at h
  split_ifs at h <;> simp only [List.mem_cons, List.not_mem_nil, or_false] at h
  · have := hbyte h
    omega
  · rcases h with h | h <;> have := hbyte h <;> omega
  · rcases h with h | h | h <;> have := hbyte h <;> omega
  · rcases h with h | h | h | h <;> have := hbyte h <;> omega

theorem mem_ofString_iff {c : Char} {b : UInt8} (hb : b < 0x80) (hc : c.toNat = b.toNat)
    (hself : b ∈ String.utf8EncodeChar c) (s : String) : b ∈ ofString s ↔ c ∈ s.toList := by
  rw [ofString, List.mem_flatMap]
  constructor
  · rintro ⟨d, hd, hbyte⟩
    have hcode := (eq_of_mem_utf8EncodeChar hb hbyte).trans hc.symm
    have hsame : d = c := Char.ext (UInt32.toNat_inj.mp hcode)
    rwa [← hsame]
  · intro h
    exact ⟨c, h, hself⟩

theorem lineFeed_not_mem_ofString {s : String} (h : OneLine s) : lineFeed ∉ ofString s :=
  mt (mem_ofString_iff (c := '\n') (by decide) (by decide) (by decide) s).mp h

end Bytes

namespace Text.Utf8

theorem ofNat_ne_newline {n : Nat} (h : n ≠ 10) : Char.ofNat n ≠ '\n' := by
  intro heq
  by_cases hvalid : n.isValidChar
  · rw [Char.ofNat, dif_pos hvalid] at heq
    exact h (congrArg Char.toNat heq)
  · rw [Char.ofNat, dif_neg hvalid] at heq
    exact absurd (congrArg Char.toNat heq) (by decide)

/-- An unfinished character that cannot become a line feed: it is beyond the first 64 characters
or its next byte takes it there. -/
def Pending.Far (p : Pending) : Prop := 1 ≤ p.code ∨ (2 ≤ p.owed ∧ 0x81 ≤ p.low)

structure Scan.Clean (s : Scan) : Prop where
  read : some '\n' ∉ s.read
  pending : ∀ p, s.pending = some p → p.Far

theorem lead_clean {read : List (Option Char)} (hread : some '\n' ∉ read) {b : UInt8}
    (hb : b ≠ Bytes.lineFeed) : (lead read b).Clean := by
  have hten : b.toNat ≠ 10 := fun h => hb (UInt8.toNat_inj.mp h)
  have hdone {c : Option Char} (hc : c ≠ some '\n') : Scan.Clean ⟨c :: read, none⟩ :=
    ⟨mt List.mem_cons.mp (not_or.mpr ⟨hc.symm, hread⟩), fun p hp => by cases hp⟩
  have hwaits {p : Pending} (hp : p.Far) : Scan.Clean ⟨read, some p⟩ :=
    ⟨hread, fun q hq => by cases hq; exact hp⟩
  have hchar : some (Char.ofNat b.toNat) ≠ some '\n' := fun h =>
    ofNat_ne_newline hten (Option.some.inj h)
  have hfault : none ≠ some '\n' := by simp
  unfold lead
  dsimp only
  by_cases hascii : b.toNat < 0x80
  · rw [if_pos hascii]
    exact hdone hchar
  rw [if_neg hascii]
  by_cases hstray : b.toNat < 0xC2
  · rw [if_pos hstray]
    exact hdone hfault
  rw [if_neg hstray]
  by_cases htwo : b.toNat < 0xE0
  · rw [if_pos htwo]
    refine hwaits (.inl ?_)
    dsimp only
    omega
  rw [if_neg htwo]
  by_cases hthree : b.toNat < 0xF0
  · rw [if_pos hthree]
    refine hwaits ?_
    by_cases hfirst : b.toNat = 0xE0
    · exact .inr ⟨Nat.le_refl _, by dsimp only; rw [if_pos hfirst]; decide⟩
    · refine .inl ?_
      dsimp only
      omega
  rw [if_neg hthree]
  by_cases hfour : b.toNat < 0xF5
  · rw [if_pos hfour]
    refine hwaits ?_
    by_cases hfirst : b.toNat = 0xF0
    · exact .inr ⟨Nat.le_succ _, by dsimp only; rw [if_pos hfirst]; decide⟩
    · refine .inl ?_
      dsimp only
      omega
  · rw [if_neg hfour]
    exact hdone hfault

theorem Scan.Clean.feed {s : Scan} (h : s.Clean) {b : UInt8} (hb : b ≠ Bytes.lineFeed) :
    (s.feed b).Clean := by
  unfold Scan.feed
  split
  · exact lead_clean h.read hb
  · rename_i p hp
    have hfar := h.pending p hp
    by_cases hrange : p.low ≤ b ∧ b ≤ p.high
    · rw [if_pos hrange]
      have hlow : p.low.toNat ≤ b.toNat := UInt8.le_iff_toNat_le.mp hrange.1
      by_cases hlast : p.owed ≤ 1
      · rw [if_pos hlast]
        have hcode : p.code * 64 + (b.toNat - 0x80) ≠ 10 := by
          rcases hfar with hcode | ⟨howed, -⟩ <;> omega
        refine ⟨mt List.mem_cons.mp (not_or.mpr ⟨fun heq => ?_, h.read⟩), fun q hq => by cases hq⟩
        exact ofNat_ne_newline hcode (Option.some.inj heq).symm
      · rw [if_neg hlast]
        refine ⟨h.read, fun q hq => ?_⟩
        cases hq
        left
        dsimp only
        rcases hfar with hcode | ⟨-, hbeyond⟩
        · omega
        · have : (0x81 : UInt8).toNat ≤ p.low.toNat := UInt8.le_iff_toNat_le.mp hbeyond
          have : (0x81 : UInt8).toNat = 0x81 := rfl
          omega
    · rw [if_neg hrange]
      exact lead_clean (mt List.mem_cons.mp (not_or.mpr ⟨by simp, h.read⟩)) hb

theorem oneLine_lossy {b : Bytes} (h : Bytes.lineFeed ∉ b) : OneLine (lossy b) := by
  have hclean (s : Scan) (hs : s.Clean) : (b.foldl Scan.feed s).Clean := by
    induction b generalizing s with
    | nil => exact hs
    | cons c rest ih =>
      obtain ⟨hc, hrest⟩ := not_or.mp (mt List.mem_cons.mpr h)
      exact ih hrest _ (hs.feed (Ne.symm hc))
  have hread := (hclean .start ⟨by simp [Scan.start], fun p hp => by cases hp⟩).read
  have hscan : some '\n' ∉ scan b := by
    unfold scan Scan.finish
    split
    · simpa using hread
    · simpa using hread
  rw [OneLine, lossy, String.toList_ofList]
  intro hmem
  obtain ⟨c, hc, heq⟩ := List.mem_map.mp hmem
  cases c with
  | none => cases heq
  | some c =>
    obtain rfl : c = '\n' := heq
    exact hscan hc

end Text.Utf8

namespace Path

theorem trimTail_subset (b : Bytes) : trimTail b ⊆ b := by
  fun_induction trimTail b with
  | case1 => exact List.Subset.refl _
  | case2 c => exact List.Subset.refl _
  | case3 d rest ih => exact List.subset_cons_of_subset _ ih
  | case4 c d rest hslash hdot ih => exact List.subset_cons_of_subset _ ih
  | case5 c d rest hslash hdot => exact List.Subset.refl _

def OneLine (p : Path) : Prop := Bytes.lineFeed ∉ p.bytes

instance (p : Path) : Decidable p.OneLine := inferInstanceAs (Decidable (Bytes.lineFeed ∉ p.bytes))

namespace OneLine

variable {p q : Path}

theorem display (h : p.OneLine) : SmokeBench.OneLine p.display := Text.Utf8.oneLine_lossy h

theorem ofString {s : String} (h : SmokeBench.OneLine s) : (Path.ofString s).OneLine :=
  Bytes.lineFeed_not_mem_ofString h

theorem join (hp : p.OneLine) (hq : q.OneLine) : (p.join q).OneLine := by
  unfold Path.join
  split
  · exact hq
  · split
    · exact hq
    · split
      · exact fun h => (List.mem_append.mp h).elim hp hq
      · intro h
        rcases List.mem_append.mp h with h | h
        · exact hp h
        · exact (List.mem_cons.mp h).elim (by decide) hq

theorem parent (h : p.OneLine) (hq : p.parent = some q) : q.OneLine := by
  unfold Path.parent at hq
  split at hq
  · cases hq
  · cases hq
  · cases hq
    intro hmem
    have hcut := trimTail_subset _ (List.mem_reverse.mp hmem)
    exact h (List.mem_reverse.mp (trimTail_subset _ ((List.dropWhile_suffix _).subset hcut)))

end OneLine

end Path

namespace Text

theorem sep_not_mem_of_mem_splitOn {α : Type} [DecidableEq α] {sep : α} {xs piece : List α}
    (h : piece ∈ xs.splitOn sep) : sep ∉ piece := by
  induction hn : xs.length using Nat.strong_induction_on generalizing xs with
  | _ n ih =>
    by_cases hmem : sep ∈ xs
    · obtain ⟨first, rest, rfl, hfirst⟩ := List.eq_append_cons_of_mem hmem
      rw [List.splitOn_append_cons_self, List.splitOn_eq_singleton hfirst] at h
      rcases List.mem_cons.mp h with rfl | hrest
      · exact hfirst
      · rw [List.length_append, List.length_cons] at hn
        exact ih rest.length (by omega) hrest rfl
    · rw [List.splitOn_eq_singleton hmem] at h
      rwa [List.mem_singleton.mp h]

/-- The lines of a text, what stands behind its last line feed included. -/
def lines (s : String) : List String := (s.toList.splitOn '\n').map String.ofList

theorem oneLine_of_mem_lines {s l : String} (h : l ∈ lines s) : OneLine l := by
  obtain ⟨piece, hmem, rfl⟩ := List.mem_map.mp h
  rw [OneLine, String.toList_ofList]
  exact sep_not_mem_of_mem_splitOn hmem

/-- A text of lines is made of just these lines if and only if none of them has a line feed. -/
theorem lines_join_iff (ls : List String) :
    lines (String.join (ls.map (· ++ "\n"))) = ls ++ [""] ↔ ∀ l ∈ ls, OneLine l := by
  constructor
  · intro h l hl
    refine oneLine_of_mem_lines (s := String.join (ls.map (· ++ "\n"))) ?_
    rw [h]
    exact List.mem_append_left _ hl
  · intro h
    induction ls with
    | nil => rfl
    | cons l rest ih =>
      have hjoin : (String.join ((l :: rest).map (· ++ "\n"))).toList =
          l.toList ++ '\n' :: (String.join (rest.map (· ++ "\n"))).toList := by
        simp [String.toList_join]
      rw [lines, hjoin, List.splitOn_append_cons_self, List.splitOn_eq_singleton (h l (by simp)),
        List.map_append, ← lines, ih fun l hl => h l (List.mem_cons_of_mem _ hl)]
      simp

end Text

end SmokeBench
