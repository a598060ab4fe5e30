import Mathlib.Data.List.Basic
import SmokeBench.Text.Utf8

/-! Text is read back from its bytes. Every character is written in one to four bytes, each in the
range where the reader expects it, so reading the bytes of a text finds no fault and gives the text. -/

namespace SmokeBench

theorem Bytes.ofString_append (a b : String) : ofString (a ++ b) = ofString a ++ ofString b := by
  rw [ofString, String.toList_append, List.flatMap_append]
  rfl

namespace Text.Utf8

variable {read : List (Option Char)} {p : Pending} {x y : Nat}

theorem toNat_ofNat (h : x < 256) : (UInt8.ofNat x).toNat = x := UInt8.toNat_ofNat_of_lt' h

theorem lead_two (hleast : 2 ≤ x) (hmost : x < 32) :
    lead read (.ofNat (x + 0xc0)) = ⟨read, some ⟨1, 0x80, 0xBF, x⟩⟩ := by
  unfold lead
  rw [toNat_ofNat (by omega)]
  dsimp only
  rw [if_neg (by omega), if_neg (by omega), if_pos (by omega), Nat.add_sub_cancel]

theorem lead_three (hmost : x < 16) : lead read (.ofNat (x + 0xe0)) =
    ⟨read, some ⟨2, if x = 0 then 0xA0 else 0x80, if x = 13 then 0x9F else 0xBF, x⟩⟩ := by
  unfold lead
  rw [toNat_ofNat (by omega)]
  dsimp only
  rw [if_neg (by omega), if_neg (by omega), if_neg (by omega), if_pos (by omega),
    Nat.add_sub_cancel]
  simp only [Nat.add_eq_right, Nat.reduceEqDiff]

theorem lead_four (hmost : x < 5) : lead read (.ofNat (x + 0xf0)) =
    ⟨read, some ⟨3, if x = 0 then 0x90 else 0x80, if x = 4 then 0x8F else 0xBF, x⟩⟩ := by
  unfold lead
  rw [toNat_ofNat (by omega)]
  dsimp only
  rw [if_neg (by omega), if_neg (by omega), if_neg (by omega), if_neg (by omega),
    if_pos (by omega), Nat.add_sub_cancel]
  simp only [Nat.add_eq_right, Nat.reduceEqDiff]

/-- Whether a byte with the six bits `x` may follow in a character. -/
def Follows (x : Nat) (low high : UInt8) : Prop :=
  x < 64 ∧ low.toNat ≤ x + 0x80 ∧ x + 0x80 ≤ high.toNat

theorem follows_of_lt (h : x < 64) : Follows x 0x80 0xBF := by
  have hlow : (0x80 : UInt8).toNat = 0x80 := rfl
  have hhigh : (0xBF : UInt8).toNat = 0xBF := rfl
  refine ⟨h, ?_, ?_⟩
  · omega
  · omega

theorem Follows.range {low high : UInt8} (h : Follows x low high) :
    low ≤ .ofNat (x + 0x80) ∧ .ofNat (x + 0x80) ≤ high := by
  obtain ⟨hbits, hlow, hhigh⟩ := h
  rw [UInt8.le_iff_toNat_le, UInt8.le_iff_toNat_le, toNat_ofNat (by omega)]
  exact ⟨hlow, hhigh⟩

theorem feed_on (h : Follows x p.low p.high) (howed : 1 < p.owed) :
    Scan.feed ⟨read, some p⟩ (.ofNat (x + 0x80)) =
      ⟨read, some ⟨p.owed - 1, 0x80, 0xBF, p.code * 64 + x⟩⟩ := by
  have hbits := h.1
  unfold Scan.feed
  dsimp only
  rw [if_pos h.range, if_neg (Nat.not_le_of_lt howed), toNat_ofNat (by omega), Nat.add_sub_cancel]

theorem feed_last (h : Follows x p.low p.high) (howed : p.owed ≤ 1) :
    Scan.feed ⟨read, some p⟩ (.ofNat (x + 0x80)) =
      ⟨some (Char.ofNat (p.code * 64 + x)) :: read, none⟩ := by
  have hbits := h.1
  unfold Scan.feed
  dsimp only
  rw [if_pos h.range, if_pos howed, toNat_ofNat (by omega), Nat.add_sub_cancel]

section Rest

variable {n : Nat} {low high : UInt8}

theorem feed_rest_one (h : Follows (n % 64) low high) :
    Scan.feed ⟨read, some ⟨1, low, high, n / 64⟩⟩ (.ofNat (n % 64 + 0x80)) =
      ⟨some (Char.ofNat n) :: read, none⟩ := by
  rw [feed_last h (Nat.le_refl 1), Nat.div_add_mod']

theorem feed_rest_two (h : Follows (n / 64 % 64) low high) :
    Scan.feed (Scan.feed ⟨read, some ⟨2, low, high, n / 4096⟩⟩ (.ofNat (n / 64 % 64 + 0x80)))
      (.ofNat (n % 64 + 0x80)) = ⟨some (Char.ofNat n) :: read, none⟩ := by
  have hcode : n / 4096 * 64 + n / 64 % 64 = n / 64 := by omega
  rw [feed_on h (Nat.lt_succ_self 1), hcode]
  exact feed_rest_one (follows_of_lt (Nat.mod_lt _ (by decide)))

theorem feed_rest_three (h : Follows (n / 4096 % 64) low high) :
    Scan.feed (Scan.feed (Scan.feed ⟨read, some ⟨3, low, high, n / 262144⟩⟩
      (.ofNat (n / 4096 % 64 + 0x80))) (.ofNat (n / 64 % 64 + 0x80)))
      (.ofNat (n % 64 + 0x80)) = ⟨some (Char.ofNat n) :: read, none⟩ := by
  have hcode : n / 262144 * 64 + n / 4096 % 64 = n / 4096 := by omega
  rw [feed_on h (by dsimp only; omega), hcode]
  exact feed_rest_two (follows_of_lt (Nat.mod_lt _ (by decide)))

end Rest

/-- The bytes of a character add this character to what was read. -/
theorem feed_char (read : List (Option Char)) (c : Char) :
    (String.utf8EncodeChar c).foldl Scan.feed ⟨read, none⟩ = ⟨some c :: read, none⟩ := by
  have hvalid : c.val.toNat < 0xD800 ∨ 0xDFFF < c.val.toNat ∧ c.val.toNat < 0x110000 := c.valid
  have hself : Char.ofNat c.val.toNat = c := Char.ofNat_toNat c
  have hfirst (b : UInt8) : Scan.feed ⟨read, none⟩ b = lead read b := rfl
  unfold String.utf8EncodeChar
  dsimp only
  generalize c.val.toNat = n at hvalid hself ⊢
  subst hself
  by_cases hone : n ≤ 0x7f
  · rw [if_pos hone, List.foldl_cons, List.foldl_nil, hfirst, lead, toNat_ofNat (by omega)]
    exact if_pos (by omega)
  rw [if_neg hone]
  by_cases htwo : n ≤ 0x7ff
  · rw [if_pos htwo, Nat.mod_eq_of_lt (by omega : n / 64 < 0x20)]
    simp only [List.foldl_cons, List.foldl_nil]
    rw [hfirst, lead_two (by omega) (by omega)]
    exact feed_rest_one (follows_of_lt (Nat.mod_lt _ (by decide)))
  rw [if_neg htwo]
  by_cases hthree : n ≤ 0xffff
  · rw [if_pos hthree, Nat.mod_eq_of_lt (by omega : n / 4096 < 0x10)]
    simp only [List.foldl_cons, List.foldl_nil]
    rw [hfirst, lead_three (by omega)]
    refine feed_rest_two ⟨Nat.mod_lt _ (by decide), ?_, ?_⟩
    · split_ifs with hzero
      · change 0xA0 ≤ _
        omega
      · exact Nat.le_add_left _ _
    · split_ifs with hsurrogate
      · change _ ≤ 0x9F
        omega
      · change _ ≤ 0xBF
        omega
  · rw [if_neg hthree, Nat.mod_eq_of_lt (by omega : n / 262144 < 0x08)]
    simp only [List.foldl_cons, List.foldl_nil]
    rw [hfirst, lead_four (by omega)]
    refine feed_rest_three ⟨Nat.mod_lt _ (by decide), ?_, ?_⟩
    · split_ifs with hzero
      · change 0x90 ≤ _
        omega
      · exact Nat.le_add_left _ _
    · split_ifs with hlast
      · change _ ≤ 0x8F
        omega
      · change _ ≤ 0xBF
        omega

theorem feed_text (read : List (Option Char)) (cs : List Char) :
    (cs.flatMap String.utf8EncodeChar).foldl Scan.feed ⟨read, none⟩ =
      ⟨(cs.map some).reverse ++ read, none⟩ := by
  induction cs generalizing read with
  | nil => rfl
  | cons c rest ih =>
    rw [List.flatMap_cons, List.foldl_append, feed_char, ih]
    simp

theorem scan_ofString (s : String) : scan (Bytes.ofString s) = s.toList.map some := by
  rw [scan, Bytes.ofString, Scan.start, feed_text]
  simp [Scan.finish]

theorem lossy_ofString (s : String) : lossy (Bytes.ofString s) = s := by
  rw [lossy, scan_ofString, List.map_map]
  exact (congrArg String.ofList (List.map_id _)).trans String.ofList_toList

theorem strict_ofString (s : String) : strict (Bytes.ofString s) = some s := by
  have hall : (s.toList.map some).all Option.isSome = true := by simp
  unfold strict
  dsimp only
  rw [scan_ofString, if_pos hall, List.filterMap_map]
  simp

end Text.Utf8

end SmokeBench
