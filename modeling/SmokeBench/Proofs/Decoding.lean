import Mathlib.Data.List.Induction
import SmokeBench.Proofs.Encoding

/-! Bytes that are read without a fault are the bytes of what is read. A character that is begun has
had the bytes that its state tells, so the byte that ends it makes exactly its encoding. Bytes are
therefore shown without loss if and only if they are the bytes of a text. -/

namespace SmokeBench.Text.Utf8

variable {read : List (Option Char)} {p : Pending} {part : Bytes} {b : UInt8} {x y z w n : Nat}

theorem val_ofNat (h : n.isValidChar) : (Char.ofNat n).val.toNat = n := by
  rw [Char.ofNat, dif_pos h]
  rfl

theorem encode_one (h : n < 0x80) : String.utf8EncodeChar (Char.ofNat n) = [.ofNat n] := by
  have hvalid : n.isValidChar := .inl (by omega)
  unfold String.utf8EncodeChar
  dsimp only
  rw [val_ofNat hvalid, if_pos (by omega)]

theorem encode_two (hleast : 2 ≤ x) (hmost : x < 32) (hy : y < 64) :
    String.utf8EncodeChar (Char.ofNat (x * 64 + y)) = [.ofNat (x + 0xc0), .ofNat (y + 0x80)] := by
  have hvalid : (x * 64 + y).isValidChar := .inl (by omega)
  have htop : (x * 64 + y) / 64 % 0x20 = x := by omega
  have hlow : (x * 64 + y) % 0x40 = y := by omega
  unfold String.utf8EncodeChar
  dsimp only
  rw [val_ofNat hvalid, if_neg (by omega), if_pos (by omega), htop, hlow]

theorem encode_three (hx : x < 16) (hy : y < 64) (hz : z < 64) (hleast : x = 0 → 32 ≤ y)
    (hsurrogate : x = 13 → y < 32) :
    String.utf8EncodeChar (Char.ofNat ((x * 64 + y) * 64 + z)) =
      [.ofNat (x + 0xe0), .ofNat (y + 0x80), .ofNat (z + 0x80)] := by
  have hvalid : ((x * 64 + y) * 64 + z).isValidChar := by
    unfold Nat.isValidChar
    omega
  have htop : ((x * 64 + y) * 64 + z) / 4096 % 0x10 = x := by omega
  have hmiddle : ((x * 64 + y) * 64 + z) / 64 % 0x40 = y := by omega
  have hlow : ((x * 64 + y) * 64 + z) % 0x40 = z := by omega
  unfold String.utf8EncodeChar
  dsimp only
  rw [val_ofNat hvalid, if_neg (by omega), if_neg (by omega), if_pos (by omega), htop, hmiddle,
    hlow]

theorem encode_four (hx : x < 5) (hy : y < 64) (hz : z < 64) (hw : w < 64) (hleast : x = 0 → 16 ≤ y)
    (hmost : x = 4 → y < 16) :
    String.utf8EncodeChar (Char.ofNat (((x * 64 + y) * 64 + z) * 64 + w)) =
      [.ofNat (x + 0xf0), .ofNat (y + 0x80), .ofNat (z + 0x80), .ofNat (w + 0x80)] := by
  have hvalid : (((x * 64 + y) * 64 + z) * 64 + w).isValidChar := .inr (by omega)
  have htop : (((x * 64 + y) * 64 + z) * 64 + w) / 262144 % 0x08 = x := by omega
  have hsecond : (((x * 64 + y) * 64 + z) * 64 + w) / 4096 % 0x40 = y := by omega
  have hthird : (((x * 64 + y) * 64 + z) * 64 + w) / 64 % 0x40 = z := by omega
  have hlow : (((x * 64 + y) * 64 + z) * 64 + w) % 0x40 = w := by omega
  unfold String.utf8EncodeChar
  dsimp only
  rw [val_ofNat hvalid, if_neg (by omega), if_neg (by omega), if_neg (by omega), htop, hsecond,
    hthird, hlow]

/-- The bytes that a character has had when it stands at this state. -/
inductive Begun : Pending → Bytes → Prop
  | two {x : Nat} (hleast : 2 ≤ x) (hmost : x < 32) :
      Begun ⟨1, 0x80, 0xBF, x⟩ [.ofNat (x + 0xc0)]
  | three {x : Nat} (hx : x < 16) :
      Begun ⟨2, if x = 0 then 0xA0 else 0x80, if x = 13 then 0x9F else 0xBF, x⟩
        [.ofNat (x + 0xe0)]
  | threeMiddle {x y : Nat} (hx : x < 16) (hy : y < 64) (hleast : x = 0 → 32 ≤ y)
      (hsurrogate : x = 13 → y < 32) :
      Begun ⟨1, 0x80, 0xBF, x * 64 + y⟩ [.ofNat (x + 0xe0), .ofNat (y + 0x80)]
  | four {x : Nat} (hx : x < 5) :
      Begun ⟨3, if x = 0 then 0x90 else 0x80, if x = 4 then 0x8F else 0xBF, x⟩
        [.ofNat (x + 0xf0)]
  | fourSecond {x y : Nat} (hx : x < 5) (hy : y < 64) (hleast : x = 0 → 16 ≤ y)
      (hmost : x = 4 → y < 16) :
      Begun ⟨2, 0x80, 0xBF, x * 64 + y⟩ [.ofNat (x + 0xf0), .ofNat (y + 0x80)]
  | fourThird {x y z : Nat} (hx : x < 5) (hy : y < 64) (hz : z < 64) (hleast : x = 0 → 16 ≤ y)
      (hmost : x = 4 → y < 16) :
      Begun ⟨1, 0x80, 0xBF, (x * 64 + y) * 64 + z⟩
        [.ofNat (x + 0xf0), .ofNat (y + 0x80), .ofNat (z + 0x80)]

theorem lead_cases (read : List (Option Char)) (b : UInt8) :
    (∃ c, lead read b = ⟨some c :: read, none⟩ ∧ String.utf8EncodeChar c = [b]) ∨
    lead read b = ⟨none :: read, none⟩ ∨ ∃ p, lead read b = ⟨read, some p⟩ ∧ Begun p [b] := by
  have hbyte : UInt8.ofNat b.toNat = b := UInt8.ofNat_toNat
  have hsize : b.toNat < 256 := b.toNat_lt
  rw [← hbyte]
  generalize b.toNat = n at hsize
  by_cases hone : n < 0x80
  · refine .inl ⟨Char.ofNat n, ?_, encode_one hone⟩
    rw [lead, toNat_ofNat hsize]
    exact if_pos hone
  by_cases hstray : n < 0xC2
  · refine .inr (.inl ?_)
    rw [lead, toNat_ofNat hsize, if_neg hone, if_pos hstray]
  refine .inr ?_
  by_cases htwo : n < 0xE0
  · obtain ⟨x, rfl⟩ : ∃ x, n = x + 0xc0 := ⟨n - 0xc0, by omega⟩
    exact .inr ⟨_, lead_two (by omega) (by omega), .two (by omega) (by omega)⟩
  by_cases hthree : n < 0xF0
  · obtain ⟨x, rfl⟩ : ∃ x, n = x + 0xe0 := ⟨n - 0xe0, by omega⟩
    exact .inr ⟨_, lead_three (by omega), .three (by omega)⟩
  by_cases hfour : n < 0xF5
  · obtain ⟨x, rfl⟩ : ∃ x, n = x + 0xf0 := ⟨n - 0xf0, by omega⟩
    exact .inr ⟨_, lead_four (by omega), .four (by omega)⟩
  · refine .inl ?_
    rw [lead, toNat_ofNat hsize, if_neg hone, if_neg hstray, if_neg htwo, if_neg hthree, if_neg hfour]

/-- A byte in the range of a character that is begun has six bits that follow in it. -/
theorem Begun.follows (h : Begun p part) (hb : p.low ≤ b ∧ b ≤ p.high) :
    ∃ x, b = .ofNat (x + 0x80) ∧ Follows x p.low p.high := by
  have hlow : 0x80 ≤ p.low.toNat := by
    cases h with
    | three _ => simp only; split_ifs <;> simp
    | four _ => simp only; split_ifs <;> simp
    | _ => simp
  have hhigh : p.high.toNat ≤ 0xBF := by
    cases h with
    | three _ => simp only; split_ifs <;> simp
    | four _ => simp only; split_ifs <;> simp
    | _ => simp
  rw [UInt8.le_iff_toNat_le, UInt8.le_iff_toNat_le] at hb
  refine ⟨b.toNat - 0x80, ?_, ?_, ?_, ?_⟩
  · rw [Nat.sub_add_cancel (by omega), UInt8.ofNat_toNat]
  · omega
  · omega
  · omega

theorem Begun.on (h : Begun p part) (hx : Follows x p.low p.high) (howed : 1 < p.owed) :
    Begun ⟨p.owed - 1, 0x80, 0xBF, p.code * 64 + x⟩ (part ++ [.ofNat (x + 0x80)]) := by
  obtain ⟨hbits, hlow, hhigh⟩ := hx
  cases h with
  | @three y hy =>
    refine .threeMiddle hy hbits ?_ ?_
    · rintro rfl
      change 0xA0 ≤ x + 0x80 at hlow
      omega
    · rintro rfl
      change x + 0x80 ≤ 0x9F at hhigh
      omega
  | @four y hy =>
    refine .fourSecond hy hbits ?_ ?_
    · rintro rfl
      change 0x90 ≤ x + 0x80 at hlow
      omega
    · rintro rfl
      change x + 0x80 ≤ 0x8F at hhigh
      omega
  | fourSecond hy hz hleast hmost => exact .fourThird hy hz hbits hleast hmost
  | two => exact absurd howed (by decide : ¬ 1 < 1)
  | threeMiddle => exact absurd howed (by decide : ¬ 1 < 1)
  | fourThird => exact absurd howed (by decide : ¬ 1 < 1)

/-- The byte that ends a character makes the encoding of the character. -/
theorem Begun.last (h : Begun p part) (hx : Follows x p.low p.high) (howed : p.owed ≤ 1) :
    String.utf8EncodeChar (Char.ofNat (p.code * 64 + x)) = part ++ [.ofNat (x + 0x80)] := by
  have hbits := hx.1
  cases h with
  | two hleast hmost => exact encode_two hleast hmost hbits
  | threeMiddle hy hz hleast hsurrogate => exact encode_three hy hz hbits hleast hsurrogate
  | fourThird hy hz hw hleast hmost => exact encode_four hy hz hw hbits hleast hmost
  | three => exact absurd howed (by decide : ¬ 2 ≤ 1)
  | four => exact absurd howed (by decide : ¬ 3 ≤ 1)
  | fourSecond => exact absurd howed (by decide : ¬ 2 ≤ 1)

/-- What a scan without a fault has read, and has begun to read, are these bytes. -/
def Scan.Reads (s : Scan) (b : Bytes) : Prop :=
  none ∈ s.read ∨ ∃ part, b = (s.read.reverse.filterMap id).flatMap String.utf8EncodeChar ++ part ∧
    match s.pending with
    | none => part = []
    | some p => Begun p part

theorem Scan.fault_feed {s : Scan} (h : none ∈ s.read) (b : UInt8) : none ∈ (s.feed b).read := by
  have hlead {read : List (Option Char)} (hread : none ∈ read) : none ∈ (lead read b).read := by
    rcases lead_cases read b with ⟨c, hc, -⟩ | hc | ⟨p, hc, -⟩
    · rw [hc]
      exact List.mem_cons_of_mem _ hread
    · rw [hc]
      exact List.mem_cons_self
    · rw [hc]
      exact hread
  unfold Scan.feed
  split
  · exact hlead h
  · split_ifs
    · exact List.mem_cons_of_mem _ h
    · exact h
    · exact hlead List.mem_cons_self

theorem Scan.Reads.feed {s : Scan} {before : Bytes} (h : s.Reads before) (b : UInt8) :
    (s.feed b).Reads (before ++ [b]) := by
  have hchar {read : List (Option Char)} {c : Char} {part : Bytes}
      (hc : String.utf8EncodeChar c = part ++ [b]) :
      Scan.Reads ⟨some c :: read, none⟩
        ((read.reverse.filterMap id).flatMap String.utf8EncodeChar ++ part ++ [b]) := by
    refine .inr ⟨[], ?_, rfl⟩
    simp [hc]
  rcases h with hfault | ⟨part, rfl, hpending⟩
  · exact .inl (Scan.fault_feed hfault b)
  obtain ⟨read, pending⟩ := s
  cases pending with
  | none =>
    obtain rfl : part = [] := hpending
    have hfeed : Scan.feed ⟨read, none⟩ b = lead read b := rfl
    rcases lead_cases read b with ⟨c, hlead, hc⟩ | hlead | ⟨p, hlead, hp⟩
    · rw [hfeed, hlead]
      exact hchar hc
    · rw [hfeed, hlead]
      exact .inl List.mem_cons_self
    · rw [hfeed, hlead]
      exact .inr ⟨[b], by rw [List.append_nil], hp⟩
  | some p =>
    have hbegun : Begun p part := hpending
    by_cases hrange : p.low ≤ b ∧ b ≤ p.high
    · obtain ⟨x, rfl, hx⟩ := hbegun.follows hrange
      by_cases howed : p.owed ≤ 1
      · rw [feed_last hx howed]
        exact hchar (hbegun.last hx howed)
      · rw [feed_on hx (by omega)]
        exact .inr ⟨_, List.append_assoc _ _ _, hbegun.on hx (by omega)⟩
    · have hfeed : Scan.feed ⟨read, some p⟩ b = lead (none :: read) b := if_neg hrange
      have hfault : none ∈ (Scan.feed ⟨none :: read, none⟩ b).read :=
        Scan.fault_feed List.mem_cons_self b
      rw [hfeed]
      exact .inl hfault

theorem reads_foldl (b : Bytes) : (b.foldl Scan.feed Scan.start).Reads b := by
  induction b using List.reverseRecOn with
  | nil => exact .inr ⟨[], rfl, rfl⟩
  | append_singleton b last ih =>
    rw [List.foldl_append]
    exact ih.feed last

/-- Exactly the bytes of a text are read as this text without a fault. -/
theorem strict_eq_some_iff {b : Bytes} {t : String} : strict b = some t ↔ b = Bytes.ofString t := by
  constructor
  · intro h
    unfold strict scan at h
    dsimp only at h
    split_ifs at h with hall
    have hreads := reads_foldl b
    generalize b.foldl Scan.feed Scan.start = s at hall h hreads
    obtain ⟨read, pending⟩ := s
    cases pending with
    | some p => simp [Scan.finish] at hall
    | none =>
      simp only [Scan.finish] at hall h
      rcases hreads with hfault | ⟨part, hb, hpart⟩
      · have hsome := List.all_eq_true.mp hall none (List.mem_reverse.mpr hfault)
        cases hsome
      · obtain rfl : part = [] := hpart
        rw [hb, ← Option.some.inj h, Bytes.ofString, String.toList_ofList, List.append_nil]
  · rintro rfl
    exact strict_ofString t

theorem ofString_lossy_iff {b : Bytes} : Bytes.ofString (lossy b) = b ↔ (strict b).isSome := by
  rw [Option.isSome_iff_exists]
  constructor
  · intro h
    exact ⟨lossy b, strict_eq_some_iff.mpr h.symm⟩
  · rintro ⟨t, ht⟩
    rw [strict_eq_some_iff.mp ht, lossy_ofString]

end SmokeBench.Text.Utf8
