import Mathlib.Data.Nat.Find
import SmokeBench.Proofs.Decoding

/-! Bytes that are no text, as they are shown. Any bytes are cut into characters and faults, where a
fault is the longest beginning of a character that stands there, or one byte that no character begins
with. Every fault is shown as the same character of three bytes, however many bytes it has. -/

namespace SmokeBench.Text.Utf8

variable {p : Pending} {part rest b : Bytes}

/-- Some character begins with these bytes. -/
def Opens (part : Bytes) : Prop := ∃ c, part <+: String.utf8EncodeChar c

theorem Opens.mono {q : Bytes} (h : Opens part) (hq : q <+: part) : Opens q :=
  h.imp fun _ hc => hq.trans hc

/-- These bytes are a fault before the rest: no character stands here, and no longer part of what
stands here begins a character. -/
structure Fault (part rest : Bytes) : Prop where
  nonempty : part ≠ []
  opens : part.length = 1 ∨ Opens part
  broken : ∀ c, ¬String.utf8EncodeChar c <+: part ++ rest
  longest : ∀ q, q <+: part ++ rest → Opens q → q.length ≤ part.length

inductive Piece
  | char (c : Char)
  | fault (part : Bytes)

/-- Bytes are cut into these pieces, from their beginning on. -/
inductive Cut : Bytes → List Piece → Prop
  | nil : Cut [] []
  | char (c : Char) {rest : Bytes} {ps : List Piece} (h : Cut rest ps) :
    Cut (String.utf8EncodeChar c ++ rest) (.char c :: ps)
  | fault {part rest : Bytes} {ps : List Piece} (hfault : Fault part rest) (h : Cut rest ps) :
    Cut (part ++ rest) (.fault part :: ps)

namespace Piece

def scanned : Piece → Option Char
  | char c => some c
  | fault _ => none

def shown : Piece → Nat
  | char c => c.utf8Size
  | fault _ => 3

end Piece

def shownSize : List Piece → Nat
  | [] => 0
  | q :: ps => q.shown + shownSize ps

section Existence

open Classical in
theorem exists_fault (hb : b ≠ []) (hbroken : ∀ c, ¬String.utf8EncodeChar c <+: b) :
    ∃ part rest, b = part ++ rest ∧ Fault part rest := by
  have hnil : Opens (b.take 0) := ⟨'a', by rw [List.take_zero]; exact List.nil_prefix⟩
  set n := Nat.findGreatest (fun n => Opens (b.take n)) b.length
  have hopens : Opens (b.take n) :=
    Nat.findGreatest_spec (P := fun n => Opens (b.take n)) (Nat.zero_le _) hnil
  have hlongest (q : Bytes) (hq : q <+: b) (hqopens : Opens q) : q.length ≤ n := by
    refine Nat.le_findGreatest hq.length_le ?_
    rwa [← List.prefix_iff_eq_take.mp hq]
  have hfault {m : Nat} (hm : n ≤ m) (hpos : 0 < m)
      (hpart : (b.take m).length = 1 ∨ Opens (b.take m)) : Fault (b.take m) (b.drop m) := by
    have hlength : 0 < b.length := List.length_pos_iff.mpr hb
    refine ⟨fun h => ?_, hpart, ?_, fun q hq hqopens => ?_⟩
    · have := congrArg List.length h
      rw [List.length_take, List.length_nil] at this
      omega
    · rwa [List.take_append_drop]
    · rw [List.take_append_drop] at hq
      have := hlongest q hq hqopens
      have := hq.length_le
      rw [List.length_take]
      omega
  cases hn : n with
  | zero =>
    refine ⟨b.take 1, b.drop 1, (List.take_append_drop 1 b).symm,
      hfault (by omega) Nat.one_pos (.inl ?_)⟩
    rw [List.length_take, Nat.min_eq_left (List.length_pos_iff.mpr hb)]
  | succ m =>
    exact ⟨b.take n, b.drop n, (List.take_append_drop n b).symm,
      hfault le_rfl (by omega) (.inr hopens)⟩

theorem encode_ne_nil (c : Char) : String.utf8EncodeChar c ≠ [] := by
  intro h
  have := congrArg List.length h
  rw [String.length_utf8EncodeChar] at this
  exact absurd this (Nat.ne_of_gt c.utf8Size_pos)

theorem exists_cut (b : Bytes) : ∃ ps, Cut b ps := by
  induction hn : b.length using Nat.strong_induction_on generalizing b with
  | _ n ih =>
    by_cases hb : b = []
    · exact ⟨[], hb ▸ .nil⟩
    -- Whatever piece stands first, it has a byte, and the rest is shorter.
    have hrest {part rest : Bytes} (h : b = part ++ rest) (hpart : part ≠ []) :
        ∃ ps, Cut rest ps := by
      refine ih rest.length ?_ rest rfl
      have := List.length_pos_iff.mpr hpart
      rw [← hn, h, List.length_append]
      omega
    by_cases hchar : ∃ c, String.utf8EncodeChar c <+: b
    · obtain ⟨c, rest, rfl⟩ := hchar
      obtain ⟨ps, hps⟩ := hrest rfl (encode_ne_nil c)
      exact ⟨_, .char c hps⟩
    · obtain ⟨part, rest, rfl, hfault⟩ := exists_fault hb (not_exists.mp hchar)
      obtain ⟨ps, hps⟩ := hrest rfl hfault.nonempty
      exact ⟨_, .fault hfault hps⟩

end Existence

section Scanning

theorem foldl_read (read : List (Option Char)) (b : Bytes) (s : Scan) :
    b.foldl Scan.feed ⟨s.read ++ read, s.pending⟩ =
      ⟨(b.foldl Scan.feed s).read ++ read, (b.foldl Scan.feed s).pending⟩ := by
  have hlead (front : List (Option Char)) (x : UInt8) :
      lead (front ++ read) x = ⟨(lead front x).read ++ read, (lead front x).pending⟩ := by
    unfold lead
    dsimp only
    split_ifs <;> rfl
  induction b generalizing s with
  | nil => rfl
  | cons x b ih =>
    have hfeed : Scan.feed ⟨s.read ++ read, s.pending⟩ x =
        ⟨(s.feed x).read ++ read, (s.feed x).pending⟩ := by
      unfold Scan.feed
      dsimp only
      split
      · exact hlead _ _
      · split_ifs
        · rfl
        · rfl
        · exact hlead (none :: s.read) x
    rw [List.foldl_cons, List.foldl_cons, hfeed, ih]

theorem fault_foldl {s : Scan} (h : none ∈ s.read) (b : Bytes) :
    none ∈ (b.foldl Scan.feed s).read := by
  induction b generalizing s with
  | nil => exact h
  | cons x b ih => exact ih (Scan.fault_feed h x)

theorem Opens.no_fault (h : Opens part) : none ∉ (part.foldl Scan.feed Scan.start).read := by
  obtain ⟨c, t, ht⟩ := h
  intro hfault
  have hchar := feed_char [] c
  rw [← ht, List.foldl_append] at hchar
  have hread := fault_foldl hfault t
  rw [Scan.start, hchar] at hread
  simp at hread

theorem Begun.exists_follows (h : Begun p part) : ∃ x, Follows x p.low p.high := by
  cases h with
  | @three x hx =>
    by_cases hzero : x = 0
    · subst hzero
      exact ⟨32, by unfold Follows; decide⟩
    · refine ⟨0, ?_⟩
      dsimp only
      rw [if_neg hzero]
      split_ifs <;> (unfold Follows; decide)
  | @four x hx =>
    by_cases hzero : x = 0
    · subst hzero
      exact ⟨16, by unfold Follows; decide⟩
    · refine ⟨0, ?_⟩
      dsimp only
      rw [if_neg hzero]
      split_ifs <;> (unfold Follows; decide)
  | _ => exact ⟨0, follows_of_lt (by decide)⟩

theorem Begun.opens (h : Begun p part) : Opens part := by
  induction hn : p.owed using Nat.strong_induction_on generalizing p part with
  | _ n ih =>
    obtain ⟨x, hx⟩ := h.exists_follows
    by_cases howed : p.owed ≤ 1
    · exact ⟨_, _, (h.last hx howed).symm⟩
    · exact (ih (p.owed - 1) (by omega) (h.on hx (by omega)) rfl).mono (List.prefix_append _ _)

theorem Begun.next {x : UInt8} (h : Begun p part) (hrange : p.low ≤ x ∧ x ≤ p.high) :
    (∃ c, String.utf8EncodeChar c = part ++ [x]) ∨
      ∃ p', Begun p' (part ++ [x]) ∧ ∀ read, Scan.feed ⟨read, some p⟩ x = ⟨read, some p'⟩ := by
  obtain ⟨y, rfl, hy⟩ := h.follows hrange
  by_cases howed : p.owed ≤ 1
  · exact .inl ⟨_, h.last hy howed⟩
  · exact .inr ⟨_, h.on hy (by omega), fun read => feed_on hy (by omega)⟩

theorem Opens.begun (h : Opens part) (hpart : part ≠ [])
    (hbroken : ∀ c, ¬String.utf8EncodeChar c <+: part) :
    ∃ p, Begun p part ∧ part.foldl Scan.feed Scan.start = ⟨[], some p⟩ := by
  induction part using List.reverseRecOn with
  | nil => exact absurd rfl hpart
  | append_singleton q x ih =>
    have hclean := h.no_fault
    rw [List.foldl_append, List.foldl_cons, List.foldl_nil] at hclean ⊢
    by_cases hq : q = []
    · subst hq
      have hfirst : Scan.feed ([].foldl Scan.feed Scan.start) x = lead [] x := rfl
      rw [hfirst] at hclean ⊢
      rcases lead_cases [] x with ⟨c, -, hc⟩ | hlead | ⟨p, hlead, hp⟩
      · exact absurd (hc ▸ List.prefix_rfl) (hbroken c)
      · rw [hlead] at hclean
        exact absurd List.mem_cons_self hclean
      · exact ⟨p, hp, hlead⟩
    · obtain ⟨p, hp, hread⟩ := ih (h.mono (List.prefix_append _ _)) hq
        fun c hc => hbroken c (hc.trans (List.prefix_append _ _))
      rw [hread] at hclean ⊢
      by_cases hrange : p.low ≤ x ∧ x ≤ p.high
      · rcases hp.next hrange with ⟨c, hc⟩ | ⟨p', hp', hfeed⟩
        · exact absurd (hc ▸ List.prefix_rfl) (hbroken c)
        · exact ⟨p', hp', hfeed []⟩
      · have hfeed : Scan.feed ⟨[], some p⟩ x = Scan.feed ⟨[none], none⟩ x := if_neg hrange
        rw [hfeed] at hclean
        exact absurd (Scan.fault_feed List.mem_cons_self x) hclean

/-- The bytes of a fault are one that no character begins with, or a character that is begun. -/
theorem Fault.foldl (h : Fault part rest) :
    part.foldl Scan.feed Scan.start = ⟨[none], none⟩ ∨
      ∃ p, Begun p part ∧ part.foldl Scan.feed Scan.start = ⟨[], some p⟩ := by
  have hbroken (c : Char) (hc : String.utf8EncodeChar c <+: part) : False :=
    h.broken c (hc.trans (List.prefix_append _ _))
  rcases h.opens with hone | hopens
  · obtain ⟨x, rfl⟩ := List.length_eq_one_iff.mp hone
    rcases lead_cases [] x with ⟨c, -, hc⟩ | hlead | ⟨p, hlead, hp⟩
    · exact (hbroken c (hc ▸ List.prefix_rfl)).elim
    · exact .inl hlead
    · exact .inr ⟨p, hp, hlead⟩
  · exact .inr (hopens.begun h.nonempty hbroken)

theorem Fault.finish (h : Fault part rest) (read : List (Option Char)) :
    ((part ++ rest).foldl Scan.feed ⟨read, none⟩).finish =
      (rest.foldl Scan.feed ⟨none :: read, none⟩).finish := by
  have hread : part.foldl Scan.feed ⟨read, none⟩ =
      ⟨(part.foldl Scan.feed Scan.start).read ++ read, (part.foldl Scan.feed Scan.start).pending⟩ :=
    foldl_read read part Scan.start
  rw [List.foldl_append, hread]
  rcases h.foldl with hstray | ⟨p, hp, hbegun⟩
  · rw [hstray]
    rfl
  · rw [hbegun]
    cases rest with
    | nil => rfl
    | cons x rest =>
      -- A byte in range would end the character, or belong to the fault.
      have hrange : ¬(p.low ≤ x ∧ x ≤ p.high) := by
        intro hrange
        have hprefix : part ++ [x] <+: part ++ x :: rest := ⟨rest, by simp⟩
        rcases hp.next hrange with ⟨c, hc⟩ | ⟨p', hp', -⟩
        · exact h.broken c (hc ▸ hprefix)
        · have hlonger := h.longest _ hprefix hp'.opens
          rw [List.length_append, List.length_singleton] at hlonger
          omega
      have hfeed : Scan.feed ⟨read, some p⟩ x = Scan.feed ⟨none :: read, none⟩ x := if_neg hrange
      rw [List.nil_append, List.foldl_cons, List.foldl_cons, hfeed]

theorem Cut.scan {ps : List Piece} (h : Cut b ps) : scan b = ps.map Piece.scanned := by
  have hall (read : List (Option Char)) :
      (b.foldl Scan.feed ⟨read, none⟩).finish = read.reverse ++ ps.map Piece.scanned := by
    induction h generalizing read with
    | nil => exact (List.append_nil _).symm
    | char c h ih =>
      rw [List.foldl_append, feed_char, ih]
      simp [Piece.scanned]
    | fault hfault h ih =>
      rw [hfault.finish, ih]
      simp [Piece.scanned]
  exact hall []

end Scanning

section Sizes

/-- A fault is shorter than the character that it begins. -/
theorem Fault.length_le (h : Fault part rest) : part.length ≤ 3 := by
  rcases h.opens with hone | ⟨c, hc⟩
  · omega
  · have hlength : part.length ≠ (String.utf8EncodeChar c).length := by
      intro hlength
      rw [hc.eq_of_length hlength] at h
      exact h.broken c (List.prefix_append _ _)
    have hle := hc.length_le
    have hfour := c.utf8Size_le_four
    rw [String.length_utf8EncodeChar] at hlength hle
    omega

theorem Cut.lossy_size {ps : List Piece} (h : Cut b ps) :
    (lossy b).utf8ByteSize = shownSize ps := by
  rw [lossy, h.scan, List.map_map]
  clear h
  induction ps with
  | nil => rfl
  | cons q ps ih =>
    have hsize : shownSize (q :: ps) = q.shown + shownSize ps := rfl
    rw [List.map_cons, String.ofList_cons, String.utf8ByteSize_append, String.utf8ByteSize_singleton,
      ih, hsize]
    cases q <;> rfl

theorem Cut.length_le {ps : List Piece} (h : Cut b ps) : b.length ≤ shownSize ps := by
  induction h with
  | nil => rfl
  | char c h ih =>
    rw [List.length_append, String.length_utf8EncodeChar]
    exact Nat.add_le_add_left ih _
  | fault hfault h ih =>
    rw [List.length_append]
    exact Nat.add_le_add hfault.length_le ih

/-- Exactly when all faults have three bytes, as many bytes are shown as there are. -/
theorem Cut.shownSize_eq_iff {ps : List Piece} (h : Cut b ps) :
    shownSize ps = b.length ↔ ∀ part, .fault part ∈ ps → part.length = 3 := by
  induction h with
  | nil => simp [shownSize]
  | @char c rest ps h ih =>
    have hsize : shownSize (.char c :: ps) = c.utf8Size + shownSize ps := rfl
    rw [hsize, List.length_append, String.length_utf8EncodeChar, Nat.add_left_cancel_iff, ih]
    simp
  | @fault part rest ps hfault h ih =>
    have hsize : shownSize (.fault part :: ps) = 3 + shownSize ps := rfl
    have hpart := hfault.length_le
    have hrest := h.length_le
    rw [hsize, List.length_append]
    constructor
    · intro heq q hq
      rcases List.mem_cons.mp hq with hq | hq
      · cases hq
        omega
      · exact ih.mp (by omega) q hq
    · intro hall
      have hthree := hall part List.mem_cons_self
      have hothers := ih.mpr fun q hq => hall q (List.mem_cons_of_mem _ hq)
      omega

end Sizes

end SmokeBench.Text.Utf8
