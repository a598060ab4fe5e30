import Mathlib.Data.List.Forall2
import Mathlib.Data.List.Infix
import SmokeBench.Proofs.Decoding
import SmokeBench.Proofs.Places
import SmokeBench.Proofs.ScopeNames
import SmokeBench.Proofs.TextSearch

/-! Rendered arguments. Each occurrence of the token is replaced from left to right, and replacing
could make a token anew where the text around it meets what was put in. It does not: a root is
absolute, and no token reaches over its first separator; so a token would begin in the root and end
behind it, and the names of scopes end in letters that no token begins with. -/

namespace SmokeBench

namespace Text

section Replaced

variable {token replacement text result : List Char}

/-- A text with the token replaced from left to right. Nothing that stands before an occurrence
reaches into an earlier one, and what was put in is not looked at again. -/
inductive Replaced (token replacement : List Char) : List Char → List Char → Prop
  | rest {text : List Char} (none : ¬ token <:+: text) : Replaced token replacement text text
  | next {before text result : List Char} (first : ¬ token <:+: before ++ token.dropLast)
      (h : Replaced token replacement text result) :
      Replaced token replacement (before ++ (token ++ text)) (before ++ (replacement ++ result))

theorem not_infix_dropLast (h : token ≠ []) : ¬ token <:+: token.dropLast := by
  intro hwithin
  have hlength := hwithin.length_le
  have hpos := List.length_pos_iff.mpr h
  rw [List.length_dropLast] at hlength
  omega

theorem not_prefix_of_first {c : Char} {before : List Char}
    (h : ¬ token <:+: c :: before ++ token.dropLast) (after : List Char) :
    ¬ token <+: c :: before ++ (token ++ after) := by
  intro hstarts
  by_cases hne : token = []
  · exact h (hne ▸ List.nil_infix)
  refine h (List.IsPrefix.isInfix ?_)
  have hcut : c :: before ++ token.dropLast <+: c :: before ++ (token ++ after) :=
    (List.prefix_append_right_inj _).mpr
      ((List.dropLast_prefix token).trans (List.prefix_append _ _))
  refine List.prefix_of_prefix_length_le hstarts hcut ?_
  rw [List.length_append, List.length_cons, List.length_dropLast]
  omega

theorem exists_first (hne : token ≠ []) (h : token <:+: text) :
    ∃ before after, text = before ++ (token ++ after) ∧ ¬ token <:+: before ++ token.dropLast := by
  induction text with
  | nil => exact absurd (List.infix_nil.mp h) hne
  | cons c rest ih =>
    by_cases hhere : token <+: c :: rest
    · obtain ⟨after, hafter⟩ := hhere
      exact ⟨[], after, hafter.symm, not_infix_dropLast hne⟩
    · obtain ⟨before, after, rfl, hfirst⟩ := ih ((List.infix_cons_iff.mp h).resolve_left hhere)
      refine ⟨c :: before, after, rfl, fun hwithin => ?_⟩
      rcases List.infix_cons_iff.mp hwithin with hstarts | hrest
      · refine hhere (hstarts.trans ?_)
        exact (List.prefix_append_right_inj (c :: before)).mpr
          ((List.dropLast_prefix token).trans (List.prefix_append _ _))
      · exact hfirst hrest

theorem replaceFrom_done (skip : Nat) (done text : List Char) :
    replaceFrom token replacement skip done text =
      done.reverse ++ replaceFrom token replacement skip [] text := by
  induction text generalizing skip done with
  | nil => simp [replaceFrom]
  | cons c rest ih =>
    cases skip with
    | succ skip => exact ih skip done
    | zero =>
      unfold replaceFrom
      dsimp only
      split
      · rw [ih _ (replacement.reverse ++ done), ih _ (replacement.reverse ++ [])]
        simp
      · rw [ih _ (c :: done), ih _ [c]]
        simp

theorem replaceFrom_first {before : List Char} (hne : token ≠ [])
    (h : ¬ token <:+: before ++ token.dropLast) (done after : List Char) :
    replaceFrom token replacement 0 done (before ++ (token ++ after)) =
      done.reverse ++ (before ++ (replacement ++ replaceFrom token replacement 0 [] after)) := by
  induction before generalizing done with
  | nil =>
    rw [List.nil_append, replaceFrom_token hne, replaceFrom_done]
    simp
  | cons c before ih =>
    have hnot : token.isPrefixOf (c :: (before ++ (token ++ after))) = false := by
      rw [← Bool.not_eq_true, List.isPrefixOf_iff_prefix]
      exact not_prefix_of_first h after
    have hrest : ¬ token <:+: before ++ token.dropLast :=
      fun hwithin => h (hwithin.trans (List.suffix_cons c _).isInfix)
    rw [List.cons_append, replaceFrom]
    simp only [hnot, Bool.false_eq_true, if_false]
    rw [ih hrest]
    simp

theorem replaceFrom_replaced (hne : token ≠ []) (text : List Char) :
    Replaced token replacement text (replaceFrom token replacement 0 [] text) := by
  induction hn : text.length using Nat.strong_induction_on generalizing text with
  | _ n ih =>
    by_cases h : token <:+: text
    · obtain ⟨before, after, rfl, hfirst⟩ := exists_first hne h
      rw [replaceFrom_first hne hfirst]
      have hpos := List.length_pos_iff.mpr hne
      rw [List.length_append, List.length_append] at hn
      exact .next hfirst (ih after.length (by omega) after rfl)
    · rw [ replaceFrom_of_not_infix h]
      exact .rest h

theorem not_lt_of_first {before before' after after' : List Char}
    (heq : before ++ (token ++ after) = before' ++ (token ++ after'))
    (h : ¬ token <:+: before' ++ token.dropLast) : ¬ before.length < before'.length := by
  intro hlt
  have hcut : before ++ token <+: before' ++ (token ++ after') := by
    rw [← heq, ← List.append_assoc]
    exact List.prefix_append _ _
  have hfirst : before' ++ token.dropLast <+: before' ++ (token ++ after') :=
    (List.prefix_append_right_inj _).mpr
      ((List.dropLast_prefix token).trans (List.prefix_append _ _))
  refine h ((List.suffix_append before token).isInfix.trans (List.IsPrefix.isInfix ?_))
  refine List.prefix_of_prefix_length_le hcut hfirst ?_
  rw [List.length_append, List.length_append, List.length_dropLast]
  omega

theorem Replaced.unique {result' : List Char} (h : Replaced token replacement text result)
    (h' : Replaced token replacement text result') : result = result' := by
  induction h generalizing result' with
  | rest hnone =>
    cases h' with
    | rest => rfl
    | next => exact absurd (List.infix_append' _ _ _) hnone
  | @next before text result hfirst h ih =>
    generalize htext : before ++ (token ++ text) = whole at h'
    cases h' with
    | rest hnone => exact absurd (htext ▸ List.infix_append' _ _ _) hnone
    | @next before' text' result' hfirst' h' =>
      have hlength : before.length = before'.length :=
        Nat.le_antisymm (Nat.not_lt.mp (not_lt_of_first htext.symm hfirst))
          (Nat.not_lt.mp (not_lt_of_first htext hfirst'))
      obtain ⟨rfl, hrest⟩ := List.append_inj htext hlength
      obtain rfl := List.append_cancel_left hrest
      rw [ih h']

theorem replaceToken_iff {token replacement text : String} (hne : token ≠ "") (cs : List Char) :
    Replaced token.toList replacement.toList text.toList cs ↔
      cs = (replaceToken token replacement text).toList := by
  have hreplaced : Replaced token.toList replacement.toList text.toList
      (replaceToken token replacement text).toList := by
    rw [replaceToken, String.toList_ofList]
    exact replaceFrom_replaced (by simpa using hne) _
  constructor
  · exact fun h => h.unique hreplaced
  · rintro rfl
    exact hreplaced

/-- What a token does not contain, it does not reach over. -/
theorem infix_around {c : Char} (hc : c ∉ token) {before after : List Char}
    (h : token <:+: before ++ c :: after) : token <:+: before ∨ token <:+: after := by
  have hstart {part rest : List Char} (hpart : part <+: c :: rest) (hsub : part ⊆ token) :
      part = [] := by
    rcases List.prefix_cons_iff.mp hpart with hnil | ⟨more, rfl, -⟩
    · exact hnil
    · exact absurd (hsub List.mem_cons_self) hc
  rcases List.infix_append_iff_ne_nil.mp h with hbefore | hafter | ⟨u, v, -, hv, rfl, -, hstarts⟩
  · exact .inl hbefore
  · rcases List.infix_cons_iff.mp hafter with hstarts | hafter
    · rw [hstart hstarts (List.Subset.refl _)]
      exact .inl List.nil_infix
    · exact .inr hafter
  · exact absurd (hstart hstarts (List.subset_append_right _ _)) hv

/-- A replacement that starts with what no token contains, has no token in it and does not end in the
beginning of one leaves no token anywhere. -/
theorem Replaced.free {c : Char} {tail : List Char} (hc : c ∉ token)
    (happart : ¬ token <:+: c :: tail)
    (hclosed : ∀ part, part ≠ [] → part ≠ token → part <+: token → ¬ part <:+ c :: tail)
    (h : Replaced token (c :: tail) text result) : ¬ token <:+: result := by
  induction h with
  | rest hnone => exact hnone
  | @next before text result hfirst h ih =>
    rw [List.cons_append]
    intro hwithin
    rcases infix_around hc hwithin with hbefore | hbehind
    · exact hfirst (hbefore.trans (List.prefix_append _ _).isInfix)
    · rcases List.infix_append_iff_ne_nil.mp hbehind with
        htail | hresult | ⟨u, v, hu, hv, htoken, hsuffix, -⟩
      · exact happart (htail.trans (List.suffix_cons _ _).isInfix)
      · exact ih hresult
      · refine hclosed u hu ?_ ⟨v, htoken.symm⟩ (hsuffix.trans (List.suffix_cons _ _))
        rintro rfl
        exact hv (List.append_right_eq_self.mp htoken.symm)

end Replaced

namespace Utf8

theorem suffix_lead (read : List (Option Char)) (b : UInt8) : read <:+ (lead read b).read := by
  unfold lead
  dsimp only
  split_ifs <;> first | exact List.suffix_cons _ _ | exact List.suffix_refl _

theorem suffix_feed (s : Scan) (b : UInt8) : s.read <:+ (s.feed b).read := by
  unfold Scan.feed
  split
  · exact suffix_lead _ _
  · dsimp only
    split_ifs
    · exact List.suffix_cons _ _
    · exact List.suffix_refl _
    · exact (List.suffix_cons _ _).trans (suffix_lead _ _)

theorem suffix_foldl (s : Scan) (b : Bytes) : s.read <:+ (b.foldl Scan.feed s).read := by
  induction b generalizing s with
  | nil => exact List.suffix_refl _
  | cons x rest ih => exact (suffix_feed s x).trans (ih (s.feed x))

theorem prefix_finish (s : Scan) : s.read.reverse <+: s.finish := by
  unfold Scan.finish
  split
  · exact List.prefix_refl _
  · rw [List.reverse_cons]
    exact List.prefix_append _ _

theorem lossy_slash (b : Bytes) : ∃ rest, (lossy (Bytes.slash :: b)).toList = '/' :: rest := by
  obtain ⟨rest, hrest⟩ : [some '/'] <+: scan (Bytes.slash :: b) := by
    have hread : [some '/'] <:+ (b.foldl Scan.feed (Scan.start.feed Bytes.slash)).read :=
      suffix_foldl (Scan.start.feed Bytes.slash) b
    exact (List.reverse_prefix.mpr hread).trans (prefix_finish _)
  refine ⟨rest.map (·.getD '\uFFFD'), ?_⟩
  rw [lossy, String.toList_ofList, ← hrest]
  rfl

/-- An unfinished character goes on with no byte of ASCII. -/
def Scan.Beyond (s : Scan) : Prop := ∀ p ∈ s.pending, 0x80 ≤ p.low

theorem lead_beyond (read : List (Option Char)) (b : UInt8) : (lead read b).Beyond := by
  unfold lead
  dsimp only
  split_ifs <;> rintro p hp <;> cases hp <;> dsimp only <;> decide

theorem Scan.Beyond.feed (s : Scan) (b : UInt8) : (s.feed b).Beyond := by
  unfold Scan.feed
  split
  · exact lead_beyond _ _
  · dsimp only
    split_ifs
    · rintro p hp
      cases hp
    · rintro p hp
      cases hp
      dsimp only
      decide
    · exact lead_beyond _ _

theorem foldl_beyond (b : Bytes) : (b.foldl Scan.feed Scan.start).Beyond := by
  induction b using List.reverseRecOn with
  | nil =>
    rintro p hp
    cases hp
  | append_singleton b last ih =>
    rw [List.foldl_append]
    exact Scan.Beyond.feed _ last

theorem lead_ascii (read : List (Option Char)) {n : Nat} (h : n < 0x80) :
    lead read (.ofNat n) = ⟨some (Char.ofNat n) :: read, none⟩ := by
  unfold lead
  rw [toNat_ofNat (by omega)]
  exact if_pos h

theorem feed_ascii {s : Scan} (hs : s.Beyond) {n : Nat} (h : n < 0x80) :
    ∃ read, s.feed (.ofNat n) = ⟨some (Char.ofNat n) :: read, none⟩ := by
  obtain ⟨read, pending⟩ := s
  cases pending with
  | none => exact ⟨read, lead_ascii read h⟩
  | some p =>
    have hlow : ¬ (p.low ≤ UInt8.ofNat n ∧ UInt8.ofNat n ≤ p.high) := by
      rintro ⟨hle, -⟩
      have hbyte := UInt8.le_iff_toNat_le.mp (UInt8.le_trans (hs p rfl) hle)
      rw [toNat_ofNat (by omega)] at hbyte
      exact absurd hbyte (Nat.not_le_of_lt h)
    refine ⟨none :: read, ?_⟩
    unfold Scan.feed
    dsimp only
    rw [if_neg hlow]
    exact lead_ascii _ h

/-- A text that begins in ASCII is shown as it is, whatever bytes stand before it. -/
theorem lossy_append_text (b : Bytes) {c : Char} (hc : c.toNat < 0x80) (rest : List Char) :
    ∃ front, (lossy (b ++ Bytes.ofString (String.ofList (c :: rest)))).toList =
      front ++ c :: rest := by
  obtain ⟨read, hread⟩ := feed_ascii (foldl_beyond b) hc
  rw [Char.ofNat_toNat] at hread
  have hscan : scan (b ++ Bytes.ofString (String.ofList (c :: rest))) =
      read.reverse ++ some c :: rest.map some := by
    have hone := encode_one hc
    rw [Char.ofNat_toNat] at hone
    rw [scan, Bytes.ofString, String.toList_ofList, List.flatMap_cons, hone, List.foldl_append,
      List.foldl_append, List.foldl_cons, List.foldl_nil, hread, feed_text]
    simp [Scan.finish]
  refine ⟨read.reverse.map (·.getD '\uFFFD'), ?_⟩
  rw [lossy, hscan, String.toList_ofList, List.map_append, List.map_cons, List.map_map]
  exact congrArg (_ ++ c :: ·) (List.map_id rest)

end Utf8

end Text

theorem toNat_lt_of_isAlphanum {c : Char} (h : c.isAlphanum) : c.toNat < 0x80 := by
  have hlt {last : Char} (hlast : last.toNat < 0x80) (hle : c.val ≤ last.val) : c.toNat < 0x80 :=
    Nat.lt_of_le_of_lt (UInt32.le_iff_toNat_le.mp hle) hlast
  rcases Bool.or_eq_true_iff.mp h with halpha | hdigit
  · rcases Bool.or_eq_true_iff.mp halpha with hupper | hlower
    · have hz : c.val ≤ 'Z'.val := (of_decide_eq_true hupper).2
      exact hlt (by decide) hz
    · have hz : c.val ≤ 'z'.val := of_decide_eq_true (Bool.and_eq_true_iff.mp hlower).2
      exact hlt (by decide) hz
  · have hnine : c.val ≤ '9'.val := of_decide_eq_true (Bool.and_eq_true_iff.mp hdigit).2
    exact hlt (by decide) hnine

namespace Path

open Scenario (scopeToken)

theorem display_of_isAbsolute {p : Path} (h : p.isAbsolute) :
    ∃ rest, p.display.toList = '/' :: rest := by
  obtain ⟨b⟩ := p
  cases b with
  | nil => cases h
  | cons first rest =>
    obtain rfl : first = Bytes.slash := by simpa [isAbsolute] using h
    exact Text.Utf8.lossy_slash rest

/-- A path that is not shown with the beginning of a token at its end. -/
def EndsApart (p : Path) : Prop :=
  ∀ part, part ≠ [] → part ≠ scopeToken.toList → part <+: scopeToken.toList →
    ¬ part <:+ p.display.toList

instance (p : Path) : Decidable p.EndsApart :=
  decidable_of_iff (∀ part ∈ scopeToken.toList.inits, part ≠ [] → part ≠ scopeToken.toList →
    ¬ part <:+ p.display.toList)
    ⟨fun h part hne hpart hbegins => h part ((List.mem_inits _ _).mpr hbegins) hne hpart,
      fun h part hmem hne hpart => h part hne hpart ((List.mem_inits _ _).mp hmem)⟩

theorem endsApart_of_drawn {namePrefix suffix : String} (h : RandomName suffix) (base : Path) :
    (base.join (.ofString (namePrefix ++ suffix))).EndsApart := by
  obtain ⟨hlength, hletters⟩ := h
  rw [← String.length_toList] at hlength
  have hplain : ∀ c ∈ suffix.toList, c.isAlphanum = true := List.all_eq_true.mp hletters
  obtain ⟨c, rest, hsuffix⟩ : ∃ c rest, suffix.toList = c :: rest :=
    List.exists_cons_of_ne_nil fun hnil => by rw [hnil] at hlength; cases hlength
  obtain ⟨front, hfront⟩ : ∃ front,
      (base.join (.ofString (namePrefix ++ suffix))).display.toList = front ++ suffix.toList := by
    obtain ⟨before, hbefore⟩ := exists_join_eq base (.ofString (namePrefix ++ suffix))
    have hbytes : (base.join (.ofString (namePrefix ++ suffix))).bytes =
        before ++ Bytes.ofString namePrefix ++ Bytes.ofString (String.ofList (c :: rest)) := by
      rw [hbefore, ofString, Bytes.ofString_append, List.append_assoc, ← hsuffix,
        String.ofList_toList]
    have hascii : c.toNat < 0x80 := toNat_lt_of_isAlphanum (hplain c (hsuffix ▸ List.mem_cons_self))
    rw [display, hbytes, hsuffix]
    exact Text.Utf8.lossy_append_text _ hascii rest
  intro part hne hpart hbegins hends
  have hbrace : '\x7b' ∈ part := by
    rcases List.prefix_cons_iff.mp hbegins with hnil | ⟨more, rfl, -⟩
    · exact absurd hnil hne
    · exact List.mem_cons_self
  have hshort : part.length ≤ 6 := by
    have hle := hbegins.length_le
    have hseven : scopeToken.toList.length = 7 := by decide
    have hnot : part.length ≠ 7 := fun heq =>
      hpart (hbegins.eq_of_length (heq.trans hseven.symm))
    omega
  rw [hfront] at hends
  have hin : part <:+ suffix.toList :=
    List.suffix_of_suffix_length_le hends (List.suffix_append _ _) (by omega)
  exact absurd (hplain _ (hin.subset hbrace)) (by decide)

end Path

namespace Scope

variable {σ : Type} {host : Host σ}

theorem create_gives_apart (parent : Option Path) (namePrefix : String) :
    (create parent namePrefix).Gives (fun made => ∀ scope, made = .ok scope →
      scope.root.isAbsolute ∧ scope.root.EndsApart) Request.Regular := by
  have hsome (p : Path) : (create (some p) namePrefix).Gives (fun made => ∀ scope,
      made = .ok scope → scope.root.isAbsolute ∧ scope.root.EndsApart) Request.Regular := by
    refine (create_draws p namePrefix).mono ?_
    intro made hdrawn scope hmade
    obtain ⟨base, hground, hroot⟩ := hdrawn scope hmade
    obtain ⟨suffix, hsuffix, heq⟩ := hroot _ rfl
    rw [heq]
    exact ⟨Path.isAbsolute_join hground.1 _, Path.endsApart_of_drawn hsuffix base⟩
  cases parent with
  | some p => exact hsome p
  | none => exact Dialogue.Gives.bind (Dialogue.Gives.anything systemParent) fun p _ => hsome p

end Scope

namespace Scenario

/-- A root that can be put in for the token. -/
structure Insertable (root : Path) : Prop where
  absolute : root.isAbsolute
  apart : ¬ Text.contains root.display scopeToken
  ends : root.EndsApart

/-- What an argument is rendered to: the one text with each token replaced from left to right. -/
structure Renders (root : Path) (template arg : String) : Prop where
  replaced : ∀ cs, Text.Replaced scopeToken.toList root.display.toList template.toList cs ↔
    cs = arg.toList
  kept : ¬ Text.contains template scopeToken → arg = template
  free : ¬ Text.contains arg scopeToken

theorem renders {root : Path} (h : Insertable root) (template : String) :
    Renders root template (Text.replaceToken scopeToken root.display template) where
  replaced cs := Text.replaceToken_iff (by decide) cs
  kept hnone := Text.replaceToken_of_not_contains hnone
  free := by
    have hreplaced : Text.Replaced scopeToken.toList root.display.toList template.toList
        (Text.replaceToken scopeToken root.display template).toList :=
      (Text.replaceToken_iff (by decide) _).mpr rfl
    obtain ⟨rest, hrest⟩ := Path.display_of_isAbsolute h.absolute
    have happart := h.apart
    have hends := h.ends
    rw [Path.EndsApart] at hends
    rw [Text.contains_iff] at happart ⊢
    rw [hrest] at hreplaced happart hends
    exact hreplaced.free (by decide) happart hends

/-- Rendering puts the root in for each token, from left to right, changes nothing else and leaves no
token, not even where a template meets the root. The root of a scope that was created is absolute and
does not end in the beginning of a token. -/
theorem renderArgs_leaves_no_token :
    (∀ (s : Scenario) (root : Path), Insertable root →
      (s.renderArgs (some root)).length = s.args.length ∧
      List.Forall₂ (Renders root) s.args (s.renderArgs (some root))) ∧
    ∀ {σ : Type} (host : Host σ) (st : σ) (parent : Option Path) (namePrefix : String)
      (scope : Scope), (∀ r x, Request.Regular r (host.answer r x).1) →
      ((Scope.create parent namePrefix).run host st).1 = .ok scope →
      (Insertable scope.root ↔ ¬ Text.contains scope.root.display scopeToken) := by
  constructor
  · intro s root h
    refine ⟨List.length_map _, ?_⟩
    rw [renderArgs, List.forall₂_map_right_iff, List.forall₂_same]
    exact fun template _ => renders h template
  · intro σ host st parent namePrefix scope hhost hcreated
    obtain ⟨habsolute, hends⟩ :=
      (Scope.create_gives_apart parent namePrefix).run host hhost st scope hcreated
    exact ⟨Insertable.apart, fun happart => ⟨habsolute, happart, hends⟩⟩

/-- Arguments that would hold a token again behind a root without its separator. -/
def seams : Scenario :=
  .bounded "Seams" "seams" ⟨"daemon", .ofString "/bin"⟩
    ["\x7bsco\x7bscope\x7d", "\x7b\x7bscope\x7d\x7bscope\x7dcope\x7d", "--version"] .zero
    fun _ => pure (.ok [])

theorem renderArgs_leaves_no_token_pe :
    Insertable (.ofString "/pe\x7d") ∧
    seams.renderArgs (some (.ofString "/pe\x7d")) =
      ["\x7bsco/pe\x7d", "\x7b/pe\x7d/pe\x7dcope\x7d", "--version"] ∧
    List.Forall₂ (Renders (.ofString "/pe\x7d")) seams.args
      (seams.renderArgs (some (.ofString "/pe\x7d"))) ∧
    (∀ r x, Request.Regular r (Host.drawing.answer r x).1) ∧
    Insertable (.ofString "/home/bench/scopes/it_aB3dE9") := by
  have hroot : Insertable (.ofString "/pe\x7d") :=
    ⟨by decide +kernel, by decide +kernel, by decide +kernel⟩
  have hcreated : ((Scope.create (some (.ofString "scopes")) "it_").run .drawing ()).1 =
      .ok ⟨.ofString "/home/bench/scopes/it_aB3dE9", true⟩ := by
    decide +kernel
  exact ⟨hroot, by decide +kernel, (renderArgs_leaves_no_token.1 seams _ hroot).2,
    Host.drawing_regular,
    (renderArgs_leaves_no_token.2 .drawing () _ _ _ Host.drawing_regular hcreated).mpr
      (by decide +kernel)⟩

end Scenario

end SmokeBench
