import Mathlib.Algebra.Group.Nat.Defs
import SmokeBench.Proofs.Decoding
import SmokeBench.Proofs.PositiveTimes
import SmokeBench.Proofs.Trimming

/-! Which environments settings are read from. A variable that is set fits if it is a text with
something in it, the timeout if it is also a numeral in range. The variables are read one after the
other, so either all of them fit and the settings hold their values, or the first that does not fit
is told with what is wrong with it. -/

namespace SmokeBench

open Text (Trimmed AllBlank)

theorem Bytes.ofString_injective : Function.Injective Bytes.ofString := by
  intro s t h
  have hread := Text.Utf8.strict_ofString s
  rw [h, Text.Utf8.strict_ofString] at hread
  exact (Option.some.inj hread).symm

namespace EnvironmentSettings

/-- Digits after at most one plus sign, and the number they make. -/
inductive Numeral : List Char → Nat → Prop
  | plain {digits : List Char} (hsome : digits ≠ []) (hdigits : ∀ c ∈ digits, c.isDigit = true) :
      Numeral digits (Nat.ofDigitChars 10 digits 0)
  | signed {digits : List Char} (hsome : digits ≠ []) (hdigits : ∀ c ∈ digits, c.isDigit = true) :
      Numeral ('+' :: digits) (Nat.ofDigitChars 10 digits 0)

theorem isDigit_iff (c : Char) : c.isDigit = true ↔ '0' ≤ c ∧ c ≤ '9' := by
  rw [Char.isDigit, Bool.and_eq_true, decide_eq_true_eq, decide_eq_true_eq]
  rfl

def digitStep (found : Option Nat) (c : Char) : Option Nat :=
  found.bind fun n => if '0' ≤ c ∧ c ≤ '9' then some (n * 10 + (c.toNat - 48)) else .none

theorem foldl_digitStep_none (cs : List Char) : cs.foldl digitStep .none = .none := by
  induction cs with
  | nil => rfl
  | cons c rest ih => exact ih

theorem foldl_digitStep_iff {cs : List Char} {m n : Nat} : cs.foldl digitStep (some m) = some n ↔
    (∀ c ∈ cs, c.isDigit = true) ∧ n = Nat.ofDigitChars 10 cs m := by
  induction cs generalizing m with
  | nil => exact ⟨fun h => ⟨nofun, (Option.some.inj h).symm⟩, fun h => congrArg some h.2.symm⟩
  | cons c rest ih =>
    rw [List.foldl_cons, List.forall_mem_cons, isDigit_iff, Nat.ofDigitChars_cons]
    by_cases hc : '0' ≤ c ∧ c ≤ '9'
    · have hstep : digitStep (some m) c = some (10 * m + (c.toNat - '0'.toNat)) := by
        rw [Nat.mul_comm]
        exact if_pos hc
      rw [hstep, ih, and_iff_right hc]
    · have hstep : digitStep (some m) c = .none := if_neg hc
      rw [hstep, foldl_digitStep_none]
      exact iff_of_false nofun fun h => hc h.1.1

theorem digitsValue_iff {cs : List Char} {n : Nat} : digitsValue cs = some n ↔
    cs ≠ [] ∧ (∀ c ∈ cs, c.isDigit = true) ∧ n = Nat.ofDigitChars 10 cs 0 := by
  cases cs with
  | nil => simp [digitsValue]
  | cons c rest =>
    rw [← foldl_digitStep_iff]
    exact (and_iff_right (List.cons_ne_nil c rest)).symm

theorem bounded_iff {m n : Nat} : (if m < Nat.pow 2 64 then some m else .none) = some n ↔
    some m = some n ∧ n < 2 ^ 64 := by
  rw [Option.ite_none_right_eq_some, and_comm]
  exact and_congr_right fun h => Option.some.inj h ▸ Iff.rfl

theorem countOf_signed_iff {digits : List Char} {n : Nat} :
    countOf ('+' :: digits) = some n ↔ digitsValue digits = some n ∧ n < 2 ^ 64 := by
  rw [countOf]
  cases digitsValue digits with
  | none => simp
  | some m => exact bounded_iff

theorem countOf_plain_iff {cs : List Char} (hsign : ∀ digits, cs ≠ '+' :: digits) {n : Nat} :
    countOf cs = some n ↔ digitsValue cs = some n ∧ n < 2 ^ 64 := by
  unfold countOf
  split
  · exact absurd rfl (hsign _)
  · dsimp only
    cases digitsValue cs with
    | none => simp
    | some m => exact bounded_iff

theorem countOf_iff {cs : List Char} {n : Nat} :
    countOf cs = some n ↔ Numeral cs n ∧ n < 2 ^ 64 := by
  by_cases hsign : ∃ digits, cs = '+' :: digits
  · obtain ⟨digits, rfl⟩ := hsign
    rw [countOf_signed_iff, digitsValue_iff]
    refine and_congr_left' ⟨?_, fun h => ?_⟩
    · rintro ⟨hsome, hdigits, rfl⟩
      exact .signed hsome hdigits
    · cases h with
      | plain _ hdigits => exact absurd (hdigits '+' List.mem_cons_self) (by decide)
      | signed hsome hdigits => exact ⟨hsome, hdigits, rfl⟩
  · have hplain : ∀ digits, cs ≠ '+' :: digits := fun digits heq => hsign ⟨digits, heq⟩
    rw [countOf_plain_iff hplain, digitsValue_iff]
    refine and_congr_left' ⟨?_, fun h => ?_⟩
    · rintro ⟨hsome, hdigits, rfl⟩
      exact .plain hsome hdigits
    · cases h with
      | plain hsome hdigits => exact ⟨hsome, hdigits, rfl⟩
      | signed => exact absurd rfl (hplain _)

/-- The number that a text tells, with blanks around it. -/
def Tells (text : String) (n : Nat) : Prop := ∃ kept, Trimmed text.toList kept ∧ Numeral kept n

theorem tells_iff {text : String} {n : Nat} :
    Tells text n ↔ Numeral (Text.trimChars text.toList) n := by
  constructor
  · rintro ⟨kept, hkept, hn⟩
    rwa [Text.trimChars_eq_iff.mpr hkept]
  · exact fun h => ⟨_, Text.trimChars_eq_iff.mp rfl, h⟩

theorem countOf_trim_iff {text : String} {n : Nat} :
    countOf (Text.trimChars text.toList) = some n ↔ Tells text n ∧ n < 2 ^ 64 := by
  rw [countOf_iff, tells_iff]

/-- What a variable may be set to. -/
def Fits (key : EnvironmentKey) (raw : Bytes) : Prop :=
  ∃ text, raw = Bytes.ofString text ∧ ¬ AllBlank text.toList ∧
    (key = .timeoutSeconds → ∃ n, Tells text n ∧ 0 < n ∧ n < 2 ^ 64)

/-- What can be wrong with a variable, and how it is told. -/
inductive Fault (key : EnvironmentKey) : Bytes → String → Prop
  | noText {raw : Bytes} (h : ∀ text, raw ≠ Bytes.ofString text) :
      Fault key raw "must be valid UTF-8"
  | blank {text : String} (h : AllBlank text.toList) :
      Fault key (Bytes.ofString text) "must not be empty"
  | noCount {text : String} (hkey : key = .timeoutSeconds) (h : ∀ n < 2 ^ 64, ¬ Tells text n) :
      Fault key (Bytes.ofString text) "must be a positive integer number of seconds"
  | zero {text : String} (hkey : key = .timeoutSeconds) (h : Tells text 0) :
      Fault key (Bytes.ofString text) "must be greater than zero"

def told (key : EnvironmentKey) (reason : String) : SettingsError :=
  .environment s!"{key.name} {reason}"

theorem Fault.not_fits {key : EnvironmentKey} {raw : Bytes} {reason : String}
    (h : Fault key raw reason) : ¬ Fits key raw := by
  rintro ⟨text, htext, hvisible, hcount⟩
  cases h with
  | noText h => exact h text htext
  | blank h =>
    cases Bytes.ofString_injective htext
    exact hvisible h
  | noCount hkey h =>
    cases Bytes.ofString_injective htext
    obtain ⟨n, hn, -, hlt⟩ := hcount hkey
    exact h n hlt hn
  | zero hkey h =>
    cases Bytes.ofString_injective htext
    obtain ⟨n, hn, hpos, hlt⟩ := hcount hkey
    have hzero := countOf_trim_iff.mpr ⟨h, by decide⟩
    rw [countOf_trim_iff.mpr ⟨hn, hlt⟩] at hzero
    exact Nat.ne_of_gt hpos (Option.some.inj hzero)

/-- Of these variables the first that does not fit, and how it is told. -/
def Refused (value : EnvironmentKey → Option Bytes) (keys : List EnvironmentKey)
    (e : SettingsError) : Prop :=
  ∃ before key after raw reason, keys = before ++ key :: after ∧
    (∀ k ∈ before, ∀ b ∈ value k, Fits k b) ∧ raw ∈ value key ∧ Fault key raw reason ∧
      e = told key reason

theorem refused_one {value : EnvironmentKey → Option Bytes} {key : EnvironmentKey} {raw : Bytes}
    {reason : String} (hvalue : value key = some raw) (hfault : Fault key raw reason) :
    Refused value [key] (told key reason) :=
  ⟨[], key, [], raw, reason, rfl, nofun, hvalue, hfault, rfl⟩

/-- These variables are read one after the other: all fit and give what they should, or the first
that does not fit is told. -/
def Reads {α : Type} (value : EnvironmentKey → Option Bytes) (keys : List EnvironmentKey)
    (gives : α → Prop) : Except SettingsError α → Prop
  | .ok a => (∀ k ∈ keys, ∀ raw ∈ value k, Fits k raw) ∧ gives a
  | .error e => Refused value keys e

namespace Reads

variable {α β : Type} {value : EnvironmentKey → Option Bytes} {keys more : List EnvironmentKey}
  {gives : α → Prop} {then_gives : β → Prop} {x : Except SettingsError α}
  {f : α → Except SettingsError β}

theorem bind (h : Reads value keys gives x)
    (hf : ∀ a, gives a → Reads value more then_gives (f a)) :
    Reads value (keys ++ more) then_gives (x >>= f) := by
  cases x with
  | error e =>
    obtain ⟨before, key, after, raw, reason, rfl, hbefore⟩ := h
    exact ⟨before, key, after ++ more, raw, reason, by simp, hbefore⟩
  | ok a =>
    obtain ⟨hkeys, ha⟩ := h
    have hnext := hf a ha
    change Reads value (keys ++ more) then_gives (f a)
    cases hfa : f a with
    | error e =>
      rw [hfa] at hnext
      obtain ⟨before, key, after, raw, reason, rfl, hbefore, hrest⟩ := hnext
      refine ⟨keys ++ before, key, after, raw, reason, by simp, ?_, hrest⟩
      exact List.forall_mem_append.mpr ⟨hkeys, hbefore⟩
    | ok b =>
      rw [hfa] at hnext
      exact ⟨List.forall_mem_append.mpr ⟨hkeys, hnext.1⟩, hnext.2⟩

theorem pure {a : α} (h : gives a) : Reads value [] gives (.ok a) := ⟨nofun, h⟩

theorem ok_iff (h : Reads value keys gives x) :
    (∃ a, x = .ok a) ↔ ∀ k ∈ keys, ∀ raw ∈ value k, Fits k raw := by
  cases x with
  | ok a => exact iff_of_true ⟨a, rfl⟩ h.1
  | error e =>
    obtain ⟨before, key, after, raw, reason, rfl, -, hraw, hfault, -⟩ := h
    refine iff_of_false nofun fun hfits => hfault.not_fits (hfits key ?_ raw hraw)
    exact List.mem_append_right _ List.mem_cons_self

end Reads

theorem textOf_cases (key : EnvironmentKey) (raw : Bytes) :
    (∃ reason, Fault key raw reason ∧ textOf key (some raw) = .error (told key reason)) ∨
      ∃ text, raw = Bytes.ofString text ∧ ¬ AllBlank text.toList ∧
        textOf key (some raw) = .ok (some text) := by
  unfold textOf told
  dsimp only
  cases hread : Text.Utf8.strict raw with
  | none =>
    refine .inl ⟨_, .noText fun text htext => ?_, by rw [String.append_assoc]; rfl⟩
    rw [htext, Text.Utf8.strict_ofString] at hread
    cases hread
  | some text =>
    obtain rfl := Text.Utf8.strict_eq_some_iff.mp hread
    by_cases hblank : AllBlank text.toList
    · refine .inl ⟨_, .blank hblank, ?_⟩
      rw [String.append_assoc]
      exact if_pos (Text.blank_iff.mpr hblank)
    · exact .inr ⟨text, rfl, hblank, if_neg (mt Text.blank_iff.mp hblank)⟩

theorem secondsOf_cases (text : String) :
    (∃ reason, Fault .timeoutSeconds (Bytes.ofString text) reason ∧
      secondsOf .timeoutSeconds text = .error (told .timeoutSeconds reason)) ∨
    ∃ n, Tells text n ∧ 0 < n ∧ n < 2 ^ 64 ∧ secondsOf .timeoutSeconds text = .ok (.ofSecs n) := by
  unfold secondsOf
  cases hcount : countOf (Text.trimChars text.toList) with
  | none =>
    refine .inl ⟨_, .noCount rfl fun n hlt hn => ?_, rfl⟩
    rw [countOf_trim_iff.mpr ⟨hn, hlt⟩] at hcount
    cases hcount
  | some n =>
    obtain ⟨htells, hlt⟩ := countOf_trim_iff.mp hcount
    cases n with
    | zero => exact .inl ⟨_, .zero rfl htells, rfl⟩
    | succ n => exact .inr ⟨n + 1, htells, n.succ_pos, hlt, rfl⟩

variable {value : EnvironmentKey → Option Bytes}

theorem pathOf_reads {key : EnvironmentKey} (hkey : key ≠ .timeoutSeconds) :
    Reads value [key] (fun path => path.map (·.bytes) = value key) (pathOf key (value key)) := by
  unfold pathOf
  cases hvalue : value key with
  | none => exact ⟨by simp [hvalue], rfl⟩
  | some raw =>
    rcases textOf_cases key raw with ⟨reason, hfault, htold⟩ | ⟨text, rfl, hvisible, hread⟩
    · rw [htold]
      exact refused_one hvalue hfault
    · have hfits : Fits key (Bytes.ofString text) :=
        ⟨text, rfl, hvisible, fun h => absurd h hkey⟩
      rw [hread]
      refine ⟨?_, rfl⟩
      simpa [hvalue] using hfits

/-- What the timeout is for the value of its variable. -/
inductive TimeoutGiven : Option Bytes → Option Duration → Prop
  | unset : TimeoutGiven .none .none
  | set {text : String} {n : Nat} (h : Tells text n) :
      TimeoutGiven (some (Bytes.ofString text)) (some (.ofSecs n))

theorem timeoutOf_reads : Reads value [.timeoutSeconds] (TimeoutGiven (value .timeoutSeconds))
    (timeoutOf (value .timeoutSeconds)) := by
  unfold timeoutOf
  cases hvalue : value .timeoutSeconds with
  | none => exact ⟨by simp [hvalue], .unset⟩
  | some raw =>
    rcases textOf_cases .timeoutSeconds raw with
      ⟨reason, hfault, htold⟩ | ⟨text, rfl, hvisible, hread⟩
    · rw [htold]
      exact refused_one hvalue hfault
    · rw [hread]
      rcases secondsOf_cases text with ⟨reason, hfault, htold⟩ | ⟨n, htells, hpos, hlt, hseconds⟩
      · change Reads value _ _ (some <$> secondsOf .timeoutSeconds text)
        rw [htold]
        exact refused_one hvalue hfault
      · change Reads value _ _ (some <$> secondsOf .timeoutSeconds text)
        have hfits : Fits .timeoutSeconds (Bytes.ofString text) :=
          ⟨text, rfl, hvisible, fun _ => ⟨n, htells, hpos, hlt⟩⟩
        rw [hseconds]
        refine ⟨?_, .set htells⟩
        simpa [hvalue] using hfits

/-- Settings that hold what the variables say. -/
structure Given (value : EnvironmentKey → Option Bytes) (settings : EnvironmentSettings) :
    Prop where
  timeout : TimeoutGiven (value .timeoutSeconds) settings.timeout
  srcDir : settings.srcDir.map (·.bytes) = value .srcDir
  qtDir : settings.qtDir.map (·.bytes) = value .qtDir
  scopeRoot : settings.scopeRoot.map (·.bytes) = value .scopeRoot
  summaryDir : settings.summaryDir.map (·.bytes) = value .summaryDir

theorem ofValues_reads (value : EnvironmentKey → Option Bytes) :
    Reads value asked (Given value) (ofValues value) := by
  rw [ofValues_eq]
  refine timeoutOf_reads.bind fun timeout htimeout => ?_
  refine (pathOf_reads (by decide)).bind fun srcDir hsrcDir => ?_
  refine (pathOf_reads (by decide)).bind fun qtDir hqtDir => ?_
  refine (pathOf_reads (by decide)).bind fun scopeRoot hscopeRoot => ?_
  refine (pathOf_reads (by decide)).bind fun summaryDir hsummaryDir => ?_
  exact .pure ⟨htimeout, hsrcDir, hqtDir, hscopeRoot, hsummaryDir⟩

variable {σ : Type} {host : Host σ} {environment : String → Option Bytes}

def Within (host : Host σ) (environment : String → Option Bytes) : Prop :=
  ∀ name s, (host.answer (.environment name) s).1 = environment name

theorem load_within (hhost : Within host environment) (s : σ) :
    (load.run host s).1 = ofValues fun key => environment key.name := by
  obtain ⟨value, hread⟩ := load_yields host s
  have hvalue : ∀ key ∈ asked, value key = environment key.name := by
    intro key hkey
    have hmem : (⟨.environment key.name, value key⟩ : Exchange) ∈ load.journal host s := by
      rw [hread.journal]
      exact List.mem_map_of_mem hkey
    obtain ⟨t, ht⟩ := Dialogue.reply_of_mem hmem
    exact ht.trans (hhost key.name t)
  simp only [asked, List.forall_mem_cons] at hvalue
  obtain ⟨htimeout, hsrcDir, hqtDir, hscopeRoot, hsummaryDir, -⟩ := hvalue
  rw [hread.result, ofValues_eq, ofValues_eq, htimeout, hsrcDir, hqtDir, hscopeRoot, hsummaryDir]

/-- Settings are read from an environment exactly if each variable that is set is a text with
something in it and the timeout is a numeral in range. They hold the directories byte for byte and
the timeout to the second, and otherwise the first variable that does not fit is told. -/
theorem load_reads (hhost : Within host environment) (s : σ) :
    let value (key : EnvironmentKey) := environment key.name
    ((∃ settings, (load.run host s).1 = .ok settings) ↔
      ∀ key ∈ asked, ∀ raw ∈ value key, Fits key raw) ∧
    (∀ settings, (load.run host s).1 = .ok settings → Given value settings) ∧
    ∀ e, (load.run host s).1 = .error e → Refused value asked e := by
  intro value
  have hreads := ofValues_reads value
  rw [load_within hhost s]
  refine ⟨hreads.ok_iff, fun settings h => ?_, fun e h => ?_⟩
  · rw [h] at hreads
    exact hreads.2
  · rw [h] at hreads
    exact hreads

end EnvironmentSettings

def Host.within (environment : String → Option Bytes) : Host Unit where
  answer r s := match r with
    | .environment name => (environment name, s)
    | r => Host.still.answer r s

namespace EnvironmentSettings

/-- A timeout with a sign, leading zeros and blanks around it, and a directory with a blank in
front. -/
def padded (name : String) : Option Bytes :=
  if name = EnvironmentKey.timeoutSeconds.name then some (Bytes.ofString "\u3000+0030 ")
  else if name = EnvironmentKey.srcDir.name then some (Bytes.ofString " /src")
  else .none

/-- A directory that is no text, and a blank one that is read later. -/
def torn (name : String) : Option Bytes :=
  if name = EnvironmentKey.qtDir.name then some [0x2F, 0xFF]
  else if name = EnvironmentKey.scopeRoot.name then some (Bytes.ofString "  ")
  else .none

theorem load_reads_padded :
    Within (Host.within padded) padded ∧
    (load.run (Host.within padded) ()).1 =
      .ok ⟨some (.ofString " /src"), .none, some (.ofSecs 30), .none, .none⟩ ∧
    (∀ key ∈ asked, ∀ raw ∈ padded key.name, Fits key raw) ∧
    Within (Host.within torn) torn ∧
    (load.run (Host.within torn) ()).1 = .error (told .qtDir "must be valid UTF-8") ∧
    Refused (fun key => torn key.name) asked (told .qtDir "must be valid UTF-8") := by
  have hread : (load.run (Host.within padded) ()).1 =
      .ok ⟨some (.ofString " /src"), .none, some (.ofSecs 30), .none, .none⟩ := by
    decide +kernel
  have hrefused : (load.run (Host.within torn) ()).1 =
      .error (told .qtDir "must be valid UTF-8") := by
    decide +kernel
  have hpadded : Within (Host.within padded) padded := fun _ _ => rfl
  have htorn : Within (Host.within torn) torn := fun _ _ => rfl
  exact ⟨hpadded, hread, (load_reads hpadded ()).1.mp ⟨_, hread⟩, htorn, hrefused,
    (load_reads htorn ()).2.2 _ hrefused⟩

end EnvironmentSettings

end SmokeBench
