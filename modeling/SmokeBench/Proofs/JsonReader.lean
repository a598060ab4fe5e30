import Mathlib.Data.List.Basic
import Mathlib.Data.String.Basic
import SmokeBench.Summary.Canonical
import SmokeBench.Toml.Quoted

/-! Canonical JSON is read back. The reader knows blanks, every escape and integers of any size; of a
document it keeps the order of the members, so what it reads from a rendered value is this value with
the members of every object in order. Signs, fractions and the three literals it refuses, since no
value has them. -/

namespace SmokeBench.Summary.Json

/-- Reads something from the front of a text and leaves the rest. -/
abbrev Reader (α : Type) := List Char → Option (α × List Char)

def isBlank (c : Char) : Bool := c == ' ' || c == '\t' || c == '\n' || c == '\r'

def skip (cs : List Char) : List Char := cs.dropWhile isBlank

/-- A code unit in exactly `n` hexadecimal digits. -/
def codeUnit : Nat → Nat → Reader Nat
  | 0, value, cs => some (value, cs)
  | n + 1, value, c :: cs => do codeUnit n (value * 16 + (← Toml.Quoted.hexValue c)) cs
  | _ + 1, _, [] => none

/-- The second half of a character written in two code units. -/
def lowHalf (high : Nat) : Reader Char
  | '\\' :: 'u' :: rest => do
    let (low, rest) ← codeUnit 4 0 rest
    if 0xDC00 ≤ low ∧ low < 0xE000 then
      some (Char.ofNat (0x10000 + (high - 0xD800) * 0x400 + (low - 0xDC00)), rest)
    else none
  | _ => none

def escape : Reader Char
  | '"' :: rest => some ('"', rest)
  | '\\' :: rest => some ('\\', rest)
  | '/' :: rest => some ('/', rest)
  | 'b' :: rest => some ('\x08', rest)
  | 'f' :: rest => some ('\x0c', rest)
  | 'n' :: rest => some ('\n', rest)
  | 'r' :: rest => some ('\r', rest)
  | 't' :: rest => some ('\t', rest)
  | 'u' :: rest => do
    let (code, rest) ← codeUnit 4 0 rest
    if 0xD800 ≤ code ∧ code < 0xDC00 then lowHalf code rest
    else if code.isValidChar then some (Char.ofNat code, rest)
    else none
  | _ => none

def content : Nat → List Char → Reader (List Char)
  | 0, _, _ => none
  | _ + 1, _, [] => none
  | fuel + 1, done, c :: rest =>
    if c = '"' then some (done.reverse, rest)
    else if c = '\\' then do
      let (c, rest) ← escape rest
      content fuel (c :: done) rest
    else if c.toNat < 32 then none
    else content fuel (c :: done) rest

def text : Reader String
  | '"' :: rest => do
    let (cs, rest) ← content rest.length [] rest
    some (String.ofList cs, rest)
  | _ => none

def count (cs : List Char) : Option (Nat × List Char) :=
  let digits := cs.takeWhile Char.isDigit
  if digits = [] ∨ (digits.head? = some '0' ∧ digits ≠ ['0']) then none
  else some (Nat.ofDigitChars 10 digits 0, cs.dropWhile Char.isDigit)

def elements {α : Type} (element : Reader α) (close : Char) : Nat → Reader (List α)
  | 0, _ => none
  | fuel + 1, cs => do
    let (x, rest) ← element (skip cs)
    match skip rest with
    | [] => none
    | c :: rest =>
      if c = close then some ([x], rest)
      else if c = ',' then do
        let (xs, rest) ← elements element close fuel rest
        some (x :: xs, rest)
      else none

def enclosed {α : Type} (element : Reader α) (close : Char) (cs : List Char) :
    Option (List α × List Char) :=
  match skip cs with
  | [] => none
  | c :: rest =>
    if c = close then some ([], rest) else elements element close cs.length (c :: rest)

def member {α : Type} (value : Reader α) (cs : List Char) :
    Option ((String × α) × List Char) := do
  let (name, rest) ← text cs
  match skip rest with
  | ':' :: rest => do
    let (x, rest) ← value (skip rest)
    some ((name, x), rest)
  | _ => none

/-- A value that is nested less deep than the first argument. -/
def value : Nat → Reader Json
  | 0, _ => none
  | depth + 1, cs =>
    match cs with
    | '[' :: rest => do
      let (items, rest) ← enclosed (value depth) ']' rest
      some (array items, rest)
    | '\x7b' :: rest => do
      let (members, rest) ← enclosed (member (value depth)) '\x7d' rest
      some (object members, rest)
    | '"' :: _ => do
      let (s, rest) ← text cs
      some (string s, rest)
    | _ => do
      let (n, rest) ← count cs
      some (number n, rest)

/-- A document is one value with blanks around it. -/
def read (s : String) : Option Json := do
  let (j, rest) ← value s.length (skip s.toList)
  if skip rest = [] then some j else none

theorem skip_cons {c : Char} {cs : List Char} (h : isBlank c = false) : skip (c :: cs) = c :: cs := by
  rw [skip, List.dropWhile_cons_of_neg (by simp [h])]

section Text

theorem hexValue_hexDigit : ∀ n < 16, Toml.Quoted.hexValue (hexDigit n) = some n := by decide

theorem codeUnit_low {n : Nat} (h : n < 256) (rest : List Char) :
    codeUnit 4 0 ('0' :: '0' :: hexDigit (n / 16) :: hexDigit (n % 16) :: rest) =
      some (n, rest) := by
  have hzero : Toml.Quoted.hexValue '0' = some 0 := by decide
  have hhigh := hexValue_hexDigit (n / 16) (by omega)
  have hlow := hexValue_hexDigit (n % 16) (by omega)
  have hvalue : ((0 * 16 + 0) * 16 + 0) * 16 + n / 16 = n / 16 := by omega
  simp only [codeUnit, hzero, hhigh, hlow, Option.bind_eq_bind, Option.bind_some, hvalue,
    Nat.div_add_mod']

theorem escapeChar_cases (c : Char) :
    (∃ cs, escapeChar c = '\\' :: cs ∧ ∀ rest, escape (cs ++ rest) = some (c, rest)) ∨
    (escapeChar c = [c] ∧ c ≠ '"' ∧ c ≠ '\\' ∧ ¬ c.toNat < 32) := by
  have hcode {d : Char} (h : c.toNat = d.toNat) : c = d := Char.ext (UInt32.toNat_inj.mp h)
  fun_cases escapeChar c with
  | case1 h => exact .inl ⟨_, rfl, fun rest => by rw [h]; rfl⟩
  | case2 _ h => exact .inl ⟨_, rfl, fun rest => by rw [h]; rfl⟩
  | case3 _ _ h => exact .inl ⟨_, rfl, fun rest => by rw [h]; rfl⟩
  | case4 _ _ _ h => exact .inl ⟨_, rfl, fun rest => by rw [h]; rfl⟩
  | case5 _ _ _ _ h => exact .inl ⟨_, rfl, fun rest => by rw [h]; rfl⟩
  | case6 _ _ _ _ _ h => exact .inl ⟨_, rfl, fun rest => by rw [hcode (d := '\x08') h]; rfl⟩
  | case7 _ _ _ _ _ _ h => exact .inl ⟨_, rfl, fun rest => by rw [hcode (d := '\x0c') h]; rfl⟩
  | case8 _ _ _ _ _ _ _ hcontrol =>
    refine .inl ⟨_, rfl, fun rest => ?_⟩
    have hvalid : c.toNat.isValidChar := .inl (by omega)
    simp only [List.cons_append, List.nil_append, escape, codeUnit_low (by omega : c.toNat < 256),
      Option.bind_eq_bind, Option.bind_some]
    rw [if_neg (by omega), if_pos hvalid, Char.ofNat_toNat]
  | case9 hquote hslash _ _ _ _ _ hcontrol => exact .inr ⟨rfl, hquote, hslash, hcontrol⟩

theorem content_escaped (cs rest done : List Char) {fuel : Nat}
    (hfuel : (cs.flatMap escapeChar).length < fuel) :
    content fuel done (cs.flatMap escapeChar ++ '"' :: rest) = some (done.reverse ++ cs, rest) := by
  induction cs generalizing done fuel with
  | nil =>
    cases fuel with
    | zero => cases hfuel
    | succ fuel => simp [content]
  | cons c cs ih =>
    cases fuel with
    | zero => cases hfuel
    | succ fuel =>
      rw [List.flatMap_cons, List.length_append] at hfuel
      rw [List.flatMap_cons, List.append_assoc]
      rcases escapeChar_cases c with ⟨escaped, heq, hread⟩ | ⟨heq, hquote, hslash, hcontrol⟩
      · rw [heq, List.length_cons] at hfuel
        rw [heq, List.cons_append, content, if_neg (by decide), if_pos rfl, hread]
        simp [ih (c :: done) (by omega : _ < fuel)]
      · rw [heq, List.length_singleton] at hfuel
        rw [heq, List.singleton_append, content, if_neg hquote, if_neg hslash, if_neg hcontrol,
          ih (c :: done) (by omega)]
        simp

theorem text_quote (s : String) (rest : List Char) : text (quote s ++ rest) = some (s, rest) := by
  have hfuel : (s.toList.flatMap escapeChar).length <
      (s.toList.flatMap escapeChar ++ '"' :: rest).length := by
    rw [List.length_append, List.length_cons]
    omega
  simp only [quote, List.cons_append, List.append_assoc, text, Option.bind_eq_bind]
  rw [List.nil_append, content_escaped _ _ _ hfuel]
  simp

/-- A text that is escaped in other ways than it would be written. -/
example : text "\"\\ud83d\\ude00\\/\\u000A\" ,".toList = some ("😀/\n", [' ', ',']) := by decide +kernel

end Text

section Count

/-- A text that does not go on with a digit. -/
def Ends (rest : List Char) : Prop := ∀ c, rest.head? = some c → c.isDigit = false

theorem ends_cons {c : Char} {rest : List Char} (h : c.isDigit = false) : Ends (c :: rest) := by
  intro d hd
  rwa [← Option.some.inj hd]

theorem takeWhile_digits {ds rest : List Char} (hds : ∀ c ∈ ds, c.isDigit = true)
    (hrest : Ends rest) : (ds ++ rest).takeWhile Char.isDigit = ds ∧
      (ds ++ rest).dropWhile Char.isDigit = rest := by
  have hstop : rest.takeWhile Char.isDigit = [] ∧ rest.dropWhile Char.isDigit = rest := by
    cases rest with
    | nil => exact ⟨rfl, rfl⟩
    | cons c rest =>
      have hc := hrest c rfl
      simp [hc]
  rw [List.takeWhile_append_of_pos hds, List.dropWhile_append_of_pos hds, hstop.1, hstop.2,
    List.append_nil]
  exact ⟨rfl, rfl⟩

theorem head_toDigits {n : Nat} (hn : 0 < n) : (Nat.toDigits 10 n).head? ≠ some '0' := by
  induction n using Nat.strong_induction_on with
  | _ n ih =>
    by_cases hsmall : n < 10
    · have hdigit : ∀ m < 10, 0 < m → m.digitChar ≠ '0' := by decide
      rw [Nat.toDigits_of_lt_base hsmall]
      exact fun h => hdigit n hsmall hn (Option.some.inj h)
    · rw [Nat.toDigits_of_base_le (by decide) (by omega),
        List.head?_append_of_ne_nil _ Nat.toDigits_ne_nil]
      exact ih (n / 10) (by omega) (by omega)

theorem count_toString (n : Nat) {rest : List Char} (hrest : Ends rest) :
    count ((toString n).toList ++ rest) = some (n, rest) := by
  have hdigits : ∀ c ∈ Nat.toDigits 10 n, c.isDigit = true := fun c hc =>
    Nat.isDigit_of_mem_toDigits (by decide) (by decide) hc
  obtain ⟨htake, hdrop⟩ := takeWhile_digits hdigits hrest
  have hplain : ¬ (Nat.toDigits 10 n = [] ∨
      ((Nat.toDigits 10 n).head? = some '0' ∧ Nat.toDigits 10 n ≠ ['0'])) := by
    rintro (hnil | ⟨hhead, hzero⟩)
    · exact Nat.toDigits_ne_nil hnil
    · rcases Nat.eq_zero_or_pos n with rfl | hpos
      · exact hzero (Nat.toDigits_zero 10)
      · exact head_toDigits hpos hhead
  rw [Nat.toString_eq_ofList_toDigits, String.toList_ofList]
  unfold count
  dsimp only
  rw [htake, hdrop, if_neg hplain, Nat.ofDigitChars_ten_toDigits]

end Count

section Elements

variable {α β : Type} {element : Reader α} {close : Char} {write : β → List Char} {result : β → α}

/-- What begins with a character that is neither a blank nor the end of anything. -/
def Begins (cs : List Char) : Prop :=
  ∃ c rest, cs = c :: rest ∧ isBlank c = false ∧ c ≠ ']' ∧ c ≠ '\x7d'

theorem Begins.skip {cs : List Char} (h : Begins cs) (rest : List Char) :
    skip (cs ++ rest) = cs ++ rest := by
  obtain ⟨c, tail, rfl, hblank, -⟩ := h
  exact skip_cons hblank

theorem separated_cons (x : List Char) {xs : List (List Char)} (h : xs ≠ []) :
    separated (x :: xs) = x ++ ',' :: separated xs := by
  obtain ⟨y, ys, rfl⟩ := List.exists_cons_of_ne_nil h
  rfl

theorem length_le_separated {x : List Char} {xs : List (List Char)} (h : x ∈ xs) :
    x.length ≤ (separated xs).length := by
  induction xs with
  | nil => cases h
  | cons y ys ih =>
    by_cases hnil : ys = []
    · subst hnil
      rw [List.mem_singleton.mp h]
      exact Nat.le_refl _
    · rw [separated_cons y hnil, List.length_append, List.length_cons]
      rcases List.mem_cons.mp h with rfl | hmem
      · omega
      · have := ih hmem
        omega

theorem elements_separated (hclose : isBlank close = false) (hcomma : close ≠ ',')
    {xs : List β} (hne : xs ≠ []) {fuel : Nat} (hfuel : xs.length ≤ fuel) (rest : List Char)
    (h : ∀ x ∈ xs, Begins (write x) ∧ ∀ c rest, c = ',' ∨ c = close →
      element (write x ++ c :: rest) = some (result x, c :: rest)) :
    elements element close fuel (separated (xs.map write) ++ close :: rest) =
      some (xs.map result, rest) := by
  induction xs generalizing fuel with
  | nil => exact absurd rfl hne
  | cons x xs ih =>
    cases fuel with
    | zero => cases hfuel
    | succ fuel =>
      obtain ⟨hbegins, helement⟩ := h x List.mem_cons_self
      by_cases hnil : xs = []
      · subst hnil
        rw [List.map_cons, List.map_nil, separated, elements, hbegins.skip, helement _ _ (.inr rfl)]
        simp [skip_cons hclose]
      · have hmore := ih hnil (Nat.le_of_succ_le_succ hfuel) fun y hy =>
          h y (List.mem_cons_of_mem _ hy)
        rw [List.map_cons, separated_cons _ (by simpa using hnil), List.append_assoc,
          List.cons_append, elements, hbegins.skip, helement _ _ (.inl rfl)]
        simp [skip_cons (by decide : isBlank ',' = false), Ne.symm hcomma, hmore]

theorem Begins.separated {xs : List β} (hne : xs ≠ []) (h : ∀ x ∈ xs, Begins (write x)) :
    Begins (separated (xs.map write)) := by
  obtain ⟨x, xs, rfl⟩ := List.exists_cons_of_ne_nil hne
  have hx := h x List.mem_cons_self
  by_cases hnil : xs = []
  · subst hnil
    exact hx
  · obtain ⟨c, tail, heq, hplain⟩ := hx
    rw [List.map_cons, separated_cons _ (by simpa using hnil), heq]
    exact ⟨c, _, rfl, hplain⟩

theorem length_le_length_separated {xs : List β} (h : ∀ x ∈ xs, Begins (write x)) :
    xs.length ≤ (separated (xs.map write)).length := by
  induction xs with
  | nil => exact Nat.zero_le _
  | cons x xs ih =>
    obtain ⟨c, tail, heq, -⟩ := h x List.mem_cons_self
    have hrest := ih fun y hy => h y (List.mem_cons_of_mem _ hy)
    by_cases hnil : xs = []
    · subst hnil
      rw [List.map_cons, List.map_nil, Json.separated, heq]
      simp
    · rw [List.map_cons, separated_cons _ (by simpa using hnil), heq]
      simp only [List.length_cons, List.length_append]
      omega

theorem enclosed_separated (hclose : close = ']' ∨ close = '\x7d') (xs : List β)
    (rest : List Char) (h : ∀ x ∈ xs, Begins (write x) ∧ ∀ c rest, c = ',' ∨ c = close →
      element (write x ++ c :: rest) = some (result x, c :: rest)) :
    enclosed element close (separated (xs.map write) ++ close :: rest) =
      some (xs.map result, rest) := by
  have hblank : isBlank close = false := by rcases hclose with rfl | rfl <;> decide
  have hcomma : close ≠ ',' := by rcases hclose with rfl | rfl <;> decide
  by_cases hnil : xs = []
  · subst hnil
    rw [List.map_nil, Json.separated, List.nil_append, enclosed, skip_cons hblank]
    simp
  · have hall : ∀ x ∈ xs, Begins (write x) := fun x hx => (h x hx).1
    have hbegins := Begins.separated hnil hall
    have hfuel : xs.length ≤ (separated (xs.map write) ++ close :: rest).length := by
      have := length_le_length_separated hall
      rw [List.length_append]
      omega
    have hread := elements_separated hblank hcomma hnil hfuel rest h
    rw [enclosed, hbegins.skip]
    obtain ⟨c, tail, heq, -, hsquare, hcurly⟩ := hbegins
    have hne : c ≠ close := by rcases hclose with rfl | rfl <;> assumption
    rw [heq, List.cons_append] at hread ⊢
    dsimp only
    rw [if_neg hne, hread]

end Elements

theorem renderItems_eq (items : List Json) : renderItems items = items.map render := by
  induction items with
  | nil => rfl
  | cons j rest ih => rw [renderItems, ih, List.map_cons]

theorem renderMembers_eq (members : List (String × Json)) :
    renderMembers members = members.map fun m => (m.1, render m.2) := by
  induction members with
  | nil => rfl
  | cons m rest ih => rw [renderMembers, ih, List.map_cons]

def inOrder {α : Type} (members : List (String × α)) : List (String × α) :=
  members.mergeSort fun a b => decide (a.1 ≤ b.1)

theorem mem_inOrder {α : Type} {members : List (String × α)} {m : String × α} :
    m ∈ inOrder members ↔ m ∈ members := List.mem_mergeSort

theorem inOrder_map {α β : Type} (f : α → β) (members : List (String × α)) :
    inOrder (members.map fun m => (m.1, f m.2)) = (inOrder members).map fun m => (m.1, f m.2) := by
  unfold inOrder
  symm
  exact List.map_mergeSort fun _ _ _ _ => rfl

mutual

/-- A value with the members of every object in order. -/
def sorted : Json → Json
  | number n => number n
  | string s => string s
  | array items => array (sortedItems items)
  | object members => object (inOrder (sortedMembers members))

def sortedItems : List Json → List Json
  | [] => []
  | j :: rest => sorted j :: sortedItems rest

def sortedMembers : List (String × Json) → List (String × Json)
  | [] => []
  | (name, j) :: rest => (name, sorted j) :: sortedMembers rest

end

theorem sorted_array (items : List Json) : (array items).sorted = array (items.map sorted) := by
  have heq : sortedItems items = items.map sorted := by
    induction items with
    | nil => rfl
    | cons j rest ih => rw [sortedItems, ih, List.map_cons]
  rw [sorted, heq]

theorem sorted_object (members : List (String × Json)) :
    (object members).sorted = object ((inOrder members).map fun m => (m.1, m.2.sorted)) := by
  have heq : sortedMembers members = members.map fun m => (m.1, m.2.sorted) := by
    induction members with
    | nil => rfl
    | cons m rest ih => rw [sortedMembers, ih, List.map_cons]
  rw [sorted, heq, inOrder_map]

theorem render_array (items : List Json) :
    render (array items) = '[' :: (separated (items.map render) ++ [']']) := by
  rw [render, renderItems_eq]

def writeMember (m : String × Json) : List Char := quote m.1 ++ ':' :: render m.2

theorem render_object (members : List (String × Json)) :
    render (object members) =
      '\x7b' :: (separated ((inOrder members).map writeMember) ++ ['\x7d']) := by
  rw [render, renderMembers_eq]
  change '\x7b' :: (separated ((inOrder (members.map _)).map _) ++ _) = _
  rw [inOrder_map, List.map_map]
  rfl

/-- Induction on the items and on the members of a value. -/
theorem induct {P : Json → Prop} (hnumber : ∀ n, P (number n)) (hstring : ∀ s, P (string s))
    (harray : ∀ items, (∀ j ∈ items, P j) → P (array items))
    (hobject : ∀ members, (∀ m ∈ members, P m.2) → P (object members)) : ∀ j, P j
  | number n => hnumber n
  | string s => hstring s
  | array items => harray items fun j _ => induct hnumber hstring harray hobject j
  | object members => hobject members fun m hm => by
    have hmember := List.sizeOf_lt_of_mem hm
    have hvalue : sizeOf m.2 < sizeOf m := by
      obtain ⟨name, j⟩ := m
      simp only [Prod.mk.sizeOf_spec]
      omega
    exact induct hnumber hstring harray hobject m.2
  termination_by j => sizeOf j

theorem render_number (n : Nat) :
    ∃ c rest, render (number n) = c :: rest ∧ c.isDigit = true := by
  obtain ⟨c, rest, heq⟩ := List.exists_cons_of_ne_nil (@Nat.toDigits_ne_nil n 10)
  refine ⟨c, rest, ?_, ?_⟩
  · rw [render, Nat.toString_eq_ofList_toDigits, String.toList_ofList, heq]
  · refine Nat.isDigit_of_mem_toDigits (b := 10) (n := n) (by decide) (by decide) ?_
    rw [heq]
    exact List.mem_cons_self

theorem begins_render (j : Json) : Begins (render j) := by
  cases j with
  | number n =>
    obtain ⟨c, rest, heq, hdigit⟩ := render_number n
    have hne (d : Char) (hd : d.isDigit = false) : c ≠ d := by
      rintro rfl
      rw [hd] at hdigit
      cases hdigit
    exact ⟨c, rest, heq, by simp [isBlank, hne], hne _ (by decide), hne _ (by decide)⟩
  | string s => exact ⟨_, _, rfl, by decide, by decide, by decide⟩
  | array items => exact ⟨_, _, rfl, by decide, by decide, by decide⟩
  | object members => exact ⟨_, _, rfl, by decide, by decide, by decide⟩

theorem begins_writeMember (m : String × Json) : Begins (writeMember m) :=
  ⟨_, _, rfl, by decide, by decide, by decide⟩

theorem length_le_writeMember (m : String × Json) :
    (render m.2).length ≤ (writeMember m).length := by
  rw [writeMember, List.length_append, List.length_cons]
  omega

theorem member_writeMember {read : Reader Json} {m : String × Json} {rest : List Char} {j : Json}
    (h : read (render m.2 ++ rest) = some (j, rest)) :
    member read (writeMember m ++ rest) = some ((m.1, j), rest) := by
  rw [writeMember, List.append_assoc, member, text_quote]
  simp [skip_cons (by decide : isBlank ':' = false), (begins_render m.2).skip, h]

theorem value_digit (depth : Nat) {c : Char} (h : c.isDigit = true) (cs : List Char) :
    value (depth + 1) (c :: cs) = (do
      let (n, rest) ← count (c :: cs)
      some (number n, rest)) := by
  have hne {d : Char} (hd : d.isDigit = false) (rest : List Char) : c :: cs = d :: rest → False := by
    intro heq
    cases heq
    rw [hd] at h
    cases h
  rw [value]
  · exact hne (by decide)
  · exact hne (by decide)
  · exact hne (by decide)

/-- A rendered value is read as this value with its members in order, and nothing behind it. -/
theorem value_render (j : Json) {depth : Nat} (hdepth : (render j).length ≤ depth)
    {rest : List Char} (hrest : Ends rest) :
    value depth (render j ++ rest) = some (j.sorted, rest) := by
  have hends {close : Char} (hclose : close = ']' ∨ close = '\x7d') (c : Char) (rest : List Char)
      (hc : c = ',' ∨ c = close) : Ends (c :: rest) :=
    ends_cons (by rcases hc with rfl | rfl <;> rcases hclose with rfl | rfl <;> decide)
  induction j using induct generalizing depth rest with
  | hnumber n =>
    obtain ⟨c, tail, heq, hdigit⟩ := render_number n
    have hcount : count (render (number n) ++ rest) = some (n, rest) := count_toString n hrest
    rw [heq] at hdepth
    rw [heq, List.cons_append] at hcount ⊢
    cases depth with
    | zero => cases hdepth
    | succ depth =>
      rw [value_digit depth hdigit, hcount]
      rfl
  | hstring s =>
    cases depth with
    | zero => cases hdepth
    | succ depth =>
      have htext := text_quote s rest
      rw [quote, List.cons_append] at htext
      rw [render, quote, List.cons_append, value, htext]
      rfl
  | harray items ih =>
    cases depth with
    | zero => cases hdepth
    | succ depth =>
      rw [render_array, List.length_cons, List.length_append] at hdepth
      have hitem (j : Json) (hj : j ∈ items) (c : Char) (rest : List Char)
          (hc : c = ',' ∨ c = ']') :
          value depth (render j ++ c :: rest) = some (j.sorted, c :: rest) := by
        have hlength := length_le_separated (List.mem_map_of_mem (f := render) hj)
        exact ih j hj (by omega) (hends (.inl rfl) c rest hc)
      rw [render_array, List.cons_append, List.append_assoc, List.singleton_append, value,
        enclosed_separated (.inl rfl) items rest fun j hj => ⟨begins_render j, hitem j hj⟩,
        sorted_array]
      rfl
  | hobject members ih =>
    cases depth with
    | zero => cases hdepth
    | succ depth =>
      rw [render_object, List.length_cons, List.length_append] at hdepth
      have hmember (m : String × Json) (hm : m ∈ inOrder members) (c : Char) (rest : List Char)
          (hc : c = ',' ∨ c = '\x7d') : member (value depth) (writeMember m ++ c :: rest) =
            some ((m.1, m.2.sorted), c :: rest) := by
        have hlength := length_le_separated (List.mem_map_of_mem (f := writeMember) hm)
        have hvalue := length_le_writeMember m
        exact member_writeMember
          (ih m (mem_inOrder.mp hm) (by omega) (hends (.inr rfl) c rest hc))
      rw [render_object, List.cons_append, List.append_assoc, List.singleton_append, value,
        enclosed_separated (.inr rfl) (inOrder members) rest fun m hm =>
          ⟨begins_writeMember m, hmember m hm⟩,
        sorted_object]
      rfl

theorem read_render (j : Json) : read (String.ofList (render j)) = some j.sorted := by
  have hskip := (begins_render j).skip []
  have hvalue := @value_render j _ (Nat.le_refl _) [] fun c hc => by cases hc
  rw [List.append_nil] at hskip hvalue
  rw [read, String.length_ofList, String.toList_ofList, hskip, hvalue]
  rfl

end SmokeBench.Summary.Json
