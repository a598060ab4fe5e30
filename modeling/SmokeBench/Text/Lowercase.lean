import SmokeBench.Text.CaseData

/-!
Full Unicode lowercase. Every character maps on its own but two: U+0130 becomes two characters,
and a capital sigma becomes the final form when it ends a word, that is, when a cased letter
stands before it and none after it, case-ignorable characters not counted.
-/

namespace SmokeBench.Text

def inRuns (runs : Array (Nat × Nat)) (c : Char) : Bool :=
  runs.any fun r => r.1 ≤ c.toNat && c.toNat ≤ r.2

def isCased (c : Char) : Bool := inRuns casedRuns c
def isCaseIgnorable (c : Char) : Bool := inRuns caseIgnorableRuns c

def lowerSimple (c : Char) : Char :=
  if c.toNat < 0x80 then (if 'A' ≤ c ∧ c ≤ 'Z' then Char.ofNat (c.toNat + 32) else c)
  else
    match lowerRuns.find? fun r =>
      r.1 ≤ c.toNat && c.toNat ≤ r.2.1 && (c.toNat - r.1) % r.2.2.1 == 0 with
    | some r => Char.ofNat ((c.toNat : Int) + r.2.2.2).toNat
    | none => c

def lowerChar (c : Char) : List Char :=
  if c.toNat = 0x130 then ['i', '\u0307'] else [lowerSimple c]

/-- Whether the first character that is not case-ignorable is cased. -/
def meetsCased (cs : List Char) : Bool :=
  match cs.dropWhile isCaseIgnorable with
  | [] => false
  | c :: _ => isCased c

def lowerSigma (before after : List Char) : Char :=
  if meetsCased before && !meetsCased after then 'ς' else 'σ'

/-- Lowers the rest of a text; `before` holds the characters already passed, newest first, and
`done` what they became, newest first. -/
def lowerFrom (before done : List Char) : List Char → List Char
  | [] => done.reverse
  | c :: rest =>
    lowerFrom (c :: before)
      (if c = 'Σ' then lowerSigma before rest :: done else (lowerChar c).reverse ++ done) rest

def lowercase (s : String) : String := String.ofList (lowerFrom [] [] s.toList)

end SmokeBench.Text
