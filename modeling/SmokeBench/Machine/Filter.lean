import SmokeBench.Machine.Process

/-!
Filters: what a tool writes for each piece it reads, and what it writes at the end. A filter is fed
piece by piece, and may have enough before its input ends.
-/

namespace SmokeBench.Machine

/-- The characters that a set of `tr` names, in order. -/
def characterClass (name : String) : List Char :=
  let all := (List.range 128).map Char.ofNat
  match name with
  | "upper" => all.filter Char.isUpper
  | "lower" => all.filter Char.isLower
  | "digit" => all.filter Char.isDigit
  | "alpha" => all.filter Char.isAlpha
  | "alnum" => all.filter Char.isAlphanum
  | "space" => [9, 10, 11, 12, 13, 32].map Char.ofNat
  | "blank" => ['\t', ' ']
  | _ => []

def between (a b : Char) : List Char :=
  (List.range (b.toNat + 1 - a.toNat)).map fun n => Char.ofNat (a.toNat + n)

def setMember (cs : List Char) : Option (Char × List Char) :=
  match cs with
  | [] => none
  | '\\' :: c :: rest =>
    let digits := ((c :: rest).takeWhile fun c => '0' ≤ c && c ≤ '7').take 3
    if digits.isEmpty then
      let x := match c with
        | 'n' => '\n'
        | 't' => '\t'
        | 'r' => '\r'
        | 'a' => Char.ofNat 7
        | 'b' => Char.ofNat 8
        | 'f' => Char.ofNat 12
        | 'v' => Char.ofNat 11
        | c => c
      some (x, rest)
    else
      let n := digits.foldl (fun n c => n * 8 + (c.toNat - 48)) 0
      some (Char.ofNat (n % 256), (c :: rest).drop digits.length)
  | c :: rest => some (c, rest)

def setOf : (fuel : Nat) → List Char → List Char
  | 0, _ => []
  | fuel + 1, cs =>
    match cs with
    | '[' :: ':' :: rest =>
      let name := rest.takeWhile (· != ':')
      characterClass (String.ofList name) ++ setOf fuel (rest.drop (name.length + 2))
    | cs =>
      match setMember cs with
      | none => []
      | some (a, '-' :: d :: rest) =>
        match setMember (d :: rest) with
        | some (b, rest) => between a b ++ setOf fuel rest
        | none => [a]
      | some (a, rest) => a :: setOf fuel rest

namespace Filter

def translated (source goal : List Char) (c : Char) : Char :=
  match source.idxOf? c with
  | some n => goal.getD n (goal.getLast?.getD c)
  | none => c

def squeezed (set : List Char) (last : Option Char) : List Char → List Char
  | [] => []
  | c :: rest =>
    if last == some c && set.contains c then squeezed set last rest
    else c :: squeezed set (some c) rest

def lastLines (n : Nat) (s : String) : String :=
  let cs := s.toList.reverse
  let (front, cs) := match cs with
    | '\n' :: rest => (['\n'], rest)
    | cs => ([], cs)
  let cut (state : Nat × List Char × Bool) (c : Char) : Nat × List Char × Bool :=
    match state with
    | (left, done, open?) =>
      if !open? then state
      else if c == '\n' then if left ≤ 1 then (0, done, false) else (left - 1, c :: done, true)
      else (left, c :: done, true)
  if n = 0 then "" else String.ofList ((cs.foldl cut (n, front, true)).2.1)

/-- How a wanted line is written. -/
def selected (numbered counted quiet : Bool) (line : Nat) (l : String) : String :=
  if counted || quiet then "" else if numbered then s!"{line}:{l}\n" else l ++ "\n"

/-- Feeds a piece: the text written, and the filter as it goes on; none when it has enough. -/
def feed (f : Filter) (piece : String) : String × Option Filter :=
  match f with
  | .copy | .tee _ => (piece, some f)
  | .headBytes left =>
    let now := String.ofList (piece.toList.take left)
    (now, if piece.length < left then some (.headBytes (left - piece.length)) else none)
  | .headLines left =>
    let step (state : Nat × List Char) (c : Char) : Nat × List Char :=
      if state.1 = 0 then state
      else (if c == '\n' then state.1 - 1 else state.1, c :: state.2)
    let (left, now) := piece.toList.foldl step (left, [])
    (String.ofList now.reverse, if left = 0 then none else some (.headLines left))
  | .sort reverse unique numeric held => ("", some (.sort reverse unique numeric (held ++ piece)))
  | .select wanted numbered counted quiet held line hits =>
    let lines := (held ++ piece).splitOn "\n"
    let step (state : Nat × Nat × List String) (l : String) : Nat × Nat × List String :=
      let (line, hits, out) := state
      if wanted l then (line + 1, hits + 1, selected numbered counted quiet (line + 1) l :: out)
      else (line + 1, hits, out)
    let (line, hits, out) := lines.dropLast.foldl step (line, hits, [])
    (String.join out.reverse,
      some (.select wanted numbered counted quiet (lines.getLast?.getD "") line hits))
  | .tailLines n held => ("", some (.tailLines n (lastLines (n + 1) (held ++ piece))))
  | .tailBytes n held =>
    let all := (held ++ piece).toList
    ("", some (.tailBytes n (String.ofList (all.drop (all.length - n)))))
  | .translate delete squeeze complement source goal last =>
    let inSource (c : Char) : Bool := source.contains c != complement
    let cs := piece.toList
    let out :=
      if delete then cs.filter fun c => !inSource c
      else if goal.isEmpty then cs
      else if complement then cs.map fun c => if inSource c then goal.getLast?.getD c else c
      else cs.map (translated source goal)
    let out := if squeeze then squeezed (if goal.isEmpty then source else goal) last out else out
    (String.ofList out,
      some (.translate delete squeeze complement source goal (out.getLast?.orElse fun _ => last)))
  | .count wanted lines words bytes inWord label =>
    let isGap (c : Char) : Bool := c == ' ' || (9 ≤ c.toNat && c.toNat ≤ 13)
    let step (state : Nat × Nat × Bool) (c : Char) : Nat × Nat × Bool :=
      let (lines, words, inWord) := state
      (if c == '\n' then lines + 1 else lines,
        if !isGap c && !inWord then words + 1 else words, !isGap c)
    let (lines, words, inWord) := piece.toList.foldl step (lines, words, inWord)
    ("", some (.count wanted lines words (bytes + piece.length) inWord label))

def padded (width n : Nat) : String :=
  let s := toString n
  String.ofList (List.replicate (width - s.length) ' ') ++ s

def textLines (s : String) : List String :=
  let lines := s.splitOn "\n"
  if s.endsWith "\n" || s.isEmpty then lines.dropLast else lines

/-- The number at the start of a line, as a sort by numbers sees it. -/
def leadingNumber (s : String) : Int :=
  let cs := s.toList.dropWhile fun c => c == ' ' || c == '\t'
  let (sign, cs) := match cs with
    | '-' :: cs => ((-1 : Int), cs)
    | cs => (1, cs)
  let size : Nat := (cs.takeWhile Char.isDigit).foldl (fun n c => n * 10 + (c.toNat - 48)) 0
  sign * size

def sorted (reverse unique numeric : Bool) (lines : List String) : List String :=
  let before (a b : String) : Bool :=
    if numeric && leadingNumber a != leadingNumber b then leadingNumber a < leadingNumber b else a ≤ b
  let lines := lines.mergeSort before
  let lines := if unique then lines.eraseReps else lines
  if reverse then lines.reverse else lines

def conclude (f : Filter) : String :=
  match f with
  | .tailLines n held => lastLines n held
  | .tailBytes _ held => held
  | .select wanted numbered counted quiet held line hits =>
    let more := !held.isEmpty && wanted held
    if quiet then ""
    else if counted then s!"{if more then hits + 1 else hits}\n"
    else if more then selected numbered counted quiet (line + 1) held else ""
  | .sort reverse unique numeric held =>
    String.join ((sorted reverse unique numeric (textLines held)).map (· ++ "\n"))
  | .count wanted lines words bytes _ label =>
    let figures := (if wanted.contains 'l' then [lines] else []) ++
      (if wanted.contains 'w' then [words] else []) ++
      (if wanted.contains 'c' || wanted.contains 'm' then [bytes] else [])
    let width := if figures.length ≤ 1 then 0 else if label.isEmpty then 7 else (toString bytes).length
    String.intercalate " " (figures.map (padded width)) ++
      (if label.isEmpty then "" else " " ++ label) ++ "\n"
  | _ => ""

/-- The status a filter ends with when nothing went wrong: finding nothing is a failure of its own. -/
def status (f : Filter) : Nat :=
  match f with
  | .select wanted _ _ _ held _ hits => if hits = 0 && !(!held.isEmpty && wanted held) then 1 else 0
  | _ => 0

end Filter

end SmokeBench.Machine
