import SmokeBench.Machine.Shell.Arithmetic

/-!
The texts that `echo` and `printf` write. A format is used again as long as arguments are left.
-/

namespace SmokeBench.Machine.Shell.Format

def isOctal (c : Char) : Bool := '0' ≤ c && c ≤ '7'

def octalValue (cs : List Char) : Nat := cs.foldl (fun n c => n * 8 + (c.toNat - 48)) 0

def octet (n : Nat) : Char := Char.ofNat (n % 256)

def named (c : Char) : Option Char :=
  match c with
  | '\\' => some '\\'
  | 'a' => some (octet 7)
  | 'b' => some (octet 8)
  | 'e' => some (octet 27)
  | 'f' => some (octet 12)
  | 'n' => some '\n'
  | 'r' => some '\r'
  | 't' => some '\t'
  | 'v' => some (octet 11)
  | _ => none

/-- Reads an escape after its backslash: what it stands for, and how many characters it takes. -/
def escape (cs : List Char) : Char × Nat :=
  match cs with
  | [] => ('\\', 0)
  | c :: _ =>
    if isOctal c then
      let digits := (cs.takeWhile isOctal).take 3
      (octet (octalValue digits), digits.length)
    else
      match named c with
      | some x => (x, 1)
      | none => ('\\', 0)

/-- An argument with its escapes replaced; false when it told to stop. Octal numbers start with a
zero here, and three digits may follow it. -/
def unescape (done : List Char) : (fuel : Nat) → List Char → List Char × Bool
  | 0, _ => (done.reverse, true)
  | _ + 1, [] => (done.reverse, true)
  | _ + 1, '\\' :: 'c' :: _ => (done.reverse, false)
  | fuel + 1, '\\' :: '0' :: rest =>
    let digits := (rest.takeWhile isOctal).take 3
    unescape (octet (octalValue digits) :: done) fuel (rest.drop digits.length)
  | fuel + 1, '\\' :: rest =>
    let (c, n) := escape rest
    unescape (c :: done) fuel (rest.drop n)
  | fuel + 1, c :: rest => unescape (c :: done) fuel rest

def unescaped (s : String) : String × Bool :=
  let (cs, more) := unescape [] (s.length + 1) s.toList
  (String.ofList cs, more)

def echo (escapes : Bool) (args : List String) : String :=
  let (newline, args) := match args with
    | "-n" :: rest => (false, rest)
    | args => (true, args)
  let text := String.intercalate " " args
  if escapes then
    let (text, more) := unescaped text
    if more && newline then text ++ "\n" else text
  else if newline then text ++ "\n" else text

structure Directive where
  left : Bool
  zero : Bool
  plus : Bool
  space : Bool
  alternate : Bool
  width : Nat
  precision : Option Nat
  kind : Char

def padTo (d : Directive) (zeros : Bool) (sign text : String) : String :=
  let missing := d.width - (sign.length + text.length)
  let fill (c : Char) : String := String.ofList (List.replicate missing c)
  if d.left then sign ++ text ++ fill ' '
  else if zeros && d.zero then sign ++ fill '0' ++ text
  else fill ' ' ++ sign ++ text

def digits (base : Nat) (upper : Bool) (n : Nat) : String :=
  let s := String.ofList (Nat.toDigits base n)
  if upper then s.toUpper else s

def atLeast (precision : Option Nat) (s : String) : String :=
  match precision with
  | none => s
  | some 0 => if s == "0" then "" else s
  | some p => String.ofList (List.replicate (p - s.length) '0') ++ s

def integer (d : Directive) (n : Int) : String :=
  let zeros := d.precision.isNone
  let signOf : String := if n < 0 then "-" else if d.plus then "+" else if d.space then " " else ""
  let unsigned := (n % Int.pow 2 64).toNat
  match d.kind with
  | 'd' | 'i' => padTo d zeros signOf (atLeast d.precision (digits 10 false n.natAbs))
  | 'u' => padTo d zeros "" (atLeast d.precision (digits 10 false unsigned))
  | 'o' => padTo d zeros (if d.alternate then "0" else "") (atLeast d.precision (digits 8 false unsigned))
  | 'x' => padTo d zeros (if d.alternate then "0x" else "") (atLeast d.precision (digits 16 false unsigned))
  | _ => padTo d zeros (if d.alternate then "0X" else "") (atLeast d.precision (digits 16 true unsigned))

def cut (d : Directive) (s : String) : String :=
  match d.precision with
  | none => s
  | some p => String.ofList (s.toList.take p)

/-- A complaint about an argument or a format, and the status it leads to. -/
structure Fault where
  text : String
  status : Nat

/-- The number an argument stands for, and what is wrong with it; a quote gives the character
after it. -/
def numberOf (arg : String) : Int × List Fault :=
  match arg.toList with
  | [] => (0, [])
  | '\'' :: c :: _ | '"' :: c :: _ => (c.toNat, [])
  | cs =>
    match Arithmetic.number arg with
    | some n => (n, [])
    | none =>
      let front := (List.range cs.length).reverse.findSome? fun n =>
        Arithmetic.number (String.ofList (cs.take n))
      match front with
      | some n => (n, [⟨s!"{arg}: not completely converted", 1⟩])
      | none => (0, [⟨s!"{arg}: expected numeric value", 1⟩])

/-- What a format has written so far. -/
structure Printed where
  text : List Char
  args : List String
  used : Bool
  faults : List Fault
  stopped : Bool

def Printed.add (p : Printed) (s : String) : Printed := { p with text := s.toList.reverse ++ p.text }

def Printed.take (p : Printed) : String × Printed :=
  match p.args with
  | [] => ("", { p with used := true })
  | a :: rest => (a, { p with args := rest, used := true })

def flags (d : Directive) : (fuel : Nat) → List Char → Directive × List Char
  | 0, cs => (d, cs)
  | fuel + 1, cs =>
    match cs with
    | '-' :: rest => flags { d with left := true } fuel rest
    | '0' :: rest => flags { d with zero := true } fuel rest
    | '+' :: rest => flags { d with plus := true } fuel rest
    | ' ' :: rest => flags { d with space := true } fuel rest
    | '#' :: rest => flags { d with alternate := true } fuel rest
    | _ => (d, cs)

/-- A number in a directive, or a star that takes it from the arguments. -/
def measure (p : Printed) (cs : List Char) : Int × Printed × List Char :=
  match cs with
  | '*' :: rest =>
    let (a, p) := p.take
    ((numberOf a).1, p, rest)
  | cs =>
    let ds := cs.takeWhile Char.isDigit
    (((String.ofList ds).toNat?).getD 0, p, cs.drop ds.length)

/-- Reads a directive after its percent sign. -/
def directive (p : Printed) (cs : List Char) : Directive × Printed × List Char :=
  let (d, cs) := flags ⟨false, false, false, false, false, 0, none, 's'⟩ (cs.length + 1) cs
  let (width, p, cs) := measure p cs
  let d := { d with left := d.left || width < 0, width := width.natAbs }
  match cs with
  | '.' :: rest =>
    let (precision, p, cs) := measure p rest
    ({ d with precision := if precision < 0 then none else some precision.toNat, kind := cs.headD 's' },
      p, cs.drop 1)
  | cs => ({ d with kind := cs.headD 's' }, p, cs.drop 1)

def convert (d : Directive) (p : Printed) : Printed :=
  let (arg, p) := p.take
  match d.kind with
  | 's' => p.add (padTo d false "" (cut d arg))
  | 'b' =>
    let (text, more) := unescaped arg
    { p.add (padTo d false "" (cut d text)) with stopped := !more }
  | 'c' => p.add (padTo d false "" (String.ofList (arg.toList.take 1)))
  | 'd' | 'i' | 'u' | 'o' | 'x' | 'X' =>
    let (n, faults) := numberOf arg
    { p.add (integer d n) with faults := p.faults ++ faults }
  | k => { p with faults := p.faults ++ [⟨s!"%{k}: invalid directive", 2⟩], stopped := true }

def once (p : Printed) : (fuel : Nat) → List Char → Printed
  | 0, _ => p
  | _ + 1, [] => p
  | fuel + 1, c :: rest =>
    if p.stopped then p
    else
      match c, rest with
      | '\\', rest =>
        let (x, n) := escape rest
        once (p.add (String.singleton x)) fuel (rest.drop n)
      | '%', '%' :: rest => once (p.add "%") fuel rest
      | '%', rest =>
        let (d, p, rest) := directive p rest
        once (convert d p) fuel rest
      | c, rest => once (p.add (String.singleton c)) fuel rest

def rounds (format : List Char) (p : Printed) : (fuel : Nat) → Printed
  | 0 => p
  | fuel + 1 =>
    let p := once { p with used := false } (format.length + 1) format
    if p.stopped || p.args.isEmpty || !p.used then p else rounds format p fuel

def printf (format : String) (args : List String) : String × List Fault :=
  let p := rounds format.toList ⟨[], args, false, [], false⟩ (args.length + 1)
  (String.ofList p.text.reverse, p.faults)

end SmokeBench.Machine.Shell.Format
