/-!
Blank characters are those with the Unicode property White_Space. Trimming removes them at the
ends of a text and nothing else.
-/

namespace SmokeBench.Text

def isBlank (c : Char) : Bool :=
  let n := c.toNat
  (9 ≤ n && n ≤ 13) || n == 0x20 || n == 0x85 || n == 0xA0 || n == 0x1680 ||
    (0x2000 ≤ n && n ≤ 0x200A) || n == 0x2028 || n == 0x2029 || n == 0x202F || n == 0x205F ||
    n == 0x3000

def trimEndChars (cs : List Char) : List Char := (cs.reverse.dropWhile isBlank).reverse

def trimChars (cs : List Char) : List Char := trimEndChars (cs.dropWhile isBlank)

def trimEnd (s : String) : String := String.ofList (trimEndChars s.toList)

/-- Whether a text has no character that is not blank. -/
def blank (s : String) : Bool := s.toList.all isBlank

/-- A line ends at a line feed; a carriage return just before the line feed belongs to the break. -/
def firstLineChars (cs : List Char) : List Char :=
  let line := cs.takeWhile (· != '\n')
  if line.length < cs.length && line.getLast? == some '\r' then line.dropLast else line

end SmokeBench.Text
