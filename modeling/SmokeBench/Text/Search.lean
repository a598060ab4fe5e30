/-!
Finding a text in a text, and replacing a token in it.
-/

namespace SmokeBench.Text

def containsChars (needle : List Char) : List Char → Bool
  | [] => needle.isEmpty
  | c :: rest => needle.isPrefixOf (c :: rest) || containsChars needle rest

def contains (haystack needle : String) : Bool := containsChars needle.toList haystack.toList

/-- Replaces the occurrences of a token from left to right, none overlapping; `skip` counts the
characters of an occurrence that are still to pass, and `done` is reversed. -/
def replaceFrom (token replacement : List Char) (skip : Nat) (done : List Char) :
    List Char → List Char
  | [] => done.reverse
  | c :: rest =>
    match skip with
    | skip + 1 => replaceFrom token replacement skip done rest
    | 0 =>
      if token.isPrefixOf (c :: rest) then
        replaceFrom token replacement (token.length - 1) (replacement.reverse ++ done) rest
      else replaceFrom token replacement 0 (c :: done) rest

def replaceToken (token replacement text : String) : String :=
  String.ofList (replaceFrom token.toList replacement.toList 0 [] text.toList)

end SmokeBench.Text
