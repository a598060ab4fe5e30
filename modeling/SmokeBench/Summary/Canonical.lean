/-!
Canonical JSON: no blanks, the members of an object in the order of their names, integers in full,
and in strings only what must be escaped.
-/

namespace SmokeBench.Summary

inductive Json
  | number (n : Nat)
  | string (s : String)
  | array (items : List Json)
  | object (members : List (String × Json))

namespace Json

def hexDigit (n : Nat) : Char := if n < 10 then Char.ofNat (48 + n) else Char.ofNat (87 + n)

def escapeChar (c : Char) : List Char :=
  if c = '"' then ['\\', '"']
  else if c = '\\' then ['\\', '\\']
  else if c = '\n' then ['\\', 'n']
  else if c = '\r' then ['\\', 'r']
  else if c = '\t' then ['\\', 't']
  else if c.toNat = 8 then ['\\', 'b']
  else if c.toNat = 12 then ['\\', 'f']
  else if c.toNat < 32 then ['\\', 'u', '0', '0', hexDigit (c.toNat / 16), hexDigit (c.toNat % 16)]
  else [c]

def quote (s : String) : List Char := '"' :: (s.toList.flatMap escapeChar ++ ['"'])

def sortMembers (members : List (String × List Char)) : List (String × List Char) :=
  members.mergeSort fun a b => decide (a.1 ≤ b.1)

def separated : List (List Char) → List Char
  | [] => []
  | [x] => x
  | x :: rest => x ++ ',' :: separated rest

mutual

def render : Json → List Char
  | number n => (toString n).toList
  | string s => quote s
  | array items => '[' :: (separated (renderItems items) ++ [']'])
  | object members =>
    '\x7b' :: (separated ((sortMembers (renderMembers members)).map fun m =>
      quote m.1 ++ ':' :: m.2) ++ ['\x7d'])

def renderItems : List Json → List (List Char)
  | [] => []
  | j :: rest => render j :: renderItems rest

def renderMembers : List (String × Json) → List (String × List Char)
  | [] => []
  | (name, j) :: rest => (name, render j) :: renderMembers rest

end

end Json

end SmokeBench.Summary
