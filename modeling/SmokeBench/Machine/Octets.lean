import SmokeBench.Bytes

/-!
Text as the shell and its tools see it: a string with one character for each byte, the character's
number being the byte. Nothing is decoded, so bytes that are no text pass unchanged.
-/

namespace SmokeBench.Machine

def octets (b : Bytes) : String := String.ofList (b.map fun x => Char.ofNat x.toNat)

def bytesOf (s : String) : Bytes := s.toList.map fun c => UInt8.ofNat c.toNat

def octetsOf (s : String) : String := octets (Bytes.ofString s)

end SmokeBench.Machine
