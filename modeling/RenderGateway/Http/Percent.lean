import RenderGateway.Json.Reader

/-!
# Percent encoding

A byte may be written as a percent sign and two hexadecimal digits. A sign that
no two digits follow stands for itself.
-/

namespace RenderGateway.Percent

/-- The bytes that a text stands for. -/
def decodeBytes : List Char → List UInt8
  | [] => []
  | '%' :: a :: b :: cs =>
    match Json.hexValue? a, Json.hexValue? b with
    | some x, some y => UInt8.ofNat (x * 16 + y) :: decodeBytes cs
    | _, _ => '%'.toUInt8 :: decodeBytes (a :: b :: cs)
  | c :: cs => c.toString.toUTF8.toList ++ decodeBytes cs
termination_by cs => cs.length

/-- The text that is written, if its bytes are one. -/
def decode? (s : String) : Option String := String.fromUTF8? ⟨(decodeBytes s.toList).toArray⟩

def upperHexDigit (n : Nat) : Char := (Nat.digitChar (n % 16)).toUpper

def encodeByte (b : UInt8) : List Char :=
  ['%', upperHexDigit (b.toNat / 16), upperHexDigit b.toNat]

/-- Writes the characters of a class, and all beyond ASCII, byte by byte. -/
def encode (escaped : Char → Bool) (cs : List Char) : List Char :=
  cs.flatMap fun c =>
    if escaped c || 0x7F ≤ c.toNat then c.toString.toUTF8.toList.flatMap encodeByte else [c]

end RenderGateway.Percent
