import RenderGateway.Json.NumberText

/-!
# Writing JSON

The text of a document, without blanks. A control character is written as an
escape, so the text of a document holds no line break. The numeral of a double
has a point or an exponent, so that no reader takes it for an integer.
-/

namespace RenderGateway.Json

open Numeral

def hexDigit (n : Nat) : Char := (n % 16).digitChar

/-- How a character stands inside a quoted text. -/
def escaped (c : Char) : List Char :=
  if c = '"' then ['\\', '"']
  else if c = '\\' then ['\\', '\\']
  else if c = '\n' then ['\\', 'n']
  else if c = '\r' then ['\\', 'r']
  else if c = '\t' then ['\\', 't']
  else if c.toNat < 0x20 then
    ['\\', 'u', '0', '0', hexDigit (c.toNat / 16), hexDigit c.toNat]
  else [c]

def quoted (s : String) : List Char := '"' :: s.toList.flatMap escaped ++ ['"']

mutual

/-- The text of a document, followed by `rest`. -/
def writeThen (rest : List Char) : Json → List Char
  | null => 'n' :: 'u' :: 'l' :: 'l' :: rest
  | bool true => 't' :: 'r' :: 'u' :: 'e' :: rest
  | bool false => 'f' :: 'a' :: 'l' :: 's' :: 'e' :: rest
  | integer n => signedDigits n.value ++ rest
  | number x => (NumberText.ofFinite x).chars ++ rest
  | text s => quoted s ++ rest
  | array items => '[' :: writeItems rest items
  | object fields => '{' :: writeFields rest fields
termination_by structural j => j

def writeItems (rest : List Char) : List Json → List Char
  | [] => ']' :: rest
  | [j] => writeThen (']' :: rest) j
  | j :: js => writeThen (',' :: writeItems rest js) j
termination_by structural js => js

def writeFields (rest : List Char) : List (String × Json) → List Char
  | [] => '}' :: rest
  | [(name, j)] => quoted name ++ ':' :: writeThen ('}' :: rest) j
  | (name, j) :: fields => quoted name ++ ':' :: writeThen (',' :: writeFields rest fields) j
termination_by structural fields => fields

end

def write (j : Json) : String := String.ofList (writeThen [] j)

end RenderGateway.Json
