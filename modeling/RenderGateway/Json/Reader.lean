import RenderGateway.Json.NumberText

/-!
# Reading JSON

Documents from text. Blanks are the four of the format. Containers nest to a
depth of 127.
-/

namespace RenderGateway.Json

open Numeral

def isSpace (c : Char) : Bool := c = ' ' || c = '\n' || c = '\t' || c = '\r'

def skipSpace (cs : List Char) : List Char := cs.dropWhile isSpace

def hexValue? (c : Char) : Option Nat :=
  if c.isDigit then some (c.toNat - '0'.toNat)
  else if 'a' ≤ c ∧ c ≤ 'f' then some (c.toNat - 'a'.toNat + 10)
  else if 'A' ≤ c ∧ c ≤ 'F' then some (c.toNat - 'A'.toNat + 10)
  else none

/-- The number that four hexadecimal digits write. -/
def unit? (a b c d : Char) : Option Nat :=
  match hexValue? a, hexValue? b, hexValue? c, hexValue? d with
  | some a, some b, some c, some d => some (((a * 16 + b) * 16 + c) * 16 + d)
  | _, _, _, _ => none

/-- Whether a number is a character by itself and not half of a pair. -/
def isScalar (n : Nat) : Bool := n < 0xD800 || 0xE000 ≤ n

/-- The character of a pair of surrogates. -/
def ofSurrogates? (n m : Nat) : Option Char :=
  if 0xD800 ≤ n ∧ n < 0xDC00 ∧ 0xDC00 ≤ m ∧ m < 0xE000 then
    some (Char.ofNat (0x10000 + (n - 0xD800) * 0x400 + (m - 0xDC00)))
  else none

/-- The single characters that an escape stands for. -/
def simpleEscape? : Char → Option Char
  | '"' => some '"'
  | '\\' => some '\\'
  | '/' => some '/'
  | 'b' => some '\x08'
  | 'f' => some '\x0c'
  | 'n' => some '\n'
  | 'r' => some '\r'
  | 't' => some '\t'
  | _ => none

/-- The characters up to the closing quote, and what follows it. A numeric escape
of a character outside the first plane is a pair of surrogates; a surrogate alone
is refused. -/
def readQuoted : List Char → Option (List Char × List Char)
  | [] => none
  | '"' :: cs => some ([], cs)
  | '\\' :: 'u' :: a :: b :: c :: d :: cs => do
    let n ← unit? a b c d
    if isScalar n then
      let (chars, rest) ← readQuoted cs
      return (Char.ofNat n :: chars, rest)
    else match cs with
      | '\\' :: 'u' :: a :: b :: c :: d :: cs => do
        let char ← ofSurrogates? n (← unit? a b c d)
        let (chars, rest) ← readQuoted cs
        return (char :: chars, rest)
      | _ => none
  | '\\' :: e :: cs => do
    let char ← simpleEscape? e
    let (chars, rest) ← readQuoted cs
    return (char :: chars, rest)
  | c :: cs =>
    if c = '\\' ∨ c.toNat < 0x20 then none
    else (readQuoted cs).map fun (chars, rest) => (c :: chars, rest)
termination_by structural cs => cs

/-- Digits after a point. -/
def readFraction : List Char → Option (Option (List Char) × List Char)
  | '.' :: cs =>
    let (ds, rest) := cs.span Char.isDigit
    if ds = [] then none else some (some ds, rest)
  | cs => some (none, cs)

def readSigned (negative : Bool) (cs : List Char) : Option (Int × List Char) :=
  let (ds, rest) := cs.span Char.isDigit
  if ds = [] then none
  else some (if negative then -(value ds : Int) else value ds, rest)

def readExponent : List Char → Option (Option Int × List Char)
  | [] => some (none, [])
  | c :: cs =>
    if c = 'e' ∨ c = 'E' then
      let read := match cs with
        | '-' :: cs => readSigned true cs
        | '+' :: cs => readSigned false cs
        | cs => readSigned false cs
      read.map fun (e, rest) => (some e, rest)
    else some (none, c :: cs)

/-- A numeral without its sign; a leading zero stands alone. -/
def readNumber (negative : Bool) (cs : List Char) : Option (Json × List Char) := do
  let (whole, rest) := cs.span Char.isDigit
  if whole = [] ∨ (whole.head? = some '0' ∧ whole.length ≠ 1) then none
  else do
    let (fraction, rest) ← readFraction rest
    let (exponent, rest) ← readExponent rest
    let json ← NumberText.toJson? ⟨negative, whole, fraction, exponent⟩
    return (json, rest)

mutual

/-- One document at the start of the text. Each call spends fuel, and a text of
`n` characters needs at most `2 * n + 2`. -/
def readValue : Nat → Nat → List Char → Option (Json × List Char)
  | 0, _, _ => none
  | fuel + 1, depth, cs =>
    match skipSpace cs with
    | 'n' :: 'u' :: 'l' :: 'l' :: cs => some (null, cs)
    | 't' :: 'r' :: 'u' :: 'e' :: cs => some (bool true, cs)
    | 'f' :: 'a' :: 'l' :: 's' :: 'e' :: cs => some (bool false, cs)
    | '"' :: cs => (readQuoted cs).map fun (s, cs) => (text (String.ofList s), cs)
    | '-' :: cs => readNumber true cs
    | '[' :: cs =>
      match depth with
      | 0 => none
      | depth + 1 =>
        match skipSpace cs with
        | ']' :: cs => some (array [], cs)
        | cs => (readItems fuel depth cs).map fun (js, cs) => (array js, cs)
    | '{' :: cs =>
      match depth with
      | 0 => none
      | depth + 1 =>
        match skipSpace cs with
        | '}' :: cs => some (object [], cs)
        | cs => (readFields fuel depth cs).map fun (fs, cs) => (object fs, cs)
    | cs => readNumber false cs
termination_by structural fuel => fuel

/-- The items of an array up to its closing bracket. -/
def readItems : Nat → Nat → List Char → Option (List Json × List Char)
  | 0, _, _ => none
  | fuel + 1, depth, cs => do
    let (j, cs) ← readValue fuel depth cs
    match skipSpace cs with
    | ']' :: cs => return ([j], cs)
    | ',' :: cs => do
      let (js, cs) ← readItems fuel depth cs
      return (j :: js, cs)
    | _ => none
termination_by structural fuel => fuel

/-- The fields of an object up to its closing brace. -/
def readFields : Nat → Nat → List Char → Option (List (String × Json) × List Char)
  | 0, _, _ => none
  | fuel + 1, depth, cs => do
    match skipSpace cs with
    | '"' :: cs => do
      let (name, cs) ← readQuoted cs
      match skipSpace cs with
      | ':' :: cs => do
        let (j, cs) ← readValue fuel depth cs
        match skipSpace cs with
        | '}' :: cs => return ([(String.ofList name, j)], cs)
        | ',' :: cs => do
          let (fs, cs) ← readFields fuel depth cs
          return ((String.ofList name, j) :: fs, cs)
        | _ => none
      | _ => none
    | _ => none
termination_by structural fuel => fuel

end

/-- The deepest nesting of arrays and objects that is read. -/
def maxDepth : Nat := 127

/-- The document at the start of a text and what follows it. -/
def readLeading? (cs : List Char) : Option (Json × List Char) :=
  readValue (2 * cs.length + 2) maxDepth cs

def readChars? (cs : List Char) : Option Json :=
  match readLeading? cs with
  | some (j, rest) => if (skipSpace rest).isEmpty then some j else none
  | none => none

def read? (s : String) : Option Json := readChars? s.toList

end RenderGateway.Json
