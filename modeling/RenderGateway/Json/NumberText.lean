import RenderGateway.Json.Basic
import RenderGateway.Number.Arithmetic

/-!
# Numerals of JSON

An integer that fits 64 bits is read as it is. Any other numeral is read as a double, in steps that
round: its digits go into a significand of 64 bits as far as they fit, and the double nearest to
that is multiplied or divided by a power of ten. The outcome can be a neighbour of the double that
is nearest to the numeral, so that not every double is read back from its own digits. A numeral
beyond the largest double is refused.
-/

namespace RenderGateway.Json

open Numeral

/-- A numeral as it stands: sign, whole digits, fraction digits, exponent. -/
structure NumberText where
  negative : Bool
  whole : List Char
  fraction : Option (List Char)
  exponent : Option Int

def signedDigits (n : Int) : List Char :=
  if n < 0 then '-' :: digits n.natAbs else digits n.natAbs

namespace NumberText

/-- Digits are taken into a significand up to the first that 64 bits have no place for. -/
def absorb (significand : Nat) : List Char → Nat × List Char
  | [] => (significand, [])
  | c :: cs =>
    let next := significand * 10 + (c.toNat - '0'.toNat)
    if next < 2 ^ 64 then absorb next cs else (significand, c :: cs)

/-- The significand of a numeral and the power of ten that the place of its point asks for. Whole
digits without a place count for that power, and such digits of a fraction for nothing. -/
def parts (n : NumberText) : Nat × Int32 :=
  let (significand, excess) := absorb 0 n.whole
  let fraction := n.fraction.getD []
  let (significand, ignored) := absorb significand fraction
  (significand, .ofNat excess.length - .ofNat (fraction.length - ignored.length))

/-- The greatest power of ten that is a double. -/
def maxPower : Nat := 308

def powerOfTen (n : Nat) : Binary64 := Binary64.ofNat (10 ^ n)

/-- Divides by a power of ten, of which as many steps as given are by the greatest. -/
def lower : Nat → Binary64 → Nat → Binary64
  | 0, x, n => x / powerOfTen n
  | steps + 1, x, n =>
    if x = .zero false then x else lower steps (x / powerOfTen maxPower) (n - maxPower)

/-- A double times a power of ten; a power that is too large leaves nothing but zero finite. -/
def scale (x : Binary64) (exponent : Int) : Binary64 :=
  if exponent < 0 then lower ((exponent.natAbs - 1) / maxPower) x exponent.natAbs
  else if exponent ≤ maxPower then x * powerOfTen exponent.natAbs
  else if x = .zero false then x
  else .infinite false

/-- The magnitude that a numeral is read as. Exponents are words of 32 bits: one that is too large
makes the numeral infinite, or zero if it is negative or the significand is zero. -/
def magnitude (n : NumberText) : Binary64 :=
  let (significand, start) := n.parts
  let exponent := n.exponent.getD 0
  if 2 ^ 31 ≤ exponent.natAbs then
    if significand ≠ 0 ∧ 0 < exponent then .infinite false else .zero false
  else
    scale (Binary64.ofNat significand) (max (-2 ^ 31) (min (2 ^ 31 - 1) (start.toInt + exponent)))

def double? (n : NumberText) : Option Binary64.Finite :=
  match n.magnitude with
  | .finite x => some { x with negative := n.negative }
  | _ => none

/-- The document of a numeral; a negative zero is no integer. -/
def toJson? (n : NumberText) : Option Json :=
  let double := n.double?.map number
  if n.fraction.isNone ∧ n.exponent.isNone then
    let magnitude : Int := value n.whole
    if n.negative ∧ magnitude = 0 then double
    else match Integer.ofInt? (if n.negative then -magnitude else magnitude) with
      | some i => some (.integer i)
      | none => double
  else double

/-- The numeral of so many units, of which the point splits off the given number of places. -/
def ofUnits (negative : Bool) (units places : Nat) (exponent : Option Int) : NumberText where
  negative
  whole := digits (units / 10 ^ places)
  fraction := if places = 0 then none else some (padded places (units % 10 ^ places))
  exponent

/-- The numeral of a double: its shortest digits, with the point where it belongs if that is near,
and otherwise behind the first digit with a power of ten. -/
def ofFinite (x : Binary64.Finite) : NumberText :=
  let d := x.shortest
  let length := (digits d.coefficient).length
  let point := length + d.exponent
  if -5 < point ∧ point ≤ 16 then
    let places := max 1 (-d.exponent).toNat
    ofUnits d.negative (d.coefficient * 10 ^ (d.exponent + places).toNat) places none
  else ofUnits d.negative d.coefficient (length - 1) (some (point - 1))

def fractionChars : Option (List Char) → List Char
  | some ds => '.' :: ds
  | none => []

def exponentChars : Option Int → List Char
  | some e => 'e' :: signedDigits e
  | none => []

/-- A numeral without its sign. -/
def unsigned (n : NumberText) : List Char :=
  n.whole ++ (fractionChars n.fraction ++ exponentChars n.exponent)

def chars (n : NumberText) : List Char :=
  if n.negative then '-' :: n.unsigned else n.unsigned

end NumberText

end RenderGateway.Json
