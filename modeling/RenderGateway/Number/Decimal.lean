import RenderGateway.Number.Binary64
import RenderGateway.Number.Numeral

/-!
# Decimal text of doubles

A decimal is an integer coefficient with a power of ten. Reading takes the
double nearest to a decimal. Writing offers a fixed number of places, where a
half goes to the even digit, and the shortest digits that read back to the same
double.
-/

namespace RenderGateway

/-- The number `± coefficient * 10 ^ exponent`. -/
structure Decimal where
  negative : Bool
  coefficient : Nat
  exponent : Int
deriving DecidableEq, Repr

namespace Decimal

open Numeral

/-- The nearest double. Magnitudes far outside the range of doubles are settled
by counting digits, without forming the power of ten. -/
def toBinary64 (d : Decimal) : Binary64 :=
  let size := (digits d.coefficient).length + d.exponent
  if d.coefficient = 0 ∨ size < -330 then .zero d.negative
  else if 310 < size then .infinite d.negative
  else Binary64.ofRatio d.negative
    (d.coefficient * 10 ^ d.exponent.toNat) (10 ^ (-d.exponent).toNat)

/-- A decimal from its sign, the digits on both sides of the point, and its exponent. -/
def ofParts (negative : Bool) (whole fraction : List Char) (exponent : Int) : Decimal :=
  ⟨negative, value (whole ++ fraction), exponent - fraction.length⟩

/-- The end of a numeral: nothing, or a marked exponent. -/
def exponentOfChars? : List Char → Option Int
  | [] => some 0
  | c :: cs => if c = 'e' ∨ c = 'E' then intOfChars? cs else none

/-- Digits with at most one point, not all absent, and an optional exponent. -/
def unsignedOfChars? (negative : Bool) (cs : List Char) : Option Decimal :=
  let (whole, rest) := cs.span Char.isDigit
  let (fraction, rest) := match rest with
    | '.' :: rest => rest.span Char.isDigit
    | rest => ([], rest)
  if whole = [] ∧ fraction = [] then none
  else (exponentOfChars? rest).map (ofParts negative whole fraction)

/-- The floor of the decimal logarithm of `num / den`, for positive arguments. -/
def ratioLog10 (num den : Nat) : Int :=
  if den ≤ num then ((digits (num / den)).length : Int) - 1
  else -(((digits ((den - 1) / num)).length : Nat) : Int)

end Decimal

namespace Binary64

open Numeral

/-- A double in text: an optional sign, then a decimal numeral or, in any case,
one of the words for infinity and for what is no number. -/
def ofChars? (cs : List Char) : Option Binary64 :=
  let (negative, cs) := match cs with
    | '-' :: cs => (true, cs)
    | '+' :: cs => (false, cs)
    | cs => (false, cs)
  let word := String.ofList (cs.map Char.toLower)
  if word = "inf" ∨ word = "infinity" then some (infinite negative)
  else if word = "nan" then some nan
  else (Decimal.unsignedOfChars? negative cs).map Decimal.toBinary64

def ofText? (s : String) : Option Binary64 := ofChars? s.toList

namespace Finite

/-- The magnitude as a fraction of natural numbers. -/
def ratio (x : Finite) : Nat × Nat :=
  (x.significand * 2 ^ x.exponent.toNat, 2 ^ (-x.exponent).toNat)

/-- The magnitude in units of `10 ^ -places`; a half goes to the even unit. -/
def scaled (x : Finite) (places : Nat) : Nat :=
  roundHalfEven (x.ratio.1 * 10 ^ places) x.ratio.2

/-- The nearer of the two neighbours of `x` on the grid of `10 ^ exponent` that
reads back as `x`, if one does. -/
def neighbour? (x : Finite) (exponent : Int) : Option Decimal :=
  let num := x.ratio.1 * 10 ^ (-exponent).toNat
  let den := x.ratio.2 * 10 ^ exponent.toNat
  let below : Decimal := ⟨x.negative, num / den, exponent⟩
  let above : Decimal := ⟨x.negative, num / den + 1, exponent⟩
  let candidates := if 2 * (num % den) < den then [below, above] else [above, below]
  candidates.find? fun d => d.toBinary64 = finite x

/-- All digits of a double. -/
def exactDecimal (x : Finite) : Decimal :=
  ⟨x.negative, x.ratio.1 * 5 ^ (-x.exponent).toNat, min 0 x.exponent⟩

/-- The decimal with the fewest digits that reads back as the double, and of
these the nearest to it. -/
def shortest (x : Finite) : Decimal :=
  if x.significand = 0 then ⟨x.negative, 0, 0⟩
  else
    let top := Decimal.ratioLog10 x.ratio.1 x.ratio.2
    ((List.range 18).findSome? fun n => x.neighbour? (top + 1 - (n : Nat))).getD x.exactDecimal

end Finite

end Binary64

namespace Decimal

open Numeral

def sign (d : Decimal) : List Char := if d.negative then ['-'] else []

/-- Positional notation, with a point only if digits follow it. -/
def positional (d : Decimal) : List Char :=
  if 0 ≤ d.exponent then
    d.sign ++ digits (d.coefficient * 10 ^ d.exponent.toNat)
  else
    let places := (-d.exponent).toNat
    d.sign ++ digits (d.coefficient / 10 ^ places) ++
      '.' :: padded places (d.coefficient % 10 ^ places)

end Decimal

namespace Binary64

open Numeral

/-- Positional text with exactly `places` digits after the point. -/
def Finite.fixed (x : Finite) (places : Nat) : List Char :=
  let n := x.scaled places
  (if x.negative then ['-'] else []) ++ digits (n / 10 ^ places) ++
    '.' :: padded places (n % 10 ^ places)

/-- Text of a double from a way to write the finite ones. -/
def text (write : Finite → List Char) : Binary64 → String
  | nan => "NaN"
  | infinite true => "-inf"
  | infinite false => "inf"
  | finite x => String.ofList (write x)

def fixed (places : Nat) (x : Binary64) : String := x.text fun y => y.fixed places

/-- The shortest digits in positional notation. -/
def display (x : Binary64) : String := x.text fun y => y.shortest.positional

end Binary64

end RenderGateway
