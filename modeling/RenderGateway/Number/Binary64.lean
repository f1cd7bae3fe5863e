import RenderGateway.Number.Power

/-!
# Binary floating point

Double precision numbers as exact values. A finite double is a sign, a
significand of at most 53 bits and a binary exponent, in the one normal form
that its value has, so that equality of finite doubles is equality of values up
to the sign of zero. Every operation is the exact rational result followed by
`ofRat`, which takes the nearest double and sends a tie to the even
significand.
-/

namespace RenderGateway

namespace Binary64

/-- The normal form: 53 bits at most, and fewer than 53 only at the least exponent. -/
def Canonical (significand : Nat) (exponent : Int) : Prop :=
  significand < 2 ^ 53 ∧ -1074 ≤ exponent ∧ exponent ≤ 971 ∧
    (2 ^ 52 ≤ significand ∨ exponent = -1074)

instance (m : Nat) (e : Int) : Decidable (Canonical m e) := by
  unfold Canonical; infer_instance

/-- A finite double, of value `± significand * 2 ^ exponent`. -/
structure Finite where
  negative : Bool
  significand : Nat
  exponent : Int
  canonical : Canonical significand exponent
deriving DecidableEq, Repr

end Binary64

inductive Binary64
  | nan
  | infinite (negative : Bool)
  | finite (value : Binary64.Finite)
deriving DecidableEq, Repr

namespace Binary64

theorem canonical_zero : Canonical 0 (-1074) := by decide

namespace Finite

def zero (negative : Bool) : Finite := ⟨negative, 0, -1074, canonical_zero⟩

def magnitude (x : Finite) : Rat := (x.significand : Rat) * 2 ^ x.exponent

def toRat (x : Finite) : Rat := if x.negative then -x.magnitude else x.magnitude

def neg (x : Finite) : Finite := { x with negative := !x.negative }

def abs (x : Finite) : Finite := { x with negative := false }

end Finite

def zero (negative : Bool) : Binary64 := .finite (.zero negative)

/-- The natural number nearest to `num / den`; a half goes to the even neighbour. -/
def roundHalfEven (num den : Nat) : Nat :=
  let q := num / den
  let r := num % den
  if 2 * r < den then q
  else if den < 2 * r then q + 1
  else if q % 2 = 0 then q else q + 1

/-- The floor of the binary logarithm of `num / den`, for positive arguments. -/
def ratioLog2 (num den : Nat) : Int :=
  let k : Int := (num.log2 : Int) - den.log2
  if den * 2 ^ k.toNat ≤ num * 2 ^ (-k).toNat then k else k - 1

/-- The exponent of the doubles around `num / den`. -/
def gridExponent (num den : Nat) : Int := max (-1074) (ratioLog2 num den - 52)

/-- `num / den` counted in units of `2 ^ exponent`, to the nearest. -/
def unitsAt (num den : Nat) (exponent : Int) : Nat :=
  roundHalfEven (num * 2 ^ (-exponent).toNat) (den * 2 ^ exponent.toNat)

/-- A significand that rounding carried to 54 bits moves to the next exponent. -/
def carry (significand : Nat) (exponent : Int) : Nat × Int :=
  if significand = 2 ^ 53 then (2 ^ 52, exponent + 1) else (significand, exponent)

/-- The double nearest to `± num / den`, infinite beyond the largest one. -/
def ofRatio (negative : Bool) (num den : Nat) : Binary64 :=
  if num = 0 then zero negative
  else
    let e := gridExponent num den
    let (m, e) := carry (unitsAt num den e) e
    if h : Canonical m e then .finite ⟨negative, m, e, h⟩ else .infinite negative

def ofRat (q : Rat) : Binary64 := ofRatio (q.num < 0) q.num.natAbs q.den

def ofInt (n : Int) : Binary64 := ofRatio (n < 0) n.natAbs 1

def ofNat (n : Nat) : Binary64 := ofRatio false n 1

instance (n : Nat) : OfNat Binary64 n := ⟨ofNat n⟩

instance : Inhabited Binary64 := ⟨zero false⟩

/-- The sign bit; a value that is no number counts as positive. -/
def isNegative : Binary64 → Bool
  | nan => false
  | infinite n => n
  | finite x => x.negative

def isFinite : Binary64 → Bool
  | finite _ => true
  | _ => false

def isNaN : Binary64 → Bool
  | nan => true
  | _ => false

/-- The exact value of a finite double. -/
def toRat? : Binary64 → Option Rat
  | finite x => some x.toRat
  | _ => none

end Binary64

end RenderGateway
