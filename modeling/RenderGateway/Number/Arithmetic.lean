import RenderGateway.Number.Binary64
import RenderGateway.Number.Word

/-!
# Arithmetic on doubles

Sum, product, quotient and order of doubles, and the ways back to integers.
A finite result is the exact one rounded once. An order comparison with a
value that is no number is false.
-/

namespace RenderGateway.Binary64

protected def neg : Binary64 → Binary64
  | nan => nan
  | infinite n => infinite !n
  | finite x => finite x.neg

instance : Neg Binary64 := ⟨Binary64.neg⟩

def abs : Binary64 → Binary64
  | nan => nan
  | infinite _ => infinite false
  | finite x => finite x.abs

/-- Rounds an exact result; a zero takes the given sign. -/
def roundTo (zeroNegative : Bool) (q : Rat) : Binary64 :=
  if q.num = 0 then zero zeroNegative else ofRat q

protected def add : Binary64 → Binary64 → Binary64
  | nan, _ | _, nan => nan
  | infinite a, infinite b => if a = b then infinite a else nan
  | infinite a, finite _ | finite _, infinite a => infinite a
  | finite x, finite y => roundTo (x.negative && y.negative) (x.toRat + y.toRat)

instance : Add Binary64 := ⟨Binary64.add⟩

instance : Sub Binary64 := ⟨fun x y => x + -y⟩

protected def mul : Binary64 → Binary64 → Binary64
  | nan, _ | _, nan => nan
  | infinite a, infinite b => infinite (a != b)
  | infinite a, finite x | finite x, infinite a =>
    if x.significand = 0 then nan else infinite (a != x.negative)
  | finite x, finite y => roundTo (x.negative != y.negative) (x.toRat * y.toRat)

instance : Mul Binary64 := ⟨Binary64.mul⟩

protected def div : Binary64 → Binary64 → Binary64
  | nan, _ | _, nan => nan
  | infinite _, infinite _ => nan
  | infinite a, finite x => infinite (a != x.negative)
  | finite x, infinite a => zero (a != x.negative)
  | finite x, finite y =>
    if y.significand = 0 then
      if x.significand = 0 then nan else infinite (x.negative != y.negative)
    else roundTo (x.negative != y.negative) (x.toRat / y.toRat)

instance : Div Binary64 := ⟨Binary64.div⟩

protected def lt : Binary64 → Binary64 → Bool
  | nan, _ | _, nan => false
  | infinite a, infinite b => a && !b
  | infinite a, finite _ => a
  | finite _, infinite b => !b
  | finite x, finite y => decide (x.toRat < y.toRat)

protected def le : Binary64 → Binary64 → Bool
  | nan, _ | _, nan => false
  | infinite a, infinite b => a || !b
  | infinite a, finite _ => a
  | finite _, infinite b => !b
  | finite x, finite y => decide (x.toRat ≤ y.toRat)

instance : LT Binary64 := ⟨fun x y => x.lt y = true⟩

instance : LE Binary64 := ⟨fun x y => x.le y = true⟩

instance (x y : Binary64) : Decidable (x < y) := inferInstanceAs (Decidable (x.lt y = true))

instance (x y : Binary64) : Decidable (x ≤ y) := inferInstanceAs (Decidable (x.le y = true))

/-- The distance from 1 to the next double. -/
def epsilon : Binary64 := ofRat (mkRat 1 (2 ^ 52))

/-- More than one `epsilon` away from 1. -/
def differsFromOne (x : Binary64) : Prop := epsilon < (x - 1).abs

instance (x : Binary64) : Decidable x.differsFromOne := by
  unfold differsFromOne; infer_instance

namespace Finite

/-- The nearest integer, a half going away from zero. -/
def round (x : Finite) : Int :=
  let n := (x.magnitude + mkRat 1 2).floor
  if x.negative then -n else n

def floor (x : Finite) : Int := x.toRat.floor

end Finite

/-- The nearest integer within the signed 64-bit range, 0 for what is no number. -/
def roundToInt64 : Binary64 → Int64
  | nan => 0
  | infinite true => Int64.minValue
  | infinite false => Int64.maxValue
  | finite x => Word.clampInt64 x.round

/-- The floor, kept between the bounds; the lower bound for what is no number. -/
def floorWithin (lo hi : Int) : Binary64 → Int
  | nan => lo
  | infinite true => lo
  | infinite false => hi
  | finite x => max lo (min hi x.floor)

end RenderGateway.Binary64
