import RenderGateway.Number.Power

/-!
# Integers within a word

Two ways to bring an unbounded integer to 64 bits: to stop at the ends of the range, and to
wrap around, as the sums and differences of words do.
-/

namespace RenderGateway.Word

/-- What 64 bits hold of an exact sum or difference. -/
def wrap (n : Int) : Int := (Int64.ofInt n).toInt

theorem wrap_eq_self {n : Int} (lo : -2 ^ 63 ≤ n) (hi : n < 2 ^ 63) : wrap n = n :=
  Int64.toInt_ofInt_of_le lo hi

/-- The magnitude of a word, except that the least one is its own. -/
def magnitude (n : Int) : Int := wrap n.natAbs

def clampInt64 (n : Int) : Int64 :=
  Int64.ofInt (max Int64.minValue.toInt (min Int64.maxValue.toInt n))

theorem toInt_clampInt64 (n : Int) (lo : Int64.minValue.toInt ≤ n) (hi : n ≤ Int64.maxValue.toInt) :
    (clampInt64 n).toInt = n := by
  have h : max Int64.minValue.toInt (min Int64.maxValue.toInt n) = n := by omega
  rw [clampInt64, h]
  exact Int64.toInt_ofInt_of_le lo (by have : Int64.maxValue.toInt = 2 ^ 63 - 1 := by decide
                                       omega)

/-- A count as a word. -/
def ofNat (n : Nat) : UInt64 := UInt64.ofNat (min n (2 ^ 64 - 1))

theorem toNat_ofNat (n : Nat) : (ofNat n).toNat = min n (2 ^ 64 - 1) := by
  simp only [ofNat, UInt64.toNat_ofNat']
  omega

end RenderGateway.Word
