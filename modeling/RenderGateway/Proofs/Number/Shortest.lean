import RenderGateway.Number.Decimal
import RenderGateway.Proofs.Number.Digits
import RenderGateway.Proofs.Number.Magnitude

/-!
# Doubles from their digits

A double is what its own value is rounded to, so that all its digits read back as it. The digits
that are written are the first that read back, all of them at the latest.
-/

namespace RenderGateway

open Numeral

namespace Binary64

theorem ten_pow_pos (n : Nat) : 0 < 10 ^ n := Nat.pow_pos (by decide)

section

variable {x : Finite}

/-- The exponent at which the value of a double is rounded is its own. -/
theorem gridExponent_eq {num den : Nat} (hnum : 0 < num) (hden : 0 < den)
    (h : (num : ℚ) / den = x.significand * 2 ^ x.exponent) :
    gridExponent num den = x.exponent := by
  obtain ⟨hlow, hhigh⟩ := ratioLog2_bounds hnum hden
  rw [h] at hlow hhigh
  obtain ⟨hlt, hleast, -, hnormal⟩ := x.canonical
  have hupper : ratioLog2 num den < 53 + x.exponent := by
    refine two_zpow_lt_iff.1 (hlow.trans_lt ?_)
    rw [two_zpow_add]
    refine mul_lt_mul_of_pos_right ?_ (two_zpow_pos _)
    exact_mod_cast hlt
  have hgrid : gridExponent num den = max (-1074) (ratioLog2 num den - 52) := rfl
  rcases hnormal with hfull | hleastExponent
  · have hlower : 52 + x.exponent < ratioLog2 num den + 1 := by
      refine two_zpow_lt_iff.1 (lt_of_le_of_lt ?_ hhigh)
      rw [two_zpow_add]
      refine mul_le_mul_of_nonneg_right ?_ (two_zpow_pos _).le
      exact_mod_cast hfull
    omega
  · omega

/-- A double is what its own value is rounded to. -/
theorem ofRatio_eq {num den : Nat} (hden : 0 < den) (hx : x.significand ≠ 0)
    (h : (num : ℚ) / den = x.significand * 2 ^ x.exponent) :
    ofRatio x.negative num den = .finite x := by
  have hpos : (0 : ℚ) < num / den := by
    rw [h]
    exact mul_pos (Nat.cast_pos.2 (Nat.pos_of_ne_zero hx)) (two_zpow_pos _)
  have hnum : num ≠ 0 := by
    rintro rfl
    simp at hpos
  have hgrid := gridExponent_eq (Nat.pos_of_ne_zero hnum) hden h
  have hunits : unitsAt num den x.exponent = x.significand :=
    le_antisymm (unitsAt_le hden h.le) (le_unitsAt hden h.ge)
  have hcarry : x.significand ≠ 2 ^ 53 := x.canonical.1.ne
  simp only [ofRatio, if_neg hnum, hgrid, hunits, carry, if_neg hcarry, dif_pos x.canonical]

end

namespace Finite

variable (x : Finite)

/-- The power of five that makes the fraction of a double a decimal one. -/
def fives : Nat := (-x.exponent).toNat

theorem coefficient_lt {a : Nat} (h : 2 ^ 53 * 2 ^ 971 < 10 ^ a) :
    x.exactDecimal.coefficient < 10 ^ (a + x.fives) := by
  obtain ⟨hlt, -, hle, -⟩ := x.canonical
  have hpow : 2 ^ 53 * 2 ^ x.exponent.toNat < 10 ^ a :=
    lt_of_le_of_lt (Nat.mul_le_mul_left _ (Nat.pow_le_pow_right (by decide) (by omega))) h
  calc x.significand * 2 ^ x.exponent.toNat * 5 ^ x.fives
      ≤ 2 ^ 53 * 2 ^ x.exponent.toNat * 10 ^ x.fives :=
        Nat.mul_le_mul (Nat.mul_le_mul_right _ hlt.le) (Nat.pow_le_pow_left (by decide) _)
    _ < 10 ^ a * 10 ^ x.fives := Nat.mul_lt_mul_of_pos_right hpow (ten_pow_pos _)
    _ = 10 ^ (a + x.fives) := (Nat.pow_add ..).symm

theorem le_length_coefficient {b : Nat} (hx : x.significand ≠ 0) (h : 2 ^ 1074 < 10 ^ b) :
    x.fives < (digits x.exactDecimal.coefficient).length + b := by
  obtain ⟨-, hleast, -, -⟩ := x.canonical
  have hfives : x.fives = (-x.exponent).toNat := rfl
  by_contra hshort
  have hlength : (digits x.exactDecimal.coefficient).length ≤ x.fives - b := by omega
  have hpos : 0 < (digits x.exactDecimal.coefficient).length := Nat.length_toDigits_pos
  have hsmall := (length_digits_le_iff (by omega)).1 hlength
  have hcoefficient : 5 ^ x.fives ≤ x.exactDecimal.coefficient :=
    Nat.le_mul_of_pos_left _ (Nat.mul_pos (Nat.pos_of_ne_zero hx) (Nat.two_pow_pos _))
  have htwo : 2 ^ x.fives < 10 ^ b :=
    lt_of_le_of_lt (Nat.pow_le_pow_right (by decide) (by omega)) h
  have hsplit : b + (x.fives - b) = x.fives := by omega
  have hten : 10 ^ x.fives < 10 ^ x.fives := by
    calc 10 ^ x.fives = 2 ^ x.fives * 5 ^ x.fives := Nat.mul_pow 2 5 _
      _ < 10 ^ b * 10 ^ (x.fives - b) := Nat.mul_lt_mul'' htwo (hcoefficient.trans_lt hsmall)
      _ = 10 ^ x.fives := by rw [← Nat.pow_add, hsplit]
  exact lt_irrefl _ hten

theorem exactDecimal_ratio :
    ((x.exactDecimal.coefficient * 10 ^ x.exactDecimal.exponent.toNat : Nat) : ℚ) /
      ((10 ^ (-x.exactDecimal.exponent).toNat : Nat) : ℚ) = x.significand * 2 ^ x.exponent := by
  have hexponent : x.exactDecimal.exponent = min 0 x.exponent := rfl
  have hup : x.exactDecimal.exponent.toNat = 0 := by omega
  have hdown : (-x.exactDecimal.exponent).toNat = x.fives := by unfold fives; omega
  have hten : (10 : ℚ) ^ x.fives = 2 ^ x.fives * 5 ^ x.fives := by
    rw [← mul_pow]
    norm_num
  rw [hup, hdown, two_zpow_eq, Nat.pow_zero, Nat.mul_one]
  change ((x.significand * 2 ^ x.exponent.toNat * 5 ^ x.fives : Nat) : ℚ) /
    ((10 ^ x.fives : Nat) : ℚ) = x.significand *
      (((2 ^ x.exponent.toNat : Nat) : ℚ) / ((2 ^ x.fives : Nat) : ℚ))
  push_cast
  rw [hten, ← mul_div_assoc, mul_div_mul_right _ _ (pow_ne_zero _ (by norm_num))]

/-- All digits of a double read back as it. -/
theorem toBinary64_exactDecimal (hx : x.significand ≠ 0) :
    x.exactDecimal.toBinary64 = .finite x := by
  have hcoefficient : x.exactDecimal.coefficient ≠ 0 :=
    (Nat.mul_pos (Nat.mul_pos (Nat.pos_of_ne_zero hx) (Nat.two_pow_pos _))
      (Nat.pow_pos (by decide))).ne'
  have hexponent : x.exactDecimal.exponent = min 0 x.exponent := rfl
  have hfives : x.fives = (-x.exponent).toNat := rfl
  have hupper := (length_digits_le_iff (by omega)).2 (x.coefficient_lt (a := 309) (by decide +kernel))
  have hlower := x.le_length_coefficient (b := 324) hx (by decide +kernel)
  have hnear : ¬ (x.exactDecimal.coefficient = 0 ∨
      ((digits x.exactDecimal.coefficient).length : Int) + x.exactDecimal.exponent < -330) := by
    omega
  have hfar : ¬ 310 <
      ((digits x.exactDecimal.coefficient).length : Int) + x.exactDecimal.exponent := by
    omega
  rw [Decimal.toBinary64, if_neg hnear, if_neg hfar]
  exact ofRatio_eq (ten_pow_pos _) hx x.exactDecimal_ratio

theorem toBinary64_of_neighbour? {e : Int} {d : Decimal} (h : x.neighbour? e = some d) :
    d.toBinary64 = .finite x := by
  dsimp only [neighbour?] at h
  have hreads := List.find?_some h
  exact of_decide_eq_true hreads

theorem eq_zero {x : Finite} (h : x.significand = 0) : x = zero x.negative := by
  obtain ⟨negative, significand, exponent, hcanonical⟩ := x
  obtain rfl : significand = 0 := h
  obtain rfl : exponent = -1074 := by
    obtain ⟨-, -, -, hfull | hleast⟩ := hcanonical
    · omega
    · exact hleast
  rfl

/-- The digits of a double read back as it. -/
theorem toBinary64_shortest : x.shortest.toBinary64 = .finite x := by
  by_cases hx : x.significand = 0
  · rw [eq_zero hx]
    rfl
  · simp only [shortest, if_neg hx]
    cases hfound : (List.range 18).findSome? fun n =>
        x.neighbour? (Decimal.ratioLog10 x.ratio.1 x.ratio.2 + 1 - (n : Nat)) with
    | none => exact x.toBinary64_exactDecimal hx
    | some d =>
      obtain ⟨n, -, hn⟩ := List.exists_of_findSome?_eq_some hfound
      exact x.toBinary64_of_neighbour? hn

end Finite

end Binary64

end RenderGateway
