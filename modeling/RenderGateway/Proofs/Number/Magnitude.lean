import Mathlib.Algebra.Order.Field.Power
import Mathlib.Tactic.NormNum
import RenderGateway.Proofs.Number.Sign

/-!
# Magnitudes of doubles

The binary logarithm that is computed of a quotient is the exponent of the power of two below it,
and what the quotient is counted to in units of its exponent has the 53 bits of a significand.
-/

namespace RenderGateway.Binary64

theorem two_zpow_eq (k : Int) :
    (2 : ℚ) ^ k = ((2 ^ k.toNat : Nat) : ℚ) / ((2 ^ (-k).toNat : Nat) : ℚ) := by
  obtain ⟨n, rfl | rfl⟩ := k.eq_nat_or_neg <;> simp

theorem two_zpow_pos (k : Int) : (0 : ℚ) < 2 ^ k := zpow_pos two_pos k

theorem two_zpow_le_iff {j k : Int} : (2 : ℚ) ^ j ≤ 2 ^ k ↔ j ≤ k :=
  zpow_le_zpow_iff_right₀ one_lt_two

theorem two_zpow_lt_iff {j k : Int} : (2 : ℚ) ^ j < 2 ^ k ↔ j < k :=
  zpow_lt_zpow_iff_right₀ one_lt_two

theorem two_zpow_add (j k : Int) : (2 : ℚ) ^ (j + k) = 2 ^ j * 2 ^ k := zpow_add₀ two_ne_zero j k

theorem log2_bounds {n : Nat} (h : 0 < n) :
    (2 : ℚ) ^ (n.log2 : Int) ≤ n ∧ (n : ℚ) < 2 ^ ((n.log2 : Int) + 1) := by
  rw [← Nat.cast_succ, zpow_natCast, zpow_natCast]
  exact ⟨by exact_mod_cast Nat.log2_self_le h.ne', by exact_mod_cast Nat.lt_log2_self⟩

section

variable {num den : Nat}

theorem two_zpow_le_div_iff (hden : 0 < den) (k : Int) :
    (2 : ℚ) ^ k ≤ num / den ↔ den * 2 ^ k.toNat ≤ num * 2 ^ (-k).toNat := by
  have hpow : (0 : ℚ) < ((2 ^ (-k).toNat : Nat) : ℚ) := Nat.cast_pos.2 (Nat.two_pow_pos _)
  rw [two_zpow_eq, div_le_div_iff₀ hpow (Nat.cast_pos.2 hden), ← Nat.cast_mul, ← Nat.cast_mul,
    Nat.cast_le, Nat.mul_comm den]

/-- The binary logarithm of a quotient is the exponent of the power of two below it. -/
theorem ratioLog2_bounds (hnum : 0 < num) (hden : 0 < den) :
    (2 : ℚ) ^ ratioLog2 num den ≤ num / den ∧ (num : ℚ) / den < 2 ^ (ratioLog2 num den + 1) := by
  have hdpos : (0 : ℚ) < den := Nat.cast_pos.2 hden
  obtain ⟨hnumLow, hnumHigh⟩ := log2_bounds hnum
  obtain ⟨hdenLow, hdenHigh⟩ := log2_bounds hden
  by_cases h : den * 2 ^ ((num.log2 : Int) - den.log2).toNat ≤
      num * 2 ^ (-((num.log2 : Int) - den.log2)).toNat
  · have hk : ratioLog2 num den = (num.log2 : Int) - den.log2 := if_pos h
    rw [hk]
    refine ⟨(two_zpow_le_div_iff hden _).2 h, (div_lt_iff₀ hdpos).2 ?_⟩
    calc (num : ℚ) < 2 ^ ((num.log2 : Int) + 1) := hnumHigh
      _ = 2 ^ ((num.log2 : Int) - den.log2 + 1) * 2 ^ (den.log2 : Int) := by
        rw [← two_zpow_add]
        congr 1
        omega
      _ ≤ 2 ^ ((num.log2 : Int) - den.log2 + 1) * den :=
        mul_le_mul_of_nonneg_left hdenLow (two_zpow_pos _).le
  · have hk : ratioLog2 num den = (num.log2 : Int) - den.log2 - 1 := if_neg h
    rw [hk]
    refine ⟨(le_div_iff₀ hdpos).2 ?_, ?_⟩
    · calc (2 : ℚ) ^ ((num.log2 : Int) - den.log2 - 1) * den
          ≤ 2 ^ ((num.log2 : Int) - den.log2 - 1) * 2 ^ ((den.log2 : Int) + 1) :=
            mul_le_mul_of_nonneg_left hdenHigh.le (two_zpow_pos _).le
        _ = 2 ^ (num.log2 : Int) := by
          rw [← two_zpow_add]
          congr 1
          omega
        _ ≤ num := hnumLow
    · rw [Int.sub_add_cancel]
      exact lt_of_not_ge fun hle => h ((two_zpow_le_div_iff hden _).1 hle)

theorem le_roundHalfEven (hden : 0 < den) {n : Nat} (h : n * den ≤ num) :
    n ≤ roundHalfEven num den := by
  have hq : n ≤ num / den := (Nat.le_div_iff_mul_le hden).2 h
  dsimp only [roundHalfEven]
  split_ifs <;> omega

theorem roundHalfEven_le (hden : 0 < den) {n : Nat} (h : num ≤ n * den) :
    roundHalfEven num den ≤ n := by
  have hq : num / den ≤ n := Nat.div_le_of_le_mul (by rwa [Nat.mul_comm])
  have hup : num % den ≠ 0 → num / den + 1 ≤ n := by
    intro hr
    have hdiv := Nat.div_add_mod num den
    have hlt : den * (num / den) < den * n := by
      rw [Nat.mul_comm den n]
      omega
    exact Nat.lt_of_mul_lt_mul_left hlt
  dsimp only [roundHalfEven]
  split_ifs with h₁ h₂ h₃
  · exact hq
  · exact hup (by omega)
  · exact hq
  · exact hup (by omega)

theorem scaled_div (num den : Nat) (e : Int) :
    ((num * 2 ^ (-e).toNat : Nat) : ℚ) / ((den * 2 ^ e.toNat : Nat) : ℚ) = num / den / 2 ^ e := by
  rw [two_zpow_eq e, Nat.cast_mul, Nat.cast_mul, div_div_div_eq]

theorem le_unitsAt (hden : 0 < den) {n : Nat} {e : Int} (h : (n : ℚ) * 2 ^ e ≤ num / den) :
    n ≤ unitsAt num den e := by
  have hpos : 0 < den * 2 ^ e.toNat := Nat.mul_pos hden (Nat.two_pow_pos _)
  have hcast : ((n * (den * 2 ^ e.toNat) : Nat) : ℚ) ≤ ((num * 2 ^ (-e).toNat : Nat) : ℚ) := by
    rw [Nat.cast_mul n, ← le_div_iff₀ (Nat.cast_pos.2 hpos), scaled_div]
    exact (le_div_iff₀ (two_zpow_pos e)).2 h
  exact le_roundHalfEven hpos (Nat.cast_le.1 hcast)

theorem unitsAt_le (hden : 0 < den) {n : Nat} {e : Int} (h : (num : ℚ) / den ≤ n * 2 ^ e) :
    unitsAt num den e ≤ n := by
  have hpos : 0 < den * 2 ^ e.toNat := Nat.mul_pos hden (Nat.two_pow_pos _)
  have hcast : ((num * 2 ^ (-e).toNat : Nat) : ℚ) ≤ ((n * (den * 2 ^ e.toNat) : Nat) : ℚ) := by
    rw [Nat.cast_mul n, ← div_le_iff₀ (Nat.cast_pos.2 hpos), scaled_div]
    exact (div_le_iff₀ (two_zpow_pos e)).2 h
  exact roundHalfEven_le hpos (Nat.cast_le.1 hcast)

theorem gridExponent_ge (num den : Nat) : -1074 ≤ gridExponent num den := le_max_left _ _

/-- What a quotient is counted to at its exponent fits into a significand, but for a carry. -/
theorem unitsAt_gridExponent_le (hnum : 0 < num) (hden : 0 < den) :
    unitsAt num den (gridExponent num den) ≤ 2 ^ 53 := by
  obtain ⟨-, hhigh⟩ := ratioLog2_bounds hnum hden
  have hgrid : gridExponent num den = max (-1074) (ratioLog2 num den - 52) := rfl
  apply unitsAt_le hden
  calc (num : ℚ) / den ≤ 2 ^ (ratioLog2 num den + 1) := hhigh.le
    _ ≤ 2 ^ (53 + gridExponent num den) := two_zpow_le_iff.2 (by omega)
    _ = ((2 ^ 53 : Nat) : ℚ) * 2 ^ gridExponent num den := by
      rw [two_zpow_add]
      norm_num

/-- It fills the significand, but at the least exponent. -/
theorem le_unitsAt_gridExponent (hnum : 0 < num) (hden : 0 < den)
    (h : gridExponent num den ≠ -1074) : 2 ^ 52 ≤ unitsAt num den (gridExponent num den) := by
  obtain ⟨hlow, -⟩ := ratioLog2_bounds hnum hden
  have hgrid : gridExponent num den = max (-1074) (ratioLog2 num den - 52) := rfl
  apply le_unitsAt hden
  calc ((2 ^ 52 : Nat) : ℚ) * 2 ^ gridExponent num den
      = 2 ^ (52 + gridExponent num den) := by
        rw [two_zpow_add]
        norm_num
    _ ≤ 2 ^ ratioLog2 num den := two_zpow_le_iff.2 (by omega)
    _ ≤ num / den := hlow

end

end RenderGateway.Binary64
