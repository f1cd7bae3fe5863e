import RenderGateway.Proofs.Number.Rounding
import RenderGateway.Proofs.Number.Shortest

/-!
# Doubles times powers of two

Twice a double is a double again unless it is out of range, and half of a double is one unless it
is among the least. So a quotient by two or by one half is exact there. A double that is near
another one is so before the rounding of their distance too.
-/

namespace RenderGateway.Binary64

namespace Finite

variable {x : Finite}

theorem significand_ne_zero (h : 0 < x.magnitude) : x.significand ≠ 0 := by
  intro hzero
  rw [magnitude, hzero, Nat.cast_zero, zero_mul] at h
  exact lt_irrefl _ h

/-- Twice a double, by its exponent or, at the least exponent, by its significand. -/
theorem exists_double (h : x.magnitude < 2 ^ (1023 : Int)) :
    ∃ y : Finite, y.negative = x.negative ∧ y.magnitude = 2 * x.magnitude := by
  obtain ⟨hlt, hleast, hle, hfull⟩ := x.canonical
  by_cases hsmall : x.significand < 2 ^ 52
  · have hexponent : x.exponent = -1074 := hfull.resolve_left (by omega)
    refine ⟨⟨x.negative, 2 * x.significand, -1074, by omega, by omega, by omega, .inr rfl⟩, rfl, ?_⟩
    rw [magnitude, magnitude, hexponent, Nat.cast_mul, Nat.cast_ofNat, mul_assoc]
  · have hexponent : x.exponent < 971 := by
      by_contra hlarge
      have hcast : (2 : ℚ) ^ (52 : Int) ≤ x.significand := by exact_mod_cast not_lt.1 hsmall
      have hbig : (2 : ℚ) ^ (1023 : Int) ≤ x.magnitude := by
        calc (2 : ℚ) ^ (1023 : Int) ≤ 2 ^ (52 + x.exponent) := two_zpow_le_iff.2 (by omega)
          _ = 2 ^ (52 : Int) * 2 ^ x.exponent := two_zpow_add ..
          _ ≤ x.magnitude := mul_le_mul_of_nonneg_right hcast (two_zpow_pos _).le
      exact absurd h hbig.not_gt
    refine ⟨⟨x.negative, x.significand, 1 + x.exponent, hlt, by omega, by omega, by omega⟩, rfl, ?_⟩
    rw [magnitude, magnitude, two_zpow_add, zpow_one]
    ring

/-- Half of a double, by its exponent. -/
theorem exists_half (h : 2 ^ (-1021 : Int) ≤ x.magnitude) :
    ∃ y : Finite, y.negative = x.negative ∧ y.magnitude = x.magnitude / 2 := by
  obtain ⟨hlt, hleast, hle, hfull⟩ := x.canonical
  have hexponent : -1074 < x.exponent := by
    by_contra hsmall
    have hcast : (x.significand : ℚ) < 2 ^ (53 : Int) := by exact_mod_cast hlt
    have hbelow : x.magnitude < 2 ^ (-1021 : Int) := by
      calc x.magnitude < 2 ^ (53 : Int) * 2 ^ x.exponent :=
            mul_lt_mul_of_pos_right hcast (two_zpow_pos _)
        _ = 2 ^ (53 + x.exponent) := (two_zpow_add ..).symm
        _ ≤ 2 ^ (-1021 : Int) := two_zpow_le_iff.2 (by omega)
    exact absurd h hbelow.not_ge
  refine ⟨⟨x.negative, x.significand, -1 + x.exponent, hlt, by omega, by omega, by omega⟩, rfl, ?_⟩
  rw [magnitude, magnitude, two_zpow_add, zpow_neg_one]
  ring

end Finite

/-- A double is what its own value is rounded to. -/
theorem roundTo_magnitude {x : Finite} (hn : x.negative = false) (h : x.significand ≠ 0) :
    roundTo false x.magnitude = .finite x := by
  rw [roundTo_eq_ofRatio x.magnitude_nonneg, ← hn]
  exact ofRatio_eq x.magnitude.den_pos h (natAbs_num_div_den x.magnitude_nonneg)

/-- A quotient that is a double is not rounded. -/
theorem div_eq_of_magnitude {x y z : Finite} (hx : x.negative = false) (hy : y.negative = false)
    (hpos : y.significand ≠ 0) (hz : z.negative = false) (hne : z.significand ≠ 0)
    (h : z.magnitude = x.magnitude / y.magnitude) : finite x / finite y = finite z := by
  rw [div_eq_roundTo hx hy hpos, ← h, roundTo_magnitude hz hne]

/-- A number of 53 bits is a double. -/
theorem rounded_natCast {n : Nat} (hn : 0 < n) (h : n < 2 ^ 53) : rounded n 1 = n := by
  obtain ⟨hlow, -⟩ := ratioLog2_bounds hn Nat.one_pos
  have hlog : ratioLog2 n 1 < 53 := by
    refine two_zpow_lt_iff.1 (hlow.trans_lt ?_)
    rw [Nat.cast_one, div_one]
    exact_mod_cast h
  have hgrid : gridExponent n 1 = max (-1074) (ratioLog2 n 1 - 52) := rfl
  have hup : (gridExponent n 1).toNat = 0 := by omega
  have hvalue : ((n * 2 ^ (-gridExponent n 1).toNat : Nat) : ℚ) * 2 ^ gridExponent n 1 = n := by
    rw [two_zpow_eq, hup, Nat.pow_zero, Nat.cast_mul, Nat.cast_one, mul_assoc, mul_one_div,
      div_self (Nat.cast_ne_zero.2 (Nat.two_pow_pos _).ne'), mul_one]
  have hone : (n : ℚ) / (1 : Nat) = n := by rw [Nat.cast_one, div_one]
  have hunits : unitsAt n 1 (gridExponent n 1) = n * 2 ^ (-gridExponent n 1).toNat :=
    le_antisymm (unitsAt_le Nat.one_pos (hone.trans hvalue.symm).le)
      (le_unitsAt Nat.one_pos (hvalue.trans hone.symm).le)
  rw [rounded, hunits, hvalue]

theorem toRat?_ofNat {n : Nat} (h : n < 2 ^ 53) : (ofNat n).toRat? = some (n : ℚ) := by
  rcases Nat.eq_zero_or_pos n with rfl | hn
  · rw [Nat.cast_zero]
    exact congrArg some Finite.toRat_zero
  · rcases ofRatio_cases false hn Nat.one_pos with ⟨x, hx, hxn, hvalue⟩ | ⟨-, hlarge⟩
    · rw [ofNat, hx, toRat?, Finite.toRat_eq hxn, hvalue, rounded_natCast hn h]
    · rw [rounded_natCast hn h] at hlarge
      have hsmall : (n : ℚ) < 2 ^ (1024 : Int) := by
        calc (n : ℚ) < 2 ^ (53 : Int) := by exact_mod_cast h
          _ ≤ 2 ^ (1024 : Int) := two_zpow_le_iff.2 (by decide)
      exact absurd hsmall hlarge.not_gt

theorem exists_of_toRat?_ofNat {n : Nat} {q : ℚ} (h : (ofNat n).toRat? = some q) :
    ∃ x, ofNat n = .finite x ∧ x.negative = false ∧ x.magnitude = q := by
  have hsign : (ofNat n).isNegative = false := isNegative_ofRatio ..
  cases hn : ofNat n with
  | nan | infinite =>
    rw [hn] at h
    cases h
  | finite x =>
    rw [hn] at h hsign
    exact ⟨x, rfl, hsign, (Finite.toRat_eq hsign).symm.trans (Option.some.inj h)⟩

/-- The quotient of two natural numbers that are doubles is rounded once. -/
theorem ofNat_div_ofNat {m n : Nat} (hn : 0 < n) (hnumerator : (ofNat m).toRat? = some (m : ℚ))
    (hdenominator : (ofNat n).toRat? = some (n : ℚ)) :
    ofNat m / ofNat n = ofRatio false m n := by
  obtain ⟨x, hx, hxn, hxvalue⟩ := exists_of_toRat?_ofNat hnumerator
  obtain ⟨y, hy, hyn, hyvalue⟩ := exists_of_toRat?_ofNat hdenominator
  have hpos : 0 < y.magnitude := hyvalue.symm ▸ Nat.cast_pos.2 hn
  have hnonneg : (0 : ℚ) ≤ m / n := div_nonneg (Nat.cast_nonneg m) (Nat.cast_nonneg n)
  rw [hx, hy, div_eq_roundTo hxn hyn (Finite.significand_ne_zero hpos), hxvalue, hyvalue,
    roundTo_eq_ofRatio hnonneg]
  exact ofRatio_congr false (Rat.den_pos _) hn (natAbs_num_div_den hnonneg)

theorem finite_lt_finite_iff {x y : Finite} (hx : x.negative = false) (hy : y.negative = false) :
    finite x < finite y ↔ x.magnitude < y.magnitude := by
  rw [← Finite.toRat_eq hx, ← Finite.toRat_eq hy]
  exact decide_eq_true_iff

theorem zero_lt_finite_iff {x : Finite} :
    0 < finite x ↔ x.negative = false ∧ 0 < x.magnitude := by
  have hzero : (Finite.zero false).magnitude = 0 := by simp [Finite.zero, Finite.magnitude]
  constructor
  · intro h
    have hn : x.negative = false := isNegative_of_pos h
    exact ⟨hn, hzero ▸ (finite_lt_finite_iff rfl hn).1 h⟩
  · rintro ⟨hn, h⟩
    exact (finite_lt_finite_iff rfl hn).2 (hzero ▸ h)

theorem lt_of_lt_of_le {x z : Binary64} {y : Finite} (h : x < finite y) (h' : finite y ≤ z) :
    x < z := by
  cases x with
  | nan => cases h
  | infinite a =>
    have ha : a = true := h
    subst ha
    cases z with
    | nan => cases h'
    | infinite b => exact h'
    | finite z => rfl
  | finite x =>
    cases z with
    | nan => cases h'
    | infinite b => exact h'
    | finite z =>
      have hxy : x.toRat < y.toRat := of_decide_eq_true h
      exact decide_eq_true (hxy.trans_le (finite_le_finite_iff.1 h'))

theorem abs_ofRatio (negative : Bool) (num den : Nat) :
    (ofRatio negative num den).abs = ofRatio false num den := by
  unfold ofRatio
  split
  · rfl
  · dsimp only
    split <;> rfl

theorem abs_roundTo (zeroNegative : Bool) (q : ℚ) :
    (roundTo zeroNegative q).abs = roundTo false |q| := by
  rw [roundTo_eq_ofRatio (abs_nonneg q), Rat.num_abs_eq_abs_num, Rat.den_abs_eq_den, Int.natAbs_abs]
  unfold roundTo
  split_ifs with hzero
  · rw [hzero]
    rfl
  · exact abs_ofRatio ..

/-- The distance of a double from one, before it is rounded. -/
theorem abs_sub_one {x : Finite} (hn : x.negative = false) :
    (finite x - 1).abs = roundTo false |x.magnitude - 1| := by
  have hone : (-1 : Binary64) = finite ⟨true, 2 ^ 52, -52, by decide⟩ := rfl
  have hvalue : Finite.toRat ⟨true, 2 ^ 52, -52, by decide⟩ = -1 := by
    rw [Finite.toRat, if_pos rfl, Finite.magnitude]
    norm_num
  have hsum : finite x - 1 = roundTo false (x.toRat + -1) := by
    change finite x + (-1 : Binary64) = _
    rw [hone, ← hvalue]
    change roundTo (x.negative && true) _ = _
    rw [hn]
    rfl
  rw [hsum, abs_roundTo, Finite.toRat_eq hn, ← sub_eq_add_neg]

/-- A distance from one that is not above a bound when rounded is below every double above it. -/
theorem abs_sub_one_lt {x bound : Finite} {tolerance : Binary64} (hn : x.negative = false)
    (hbound : bound.negative = false) (hpos : bound.significand ≠ 0)
    (htolerance : tolerance < finite bound) (h : ¬ tolerance < (finite x - 1).abs) :
    |x.magnitude - 1| < bound.magnitude := by
  by_contra hfar
  have hround := roundTo_le_roundTo bound.magnitude_nonneg (not_lt.1 hfar)
  rw [roundTo_magnitude hbound hpos, ← abs_sub_one hn] at hround
  exact h (lt_of_lt_of_le htolerance hround)

end RenderGateway.Binary64
