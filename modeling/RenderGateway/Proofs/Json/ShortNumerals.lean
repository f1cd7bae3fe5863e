import RenderGateway.Proofs.Json.Documents
import RenderGateway.Proofs.Number.Scaling

/-!
# Numerals of few digits

If the digits of a numeral fit the significand of a double and its power of ten is a double too, one
division is all that rounds, and the numeral is read as the double nearest to it. So a double is
read back from its own digits if these are few and not far from the point.
-/

namespace RenderGateway

open Numeral

namespace Binary64.Finite

/-- The digits of a double as a quotient, to which it is nearest. -/
theorem ofRatio_shortest {x : Finite} (hx : x.significand ≠ 0) :
    ofRatio x.shortest.negative (x.shortest.coefficient * 10 ^ x.shortest.exponent.toNat)
      (10 ^ (-x.shortest.exponent).toNat) = .finite x := by
  have hnearest := x.toBinary64_shortest
  dsimp only [Decimal.toBinary64] at hnearest
  split_ifs at hnearest
  · have hzero : 0 = x.significand := congrArg significand (Binary64.finite.inj hnearest)
    exact absurd hzero.symm hx
  · exact hnearest

end Binary64.Finite

namespace Json.NumberText

open Binary64

/-- Digits that fit are all taken. -/
theorem absorb_eq {ds : List Char} {significand : Nat}
    (h : Nat.ofDigitChars 10 ds significand < 2 ^ 64) :
    absorb significand ds = (Nat.ofDigitChars 10 ds significand, []) := by
  induction ds generalizing significand with
  | nil => rfl
  | cons c cs ih =>
    rw [Nat.ofDigitChars_cons, Nat.mul_comm] at h ⊢
    have hnext : significand * 10 + (c.toNat - '0'.toNat) < 2 ^ 64 := by
      refine Nat.lt_of_le_of_lt ?_ h
      rw [Nat.ofDigitChars_eq_ofDigitChars_zero]
      exact (Nat.le_mul_of_pos_left _ (Nat.pow_pos (by decide))).trans (Nat.le_add_right _ _)
    simp only [absorb, if_pos hnext, ih h]

section

variable {units places k : Nat} {exponent : Option Int} (negative : Bool)

theorem parts_ofUnits (hunits : units < 2 ^ 64) :
    (ofUnits negative units places exponent).parts = (units, .ofNat 0 - .ofNat places) := by
  have hwhole : absorb 0 (digits (units / 10 ^ places)) = (units / 10 ^ places, []) := by
    have hvalue : Nat.ofDigitChars 10 (digits (units / 10 ^ places)) 0 = units / 10 ^ places :=
      value_digits _
    rw [absorb_eq (hvalue.trans_lt ((Nat.div_le_self _ _).trans_lt hunits)), hvalue]
  by_cases hplaces : places = 0
  · subst hplaces
    simp only [parts, ofUnits, hwhole]
    simp [absorb]
  · have hlength : (padded places (units % 10 ^ places)).length = places :=
      length_padded (Nat.pos_of_ne_zero hplaces) (Nat.mod_lt _ (Nat.pow_pos (by decide)))
    have hvalue : Nat.ofDigitChars 10 (padded places (units % 10 ^ places))
        (units / 10 ^ places) = units := by
      rw [Nat.ofDigitChars_eq_ofDigitChars_zero, hlength]
      change _ + value (padded places (units % 10 ^ places)) = _
      rw [value_padded, Nat.div_add_mod]
    simp only [parts, ofUnits, hwhole, if_neg hplaces, Option.getD_some,
      absorb_eq (hvalue.trans_lt hunits), hvalue, hlength, List.length_nil, Nat.sub_zero]

theorem toInt_zero_sub_ofNat (h : places < 2 ^ 31) :
    (Int32.ofNat 0 - Int32.ofNat places).toInt = -places := by
  rw [Int32.toInt_sub, Int32.toInt_ofNat_of_lt (by decide), Int32.toInt_ofNat_of_lt h, Int.bmod_def]
  omega

theorem toRat?_powerOfTen (h : k ≤ 22) : (powerOfTen k).toRat? = some (10 ^ k) := by
  have hall : ∀ k ≤ 22, (powerOfTen k).toRat? = some (10 ^ k) := by decide +kernel
  exact hall k h

/-- A number of 53 bits over a power of ten that is a double. -/
theorem scale_ofNat (hunits : units < 2 ^ 53) (hk : 0 < k) (hpower : k ≤ 22) :
    scale (Binary64.ofNat units) (-k) = ofRatio false units (10 ^ k) := by
  have hsteps : ((-(k : Int)).natAbs - 1) / maxPower = 0 :=
    Nat.div_eq_of_lt (by unfold maxPower; omega)
  have hnatAbs : (-(k : Int)).natAbs = k := by omega
  have hten : (Binary64.ofNat (10 ^ k)).toRat? = some ((10 ^ k : Nat) : ℚ) := by
    rw [Nat.cast_pow]
    exact toRat?_powerOfTen hpower
  rw [scale, if_pos (by omega), hsteps, hnatAbs, lower, powerOfTen,
    ofNat_div_ofNat (ten_pow_pos k) (toRat?_ofNat hunits) hten]

theorem magnitude_ofUnits (hunits : units < 2 ^ 53) (hplaces : places < 2 ^ 31)
    (hexponent : (exponent.getD 0).natAbs < 2 ^ 31) (hk : 0 < k) (hpower : k ≤ 22)
    (h : -(places : Int) + exponent.getD 0 = -k) :
    (ofUnits negative units places exponent).magnitude = ofRatio false units (10 ^ k) := by
  have hparts : (ofUnits negative units places exponent).parts =
      (units, .ofNat 0 - .ofNat places) := parts_ofUnits negative (by omega)
  have hvalue : (ofUnits negative units places exponent).exponent = exponent := rfl
  have hclamp : max (-2 ^ 31) (min (2 ^ 31 - 1)
      (-(places : Int) + exponent.getD 0)) = -(k : Int) := by omega
  simp only [magnitude, hparts, hvalue, if_neg (Nat.not_le.2 hexponent),
    toInt_zero_sub_ofNat hplaces, hclamp, scale_ofNat hunits hk hpower]

/-- A numeral is read as the double of its sign with its magnitude. -/
theorem double?_of_magnitude {n : NumberText} {num den : Nat} {x : Finite}
    (hn : n.magnitude = ofRatio false num den) (hx : ofRatio n.negative num den = .finite x) :
    n.double? = some x := by
  have hsign : x.negative = n.negative := by
    have hnegative := isNegative_ofRatio n.negative num den
    rw [hx] at hnegative
    exact hnegative
  rw [double?, hn, ← abs_ofRatio n.negative, hx, ← hsign]
  rfl

end

end Json.NumberText

namespace Binary64.Finite

open Json

theorem readsBack_zero (negative : Bool) : (zero negative).ReadsBack := by
  cases negative <;> decide +kernel

theorem ratio_congr (c : Nat) {i j k l : Nat} (h : i + l = k + j) :
    ((c * 10 ^ i : Nat) : ℚ) / ((10 ^ j : Nat) : ℚ) =
      ((c * 10 ^ k : Nat) : ℚ) / ((10 ^ l : Nat) : ℚ) := by
  have hpos (n : Nat) : ((10 ^ n : Nat) : ℚ) ≠ 0 := Nat.cast_ne_zero.2 (ten_pow_pos n).ne'
  rw [div_eq_div_iff (hpos j) (hpos l), ← Nat.cast_mul, ← Nat.cast_mul, Nat.mul_assoc,
    ← Nat.pow_add, h, Nat.pow_add, Nat.mul_assoc]

/-- A point that is far from few digits is in front of them. -/
theorem exponent_neg_of_far {c : Nat} {e : Int} (hc : 0 < c)
    (hunits : c * 10 ^ (e + 1).toNat < 2 ^ 53)
    (hfar : ¬ (-5 < (digits c).length + e ∧ (digits c).length + e ≤ 16)) : e < 0 := by
  by_contra hnonneg
  have hsmall : 10 ^ ((digits c).length - 1 + (e + 1).toNat) < 10 ^ 16 := by
    calc 10 ^ ((digits c).length - 1 + (e + 1).toNat)
        = 10 ^ ((digits c).length - 1) * 10 ^ (e + 1).toNat := Nat.pow_add ..
      _ ≤ c * 10 ^ (e + 1).toNat := Nat.mul_le_mul_right _ (ten_pow_le_of_pos hc)
      _ < 2 ^ 53 := hunits
      _ < 10 ^ 16 := by decide
  have hlt := (Nat.pow_lt_pow_iff_right (by decide)).1 hsmall
  have hdigits : 0 < (digits c).length := List.length_pos_iff.2 (digits_ne_nil c)
  omega

/-- A double of few digits that are not far from the point is read back from its own digits. -/
theorem readsBack_of_short {x : Finite}
    (hunits : x.shortest.coefficient * 10 ^ (x.shortest.exponent + 1).toNat < 2 ^ 53)
    (hexponent : -22 ≤ x.shortest.exponent) : x.ReadsBack := by
  by_cases hx : x.significand = 0
  · rw [eq_zero hx]
    exact readsBack_zero _
  · have hnearest := ofRatio_shortest hx
    unfold ReadsBack NumberText.ofFinite
    generalize x.shortest = d at hunits hexponent hnearest ⊢
    have hpos : 0 < d.coefficient := by
      refine Nat.pos_of_ne_zero fun hzero => ?_
      rw [hzero, Nat.zero_mul] at hnearest
      exact hx (congrArg significand (Binary64.finite.inj hnearest)).symm
    dsimp only
    split_ifs with hpoint
    · have hshift : (d.exponent + (max 1 (-d.exponent).toNat : Nat)).toNat =
          (d.exponent + 1).toNat := by omega
      rw [hshift]
      refine NumberText.double?_of_magnitude
        (NumberText.magnitude_ofUnits d.negative hunits (by omega) (by decide)
          (k := max 1 (-d.exponent).toNat) (by omega) (by omega) (by simp)) ?_
      rw [← hnearest]
      exact ofRatio_congr _ (ten_pow_pos _) (ten_pow_pos _) (ratio_congr _ (by omega))
    · have hnegative := exponent_neg_of_far hpos hunits hpoint
      have hshift : (d.exponent + 1).toNat = 0 := by omega
      have hraise : d.exponent.toNat = 0 := by omega
      rw [hshift, Nat.pow_zero, Nat.mul_one] at hunits
      rw [hraise, Nat.pow_zero, Nat.mul_one] at hnearest
      have hdigits : 0 < (digits d.coefficient).length := List.length_pos_iff.2 (digits_ne_nil _)
      have hlength : (digits d.coefficient).length ≤ 16 :=
        (length_digits_le_iff (by decide)).2 (hunits.trans (by decide))
      refine NumberText.double?_of_magnitude (NumberText.magnitude_ofUnits d.negative hunits
        (by omega) ?_ (k := (-d.exponent).toNat) (by omega) (by omega) ?_) hnearest
      · rw [Option.getD_some]
        omega
      · rw [Option.getD_some]
        omega

end Binary64.Finite

end RenderGateway
