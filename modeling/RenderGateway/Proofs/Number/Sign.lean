import Mathlib.Algebra.Order.Ring.Rat
import RenderGateway.Plan.Basic

/-!
# Signs of doubles

Rounding keeps the sign of an exact result, so that a quotient of numbers without a minus has none
either. A window that is played at a positive speed therefore never has a negative length.
-/

namespace RenderGateway

namespace Word

theorem toInt_clampInt64_nonneg {n : Int} (h : 0 ≤ n) : 0 ≤ (clampInt64 n).toInt := by
  have hmax : Int64.maxValue.toInt = 2 ^ 63 - 1 := by decide
  have hmin : Int64.minValue.toInt = -2 ^ 63 := by decide
  have hrange : clampInt64 n = clampInt64 (min Int64.maxValue.toInt n) := by
    unfold clampInt64
    congr 1
    omega
  rw [hrange, toInt_clampInt64 _ (by omega) (by omega)]
  omega

end Word

namespace Binary64

namespace Finite

theorem magnitude_nonneg (x : Finite) : 0 ≤ x.magnitude := by
  exact Rat.mul_nonneg (Rat.natCast_nonneg) (Rat.zpow_nonneg (by decide))

theorem toRat_nonneg {x : Finite} (h : x.negative = false) : 0 ≤ x.toRat := by
  rw [toRat, h]
  exact x.magnitude_nonneg

theorem round_nonneg {x : Finite} (h : x.negative = false) : 0 ≤ x.round := by
  unfold round
  rw [h]
  exact Rat.le_floor_iff.2 (Rat.add_nonneg x.magnitude_nonneg (by decide))

end Finite

theorem isNegative_ofRatio (negative : Bool) (num den : Nat) :
    (ofRatio negative num den).isNegative = negative := by
  unfold ofRatio
  split
  · rfl
  · dsimp only
    split <;> rfl

theorem isNegative_ofInt {n : Int} (h : 0 ≤ n) : (ofInt n).isNegative = false := by
  rw [ofInt, isNegative_ofRatio]
  exact decide_eq_false (Int.not_lt.2 h)

theorem isNegative_roundTo {q : Rat} (h : 0 ≤ q) : (roundTo false q).isNegative = false := by
  unfold roundTo
  split
  · rfl
  · rw [ofRat, isNegative_ofRatio]
    exact decide_eq_false (Int.not_lt.2 (Rat.num_nonneg.2 h))

theorem isNegative_div {x y : Binary64} (hx : x.isNegative = false) (hy : y.isNegative = false) :
    (x / y).isNegative = false := by
  change (Binary64.div x y).isNegative = false
  cases x with
  | nan => rfl
  | infinite a =>
    cases y with
    | nan | infinite => rfl
    | finite y =>
      change (a != y.negative) = false
      rw [show a = false from hx, show y.negative = false from hy]
      rfl
  | finite x =>
    cases y with
    | nan => rfl
    | infinite a =>
      change (Binary64.zero (a != x.negative)).isNegative = false
      rw [show a = false from hy, show x.negative = false from hx]
      rfl
    | finite y =>
      have hxn : x.negative = false := hx
      have hyn : y.negative = false := hy
      simp only [Binary64.div, hxn, hyn, bne_self_eq_false]
      split
      · split <;> rfl
      · exact isNegative_roundTo (div_nonneg (Finite.toRat_nonneg hxn) (Finite.toRat_nonneg hyn))

theorem isNegative_mul {x y : Binary64} (hx : x.isNegative = false) (hy : y.isNegative = false) :
    (x * y).isNegative = false := by
  change (Binary64.mul x y).isNegative = false
  cases x with
  | nan => rfl
  | infinite a =>
    cases y with
    | nan => rfl
    | infinite b =>
      change (a != b) = false
      rw [show a = false from hx, show b = false from hy]
      rfl
    | finite y =>
      simp only [Binary64.mul, show a = false from hx, show y.negative = false from hy,
        bne_self_eq_false]
      split <;> rfl
  | finite x =>
    cases y with
    | nan => rfl
    | infinite a =>
      simp only [Binary64.mul, show a = false from hy, show x.negative = false from hx,
        bne_self_eq_false]
      split <;> rfl
    | finite y =>
      have hxn : x.negative = false := hx
      have hyn : y.negative = false := hy
      simp only [Binary64.mul, hxn, hyn, bne_self_eq_false]
      exact isNegative_roundTo (mul_nonneg (Finite.toRat_nonneg hxn) (Finite.toRat_nonneg hyn))

theorem isNegative_of_pos {x : Binary64} (h : 0 < x) : x.isNegative = false := by
  cases x with
  | nan => rfl
  | infinite b =>
    cases b with
    | false => rfl
    | true => cases h
  | finite x =>
    have hlt : (Finite.zero false).toRat < x.toRat := of_decide_eq_true h
    have hzero : (Finite.zero false).toRat = 0 := by
      simp [Finite.toRat, Finite.zero, Finite.magnitude]
    cases hn : x.negative with
    | false => exact hn
    | true =>
      rw [hzero, Finite.toRat, hn, if_pos rfl] at hlt
      exact absurd x.magnitude_nonneg (neg_pos.1 hlt).not_ge

theorem roundToInt64_nonneg {x : Binary64} (h : x.isNegative = false) :
    0 ≤ x.roundToInt64.toInt := by
  cases x with
  | nan => decide
  | infinite b =>
    rw [show b = false from h]
    decide
  | finite x => exact Word.toInt_clampInt64_nonneg (Finite.round_nonneg h)

end Binary64

/-- No window that begins in the file has a negative length. -/
theorem playedDuration_nonneg {start stop : Int64} {speed : Binary64} (hstart : 0 ≤ start.toInt)
    (h : start.toInt ≤ stop.toInt) (hspeed : 0 < speed) :
    0 ≤ (playedDuration start stop speed).toInt := by
  have hstop := stop.toInt_lt
  have hlength : Word.wrap (stop.toInt - start.toInt) = stop.toInt - start.toInt :=
    Word.wrap_eq_self (by omega) (by omega)
  rw [playedDuration, hlength]
  exact Binary64.roundToInt64_nonneg <|
    Binary64.isNegative_div (Binary64.isNegative_ofInt (by omega))
      (Binary64.isNegative_of_pos hspeed)

end RenderGateway
