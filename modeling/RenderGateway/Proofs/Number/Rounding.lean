import Mathlib.Algebra.Group.Nat.Even
import Mathlib.Tactic.Linarith
import Mathlib.Tactic.Ring
import RenderGateway.Proofs.Number.Magnitude

/-!
# Rounding and order

Rounding keeps the order of exact results: to a natural number, as the even neighbour is taken of a
half, to a number of units, as the unit grows with the quotient, and to a double, where what is out
of range is above all that is in it. Products and quotients of doubles without a minus are
therefore ordered as their arguments are.
-/

namespace RenderGateway.Binary64

section

variable {num den num' den' : Nat}

/-- What is rounded to is no more than a half away, and even if it is a half away. -/
theorem roundHalfEven_near (num : Nat) (hden : 0 < den) :
    (roundHalfEven num den : ℚ) ≤ num / den + 1 / 2 ∧
      (num : ℚ) / den ≤ roundHalfEven num den + 1 / 2 ∧
      ((roundHalfEven num den : ℚ) = num / den + 1 / 2 ∨
        (num : ℚ) / den = roundHalfEven num den + 1 / 2 → Even (roundHalfEven num den)) := by
  have hdpos : (0 : ℚ) < den := Nat.cast_pos.2 hden
  obtain ⟨part, hpart⟩ : ∃ part : ℚ, part = (num % den : Nat) / den := ⟨_, rfl⟩
  have hsplit : (num : ℚ) / den = (num / den : Nat) + part := by
    have hnum : (num : ℚ) = den * (num / den : Nat) + (num % den : Nat) := by
      exact_mod_cast (Nat.div_add_mod num den).symm
    rw [hpart, ← mul_div_cancel_left₀ ((num / den : Nat) : ℚ) hdpos.ne', ← add_div, ← hnum]
  have hless : 2 * (num % den) < den ↔ part < 1 / 2 := by
    rw [hpart, div_lt_div_iff₀ hdpos two_pos, one_mul, mul_comm]
    exact_mod_cast Iff.rfl
  have hmore : den < 2 * (num % den) ↔ 1 / 2 < part := by
    rw [hpart, div_lt_div_iff₀ two_pos hdpos, one_mul, mul_comm]
    exact_mod_cast Iff.rfl
  have hnonneg : 0 ≤ part := hpart ▸ div_nonneg (Nat.cast_nonneg _) hdpos.le
  have hlt : part < 1 := by
    rw [hpart, div_lt_iff₀ hdpos, one_mul]
    exact_mod_cast Nat.mod_lt num hden
  rw [hsplit]
  dsimp only [roundHalfEven]
  split_ifs with hdown hup heven
  · rw [hless] at hdown
    exact ⟨by linarith, by linarith, fun h => by rcases h with h | h <;> linarith⟩
  · rw [hmore] at hup
    push_cast
    exact ⟨by linarith, by linarith, fun h => by rcases h with h | h <;> linarith⟩
  · rw [hless] at hdown
    rw [hmore] at hup
    exact ⟨by linarith, by linarith, fun _ => Nat.even_iff.2 heven⟩
  · rw [hless] at hdown
    rw [hmore] at hup
    have hodd : ¬ Even (num / den) := fun h => heven (Nat.even_iff.1 h)
    refine ⟨?_, ?_, fun _ => Nat.even_add_one.2 hodd⟩
    · push_cast
      linarith
    · push_cast
      linarith

theorem roundHalfEven_mono (hden : 0 < den) (hden' : 0 < den')
    (h : (num : ℚ) / den ≤ num' / den') : roundHalfEven num den ≤ roundHalfEven num' den' := by
  obtain ⟨hlow, -, heven⟩ := roundHalfEven_near num hden
  obtain ⟨-, hhigh, heven'⟩ := roundHalfEven_near num' hden'
  by_contra hlt
  have hnext : (roundHalfEven num' den' : ℚ) + 1 ≤ roundHalfEven num den := by
    exact_mod_cast Nat.not_le.1 hlt
  -- Both are a half away from the same number, so both are even and not neighbours.
  have hleft := heven (.inl (by linarith))
  have hright := heven' (.inr (by linarith))
  have hsucc : (roundHalfEven num den : ℚ) = roundHalfEven num' den' + 1 := by linarith
  have hodd : roundHalfEven num den = roundHalfEven num' den' + 1 := by exact_mod_cast hsucc
  rw [hodd, Nat.even_add_one] at hleft
  exact hleft hright

theorem unitsAt_mono (hden : 0 < den) (hden' : 0 < den') (h : (num : ℚ) / den ≤ num' / den')
    (e : Int) : unitsAt num den e ≤ unitsAt num' den' e := by
  refine roundHalfEven_mono (Nat.mul_pos hden (Nat.two_pow_pos _))
    (Nat.mul_pos hden' (Nat.two_pow_pos _)) ?_
  rw [scaled_div, scaled_div]
  exact div_le_div_of_nonneg_right h (two_zpow_pos e).le

theorem gridExponent_mono (hnum : 0 < num) (hden : 0 < den) (hnum' : 0 < num') (hden' : 0 < den')
    (h : (num : ℚ) / den ≤ num' / den') : gridExponent num den ≤ gridExponent num' den' := by
  obtain ⟨hlow, -⟩ := ratioLog2_bounds hnum hden
  obtain ⟨-, hhigh⟩ := ratioLog2_bounds hnum' hden'
  have hlog : ratioLog2 num den < ratioLog2 num' den' + 1 :=
    two_zpow_lt_iff.1 (hlow.trans_lt (h.trans_lt hhigh))
  have hgrid : gridExponent num den = max (-1074) (ratioLog2 num den - 52) := rfl
  have hgrid' : gridExponent num' den' = max (-1074) (ratioLog2 num' den' - 52) := rfl
  omega

/-- The value that a quotient is rounded to, in or out of the range of the doubles. -/
def rounded (num den : Nat) : ℚ := unitsAt num den (gridExponent num den) * 2 ^ gridExponent num den

/-- A larger quotient is counted in the same units or in larger ones, and then it has more of them
than can be had of the smaller. -/
theorem rounded_mono (hnum : 0 < num) (hden : 0 < den) (hnum' : 0 < num') (hden' : 0 < den')
    (h : (num : ℚ) / den ≤ num' / den') : rounded num den ≤ rounded num' den' := by
  rcases (gridExponent_mono hnum hden hnum' hden' h).eq_or_lt with heq | hlt
  · rw [rounded, rounded, heq]
    refine mul_le_mul_of_nonneg_right ?_ (two_zpow_pos _).le
    exact_mod_cast unitsAt_mono hden hden' h _
  · have hleast := gridExponent_ge num den
    have hfits : (unitsAt num den (gridExponent num den) : ℚ) ≤ 2 ^ (53 : Int) := by
      exact_mod_cast unitsAt_gridExponent_le hnum hden
    have hfull : (2 : ℚ) ^ (52 : Int) ≤ unitsAt num' den' (gridExponent num' den') := by
      exact_mod_cast le_unitsAt_gridExponent hnum' hden' (by omega)
    calc rounded num den ≤ 2 ^ (53 : Int) * 2 ^ gridExponent num den :=
          mul_le_mul_of_nonneg_right hfits (two_zpow_pos _).le
      _ = 2 ^ (53 + gridExponent num den) := (two_zpow_add ..).symm
      _ ≤ 2 ^ (52 + gridExponent num' den') := two_zpow_le_iff.2 (by omega)
      _ = 2 ^ (52 : Int) * 2 ^ gridExponent num' den' := two_zpow_add ..
      _ ≤ rounded num' den' := mul_le_mul_of_nonneg_right hfull (two_zpow_pos _).le

/-- A carry keeps the value, and leaves a significand that is full but at the least exponent. -/
theorem carry_normal {m : Nat} {e : Int} (hm : m ≤ 2 ^ 53) (he : -1074 ≤ e)
    (hfull : e ≠ -1074 → 2 ^ 52 ≤ m) :
    (carry m e).1 < 2 ^ 53 ∧ -1074 ≤ (carry m e).2 ∧
      ((carry m e).2 ≠ -1074 → 2 ^ 52 ≤ (carry m e).1) ∧
      ((carry m e).1 : ℚ) * 2 ^ (carry m e).2 = m * 2 ^ e := by
  unfold carry
  split_ifs with hcarry
  · refine ⟨by norm_num, by omega, fun _ => le_refl _, ?_⟩
    rw [hcarry, two_zpow_add]
    norm_num
    ring
  · exact ⟨by omega, he, hfull, rfl⟩

/-- Out of range is what begins where the doubles end. -/
theorem canonical_or_large {m : Nat} {e : Int} (hm : m < 2 ^ 53) (he : -1074 ≤ e)
    (hfull : e ≠ -1074 → 2 ^ 52 ≤ m) :
    Canonical m e ∨ (2 : ℚ) ^ (1024 : Int) ≤ m * 2 ^ e := by
  by_cases hsmall : e ≤ 971
  · exact .inl ⟨hm, he, hsmall, by omega⟩
  · have hcast : (2 : ℚ) ^ (52 : Int) ≤ m := by exact_mod_cast hfull (by omega)
    refine .inr ?_
    calc (2 : ℚ) ^ (1024 : Int) ≤ 2 ^ (52 + e) := two_zpow_le_iff.2 (by omega)
      _ = 2 ^ (52 : Int) * 2 ^ e := two_zpow_add ..
      _ ≤ m * 2 ^ e := mul_le_mul_of_nonneg_right hcast (two_zpow_pos e).le

/-- A quotient is rounded to a double of its rounded value, or that is out of range. -/
theorem ofRatio_cases (negative : Bool) (hnum : 0 < num) (hden : 0 < den) :
    (∃ x : Finite, ofRatio negative num den = .finite x ∧ x.negative = negative ∧
        x.magnitude = rounded num den) ∨
      (ofRatio negative num den = .infinite negative ∧ 2 ^ (1024 : Int) ≤ rounded num den) := by
  obtain ⟨m, e, hpair⟩ : ∃ m e, carry (unitsAt num den (gridExponent num den))
      (gridExponent num den) = (m, e) := ⟨_, _, rfl⟩
  obtain ⟨hm, he, hfull, hvalue⟩ := carry_normal (unitsAt_gridExponent_le hnum hden)
    (gridExponent_ge num den) (le_unitsAt_gridExponent hnum hden)
  rw [hpair] at hm he hfull hvalue
  by_cases hcanonical : Canonical m e
  · refine .inl ⟨⟨negative, m, e, hcanonical⟩, ?_, rfl, hvalue⟩
    simp only [ofRatio, if_neg hnum.ne', hpair, dif_pos hcanonical]
  · refine .inr ⟨?_, ((canonical_or_large hm he hfull).resolve_left hcanonical).trans_eq hvalue⟩
    simp only [ofRatio, if_neg hnum.ne', hpair, dif_neg hcanonical]

theorem Finite.magnitude_lt (x : Finite) : x.magnitude < 2 ^ (1024 : Int) := by
  obtain ⟨hm, -, he, -⟩ := x.canonical
  have hcast : (x.significand : ℚ) < 2 ^ (53 : Int) := by exact_mod_cast hm
  calc x.magnitude < 2 ^ (53 : Int) * 2 ^ x.exponent :=
        mul_lt_mul_of_pos_right hcast (two_zpow_pos _)
    _ = 2 ^ (53 + x.exponent) := (two_zpow_add ..).symm
    _ ≤ 2 ^ (1024 : Int) := two_zpow_le_iff.2 (by omega)

end

/-! ### Order of doubles without a minus -/

theorem Finite.toRat_eq {x : Finite} (h : x.negative = false) : x.toRat = x.magnitude := by
  rw [toRat, h]
  rfl

theorem finite_le_finite_iff {x y : Finite} : finite x ≤ finite y ↔ x.toRat ≤ y.toRat :=
  decide_eq_true_iff

theorem Finite.toRat_zero : (zero false).toRat = 0 := by
  simp [zero, toRat, magnitude]

theorem zero_le_ofRatio {num den : Nat} (hden : 0 < den) : zero false ≤ ofRatio false num den := by
  by_cases hnum : num = 0
  · rw [hnum, ofRatio, if_pos rfl]
    exact finite_le_finite_iff.2 (le_refl _)
  · rcases ofRatio_cases false (Nat.pos_of_ne_zero hnum) hden with ⟨x, hx, hxn, -⟩ | ⟨hx, -⟩
    · rw [hx, zero, finite_le_finite_iff, Finite.toRat_zero]
      exact Finite.toRat_nonneg hxn
    · rw [hx]
      rfl

theorem ofRatio_le_ofRatio {num den num' den' : Nat} (hden : 0 < den) (hden' : 0 < den')
    (h : (num : ℚ) / den ≤ num' / den') : ofRatio false num den ≤ ofRatio false num' den' := by
  by_cases hnum : num = 0
  · rw [hnum, ofRatio, if_pos rfl]
    exact zero_le_ofRatio hden'
  · have hpos : (0 : ℚ) < num / den :=
      div_pos (Nat.cast_pos.2 (Nat.pos_of_ne_zero hnum)) (Nat.cast_pos.2 hden)
    have hnum' : 0 < num' := by
      by_contra hzero
      rw [Nat.eq_zero_of_not_pos hzero, Nat.cast_zero, zero_div] at h
      exact absurd hpos h.not_gt
    have hmono := rounded_mono (Nat.pos_of_ne_zero hnum) hden hnum' hden' h
    rcases ofRatio_cases false (Nat.pos_of_ne_zero hnum) hden with
      ⟨x, hx, hxn, hxvalue⟩ | ⟨hx, hxlarge⟩ <;>
    rcases ofRatio_cases false hnum' hden' with ⟨y, hy, hyn, hyvalue⟩ | ⟨hy, hylarge⟩
    · rw [hx, hy, finite_le_finite_iff, Finite.toRat_eq hxn, Finite.toRat_eq hyn, hxvalue, hyvalue]
      exact hmono
    · rw [hx, hy]
      rfl
    · have hlarge := hxlarge.trans (hmono.trans_eq hyvalue.symm)
      exact absurd y.magnitude_lt hlarge.not_gt
    · rw [hx, hy]
      rfl

/-- Only the value of a quotient counts. -/
theorem ofRatio_congr (negative : Bool) {num den num' den' : Nat} (hden : 0 < den)
    (hden' : 0 < den') (h : (num : ℚ) / den = num' / den') :
    ofRatio negative num den = ofRatio negative num' den' := by
  have hdpos : (0 : ℚ) < den := Nat.cast_pos.2 hden
  have hdpos' : (0 : ℚ) < den' := Nat.cast_pos.2 hden'
  by_cases hnum : num = 0
  · rw [hnum, Nat.cast_zero, zero_div, eq_comm, div_eq_zero_iff, or_iff_left hdpos'.ne', Nat.cast_eq_zero] at h
    rw [hnum, h, ofRatio, ofRatio]
    rfl
  · have hnum' : num' ≠ 0 := by
      rintro rfl
      rw [Nat.cast_zero, zero_div, div_eq_zero_iff, or_iff_left hdpos.ne', Nat.cast_eq_zero] at h
      exact hnum h
    have hpos := Nat.pos_of_ne_zero hnum
    have hpos' := Nat.pos_of_ne_zero hnum'
    have hgrid : gridExponent num den = gridExponent num' den' :=
      le_antisymm (gridExponent_mono hpos hden hpos' hden' h.le)
        (gridExponent_mono hpos' hden' hpos hden h.ge)
    have hunits (e : Int) : unitsAt num den e = unitsAt num' den' e :=
      le_antisymm (unitsAt_mono hden hden' h.le e) (unitsAt_mono hden' hden h.ge e)
    simp only [ofRatio, if_neg hnum, if_neg hnum', hgrid, hunits]

theorem natAbs_num_div_den {q : ℚ} (h : 0 ≤ q) : (q.num.natAbs : ℚ) / q.den = q := by
  rw [Nat.cast_natAbs, abs_of_nonneg (Rat.num_nonneg.2 h), Rat.num_div_den]

theorem roundTo_eq_ofRatio {q : ℚ} (h : 0 ≤ q) :
    roundTo false q = ofRatio false q.num.natAbs q.den := by
  unfold roundTo
  split_ifs with hzero
  · rw [hzero]
    rfl
  · rw [ofRat, decide_eq_false (not_lt.2 (Rat.num_nonneg.2 h))]

theorem roundTo_le_roundTo {q r : ℚ} (hq : 0 ≤ q) (h : q ≤ r) :
    roundTo false q ≤ roundTo false r := by
  rw [roundTo_eq_ofRatio hq, roundTo_eq_ofRatio (hq.trans h)]
  apply ofRatio_le_ofRatio q.den_pos r.den_pos
  rwa [natAbs_num_div_den hq, natAbs_num_div_den (hq.trans h)]

theorem ofInt_le_ofInt {m n : Int} (hm : 0 ≤ m) (h : m ≤ n) : ofInt m ≤ ofInt n := by
  rw [ofInt, ofInt, decide_eq_false (not_lt.2 hm), decide_eq_false (not_lt.2 (hm.trans h))]
  apply ofRatio_le_ofRatio Nat.one_pos Nat.one_pos
  rw [Nat.cast_one, div_one, div_one]
  exact Nat.cast_le.2 (by omega)

theorem mul_eq_roundTo {x y : Finite} (hx : x.negative = false) (hy : y.negative = false) :
    finite x * finite y = roundTo false (x.magnitude * y.magnitude) := by
  change roundTo (x.negative != y.negative) (x.toRat * y.toRat) = _
  rw [hx, hy, Finite.toRat_eq hx, Finite.toRat_eq hy]
  rfl

theorem div_eq_roundTo {x y : Finite} (hx : x.negative = false) (hy : y.negative = false)
    (hpos : y.significand ≠ 0) :
    finite x / finite y = roundTo false (x.magnitude / y.magnitude) := by
  change Binary64.div (finite x) (finite y) = _
  rw [Binary64.div, if_neg hpos, hx, hy, Finite.toRat_eq hx, Finite.toRat_eq hy]
  rfl

/-- A larger factor makes a larger product. -/
theorem mul_le_mul_left {x y z : Finite} (hx : x.negative = false) (hy : y.negative = false)
    (hz : z.negative = false) (h : y.magnitude ≤ z.magnitude) :
    finite x * finite y ≤ finite x * finite z := by
  rw [mul_eq_roundTo hx hy, mul_eq_roundTo hx hz]
  exact roundTo_le_roundTo (mul_nonneg x.magnitude_nonneg y.magnitude_nonneg)
    (mul_le_mul_of_nonneg_left h x.magnitude_nonneg)

/-- A finite double without a minus, up to another one. -/
def Within (x : Binary64) (bound : Finite) : Prop :=
  ∃ y : Finite, x = .finite y ∧ y.negative = false ∧ y.magnitude ≤ bound.magnitude

section

variable {x y : Binary64} {a b c : Finite}

theorem within_of_le (hsign : x.isNegative = false) (hc : c.negative = false)
    (h : x ≤ .finite c) : x.Within c := by
  cases x with
  | nan => cases h
  | infinite negative =>
    rw [show negative = false from hsign] at h
    cases h
  | finite x =>
    rw [finite_le_finite_iff, Finite.toRat_eq hsign, Finite.toRat_eq hc] at h
    exact ⟨x, rfl, hsign, h⟩

theorem within_ofInt {m n : Int} (hm : 0 ≤ m) (h : m ≤ n) (hc : c.negative = false)
    (hn : ofInt n = .finite c) : (ofInt m).Within c :=
  within_of_le (isNegative_ofInt hm) hc (hn ▸ ofInt_le_ofInt hm h)

theorem Within.mul (hx : x.Within a) (hy : y.Within b) (ha : a.negative = false)
    (hb : b.negative = false) (hc : c.negative = false) (h : finite a * finite b = finite c) :
    (x * y).Within c := by
  obtain ⟨x, rfl, hxn, hxle⟩ := hx
  obtain ⟨y, rfl, hyn, hyle⟩ := hy
  have hnonneg := mul_nonneg x.magnitude_nonneg y.magnitude_nonneg
  rw [mul_eq_roundTo ha hb] at h
  rw [mul_eq_roundTo hxn hyn]
  refine within_of_le (isNegative_roundTo hnonneg) hc (h ▸ roundTo_le_roundTo hnonneg ?_)
  exact mul_le_mul hxle hyle y.magnitude_nonneg a.magnitude_nonneg

theorem Within.div (hx : x.Within a) (ha : a.negative = false) (hb : b.negative = false)
    (hpos : b.significand ≠ 0) (hc : c.negative = false) (h : finite a / finite b = finite c) :
    (x / finite b).Within c := by
  obtain ⟨x, rfl, hxn, hxle⟩ := hx
  have hnonneg := div_nonneg x.magnitude_nonneg b.magnitude_nonneg
  rw [div_eq_roundTo ha hb hpos] at h
  rw [div_eq_roundTo hxn hb hpos]
  refine within_of_le (isNegative_roundTo hnonneg) hc (h ▸ roundTo_le_roundTo hnonneg ?_)
  exact div_le_div_of_nonneg_right hxle b.magnitude_nonneg

end

theorem isFinite_ofRatio (negative : Bool) (num den : Nat) :
    (ofRatio negative num den).isFinite = (ofRatio false num den).isFinite := by
  unfold ofRatio
  split
  · rfl
  · dsimp only
    split <;> rfl

/-- Every integer of a word is near a finite double. -/
theorem isFinite_ofInt {n : Int} (h : n.natAbs ≤ 2 ^ 64) : (ofInt n).isFinite = true := by
  have hlargest : ofInt (2 ^ 64) = .finite ⟨false, 2 ^ 52, 12, by decide⟩ := rfl
  obtain ⟨x, hx, -⟩ := within_ofInt (m := n.natAbs) (by omega) (by omega) rfl hlargest
  have hofInt : ofInt (n.natAbs : Int) = ofRatio false n.natAbs 1 := by
    rw [ofInt, decide_eq_false (by omega), Int.natAbs_natCast]
  rw [ofInt, isFinite_ofRatio, ← hofInt, hx]
  rfl

/-- Two neighbouring significands leave no double between them. -/
theorem Finite.magnitude_le_of_lt {x : Finite} {m : Nat} {e : Int} (hm : 2 ^ 52 ≤ m)
    (h : x.magnitude < (m + 1 : Nat) * 2 ^ e) : x.magnitude ≤ m * 2 ^ e := by
  by_cases hexponent : e ≤ x.exponent
  · obtain ⟨k, hk⟩ := Int.le.dest hexponent
    have hunits : x.magnitude = ((x.significand * 2 ^ k : Nat) : ℚ) * 2 ^ e := by
      rw [magnitude, ← hk, add_comm, two_zpow_add, zpow_natCast]
      push_cast
      ring
    rw [hunits] at h ⊢
    have hlt : x.significand * 2 ^ k < m + 1 :=
      Nat.cast_lt.1 (lt_of_mul_lt_mul_right h (two_zpow_pos e).le)
    exact mul_le_mul_of_nonneg_right (Nat.cast_le.2 (Nat.le_of_lt_succ hlt)) (two_zpow_pos e).le
  · have hsignificand : (x.significand : ℚ) ≤ 2 ^ (53 : Int) := by
      exact_mod_cast x.canonical.1.le
    have hcast : (2 : ℚ) ^ (52 : Int) ≤ m := by exact_mod_cast hm
    calc x.magnitude ≤ 2 ^ (53 : Int) * 2 ^ x.exponent :=
          mul_le_mul_of_nonneg_right hsignificand (two_zpow_pos _).le
      _ = 2 ^ (53 + x.exponent) := (two_zpow_add ..).symm
      _ ≤ 2 ^ (52 + e) := two_zpow_le_iff.2 (by omega)
      _ = 2 ^ (52 : Int) * 2 ^ e := two_zpow_add ..
      _ ≤ m * 2 ^ e := mul_le_mul_of_nonneg_right hcast (two_zpow_pos e).le

end RenderGateway.Binary64
