import Mathlib.Algebra.Order.Field.Basic
import Mathlib.Data.List.DropRight
import RenderGateway.Proofs.Graph.Windows
import RenderGateway.Proofs.Number.Rounding

/-!
# Factors as they are read

A factor is written with six places, less the zeros at its end, and what is left reads as the same
number. That number is no more than half of the last place away from the double that was written,
and on the same side of every number with six places as the double.
-/

namespace RenderGateway

namespace Decimal

theorem toRat_point (negative : Bool) (whole fraction places : Nat) :
    toRat ⟨negative, 10 ^ places * whole + fraction, -places⟩ =
      (if negative then -1 else 1) * (whole + fraction / 10 ^ places) := by
  have hpos : (10 : ℚ) ^ places ≠ 0 := pow_ne_zero _ (by norm_num)
  rw [toRat, zpow_neg, zpow_natCast]
  push_cast
  field_simp

end Decimal

namespace Graph

open Numeral

/-! ### Zeros at the end -/

theorem withoutTrailingZeros_append_zero (cs : List Char) :
    withoutTrailingZeros (cs ++ ['0']) = withoutTrailingZeros cs := by
  have hzero : Text.dropEndWhile (· = '0') (cs ++ ['0']) = Text.dropEndWhile (· = '0') cs :=
    List.rdropWhile_concat_pos _ _ _ rfl
  rw [withoutTrailingZeros, withoutTrailingZeros, hzero]

theorem dropEndWhile_append_of_ne {c d : Char} (h : c ≠ d) (cs : List Char) :
    Text.dropEndWhile (· = d) (cs ++ [c]) = cs ++ [c] :=
  List.rdropWhile_concat_neg _ _ _ (by simpa using h)

theorem withoutTrailingZeros_append_of_ne {c : Char} (hzero : c ≠ '0') (hpoint : c ≠ '.')
    (cs : List Char) : withoutTrailingZeros (cs ++ [c]) = cs ++ [c] := by
  rw [withoutTrailingZeros, dropEndWhile_append_of_ne hzero, dropEndWhile_append_of_ne hpoint]

/-- A point with nothing behind it goes, and the zeros in front of it stay. -/
theorem withoutTrailingZeros_point (cs : List Char) (n : Nat) :
    withoutTrailingZeros (cs ++ digits n ++ ['.']) = cs ++ digits n := by
  obtain ⟨front, c, hdigits⟩ := (List.eq_nil_or_concat (digits n)).resolve_left (digits_ne_nil n)
  rw [List.concat_eq_append] at hdigits
  have hc : c.isDigit = true := isDigit_of_mem_digits (n := n) (by simp [hdigits])
  have hpoint : c ≠ '.' := by
    rintro rfl
    cases hc
  have hdrop : Text.dropEndWhile (· = '.') (cs ++ digits n ++ ['.']) =
      Text.dropEndWhile (· = '.') (cs ++ digits n) :=
    List.rdropWhile_concat_pos _ _ _ rfl
  rw [withoutTrailingZeros, dropEndWhile_append_of_ne (by decide), hdrop, hdigits,
    ← List.append_assoc, dropEndWhile_append_of_ne hpoint]

/-! ### Reading -/

theorem unsignedOfChars?_digits (negative : Bool) (n : Nat) :
    Decimal.unsignedOfChars? negative (digits n) = some ⟨negative, n, 0⟩ := by
  have hspan : (digits n ++ []).span Char.isDigit = (digits n, []) := span_digits n nofun
  rw [List.append_nil] at hspan
  simp only [Decimal.unsignedOfChars?, hspan, digits_ne_nil, false_and, if_false,
    Decimal.exponentOfChars?, Option.map_some, Decimal.ofParts, List.append_nil, value_digits]
  rfl

/-- Without the zeros at its end a numeral reads as the same number. -/
theorem number?_withoutTrailingZeros (negative : Bool) (n : Nat) {ds : List Char}
    (h : ∀ c ∈ ds, c.isDigit = true) :
    number? (withoutTrailingZeros ((if negative then ['-'] else []) ++ digits n ++ '.' :: ds)) =
      some ((if negative then -1 else 1) * ((n : ℚ) + value ds / 10 ^ ds.length)) := by
  induction ds using List.reverseRecOn with
  | nil =>
    have hwhole := number?_signed negative n []
    rw [List.append_nil, List.append_nil, unsignedOfChars?_digits] at hwhole
    have hvalue : value [] = 0 := rfl
    rw [withoutTrailingZeros_point, hwhole, hvalue, Option.map_some, Decimal.toRat]
    simp
  | append_singleton es c ih =>
    obtain ⟨hes, hc⟩ := List.forall_mem_append.1 h
    have hlast : (if negative then ['-'] else []) ++ digits n ++ '.' :: (es ++ [c]) =
        (if negative then ['-'] else []) ++ digits n ++ '.' :: es ++ [c] := by
      simp
    by_cases hzero : c = '0'
    · subst hzero
      have hvalue : value (es ++ ['0']) = 10 * value es := by
        rw [value_append]
        rfl
      rw [hlast, withoutTrailingZeros_append_zero, ih hes, hvalue, List.length_append,
        List.length_singleton, pow_succ', Nat.cast_mul, Nat.cast_ofNat,
        mul_div_mul_left _ _ (by norm_num)]
    · have hpoint : c ≠ '.' := by
        rintro rfl
        cases hc '.' List.mem_cons_self
      rw [hlast, withoutTrailingZeros_append_of_ne hzero hpoint, ← hlast, number?_signed,
        unsignedOfChars?_point negative n h, Option.map_some, Decimal.toRat_point]

/-- A factor is read as the double in units of the sixth place. -/
theorem number?_factor (x : Binary64.Finite) : number? (factor (.finite x)).toList =
    some ((if x.negative then -1 else 1) * ((x.scaled 6 : ℚ) / 10 ^ 6)) := by
  have htext : (factor (.finite x)).toList = withoutTrailingZeros
      ((if x.negative then ['-'] else []) ++ digits (x.scaled 6 / 10 ^ 6) ++
        '.' :: padded 6 (x.scaled 6 % 10 ^ 6)) := by
    change (String.ofList (withoutTrailingZeros (String.ofList (x.fixed 6)).toList)).toList = _
    rw [String.toList_ofList, String.toList_ofList]
    rfl
  have hlength : (padded 6 (x.scaled 6 % 10 ^ 6)).length = 6 :=
    length_padded (by decide) (Nat.mod_lt _ (by decide))
  have hsplit : (x.scaled 6 : ℚ) = 10 ^ 6 * (x.scaled 6 / 10 ^ 6 : Nat) +
      (x.scaled 6 % 10 ^ 6 : Nat) := by
    exact_mod_cast (Nat.div_add_mod (x.scaled 6) (10 ^ 6)).symm
  have hvalue : (x.scaled 6 : ℚ) / 10 ^ 6 = (x.scaled 6 / 10 ^ 6 : Nat) +
      (x.scaled 6 % 10 ^ 6 : Nat) / 10 ^ 6 := by
    rw [hsplit, add_div, mul_div_cancel_left₀ _ (by norm_num)]
  rw [htext, number?_withoutTrailingZeros _ _ fun _ => isDigit_of_mem_padded, value_padded,
    hlength, hvalue]

end Graph

namespace Binary64.Finite

variable {x : Finite}

theorem ratio_div (x : Finite) : (x.ratio.1 : ℚ) / x.ratio.2 = x.magnitude := by
  rw [magnitude, two_zpow_eq, ← mul_div_assoc, ← Nat.cast_mul]
  rfl

theorem ratio_snd_pos (x : Finite) : 0 < x.ratio.2 := Nat.two_pow_pos _

/-- Half a unit of the last place is the most that is lost. -/
theorem scaled_near (x : Finite) (places : Nat) :
    |(x.scaled places : ℚ) / 10 ^ places - x.magnitude| ≤ 1 / (2 * 10 ^ places) := by
  obtain ⟨hlow, hhigh, -⟩ := roundHalfEven_near (x.ratio.1 * 10 ^ places) x.ratio_snd_pos
  have hpos : (0 : ℚ) < 10 ^ places := pow_pos (by norm_num) _
  have hunits : ((x.ratio.1 * 10 ^ places : Nat) : ℚ) / x.ratio.2 = x.magnitude * 10 ^ places := by
    rw [← ratio_div]
    push_cast
    ring
  rw [hunits] at hlow hhigh
  have hscaled : (x.scaled places : ℚ) / 10 ^ places - x.magnitude =
      (x.scaled places - x.magnitude * 10 ^ places) / 10 ^ places := by
    rw [sub_div, mul_div_cancel_right₀ _ hpos.ne']
  have hnear : |(x.scaled places : ℚ) - x.magnitude * 10 ^ places| ≤ 1 / 2 := by
    rw [abs_le]
    constructor
    · exact neg_le_sub_iff_le_add.2 hhigh
    · exact sub_le_iff_le_add'.2 hlow
  rw [hscaled, abs_div, abs_of_pos hpos, ← div_div]
  exact div_le_div_of_nonneg_right hnear hpos.le

/-- A double above a number with so many places is not rounded below it. -/
theorem le_scaled {places n : Nat} (h : (n : ℚ) / 10 ^ places ≤ x.magnitude) :
    n ≤ x.scaled places := by
  refine le_roundHalfEven x.ratio_snd_pos ?_
  rw [← ratio_div, div_le_div_iff₀ (pow_pos (by norm_num) _) (Nat.cast_pos.2 x.ratio_snd_pos)] at h
  exact_mod_cast h

theorem scaled_le {places n : Nat} (h : x.magnitude ≤ (n : ℚ) / 10 ^ places) :
    x.scaled places ≤ n := by
  refine roundHalfEven_le x.ratio_snd_pos ?_
  rw [← ratio_div, div_le_div_iff₀ (Nat.cast_pos.2 x.ratio_snd_pos) (pow_pos (by norm_num) _)] at h
  exact_mod_cast h

end Binary64.Finite

end RenderGateway
