import RenderGateway.Proofs.Graph.Windows

/-!
# Times as they are written

A time is written in seconds with three places, of which the digits of its magnitude are the
quotient and the remainder by a thousand. In the arithmetic of words this comes to the same for
every word that has a magnitude, which is all but the least one. The text is read as the time that
it was written for, so different times have different texts and the texts are in order as the times
are.
-/

namespace RenderGateway.Graph

open Numeral

/-- The digits of a natural number, with no zero in front of others. -/
structure IsWhole (cs : List Char) : Prop where
  ne_nil : cs ≠ []
  isDigit : ∀ c ∈ cs, c.isDigit = true
  leading : cs.head? = some '0' → cs = ['0']

/-- A decimal numeral, perhaps with a minus, that has exactly three places. -/
inductive HasThreePlaces : List Char → Prop
  | intro {sign whole places : List Char} (sign_eq : sign = [] ∨ sign = ['-'])
      (isWhole : IsWhole whole) (length_eq : places.length = 3)
      (isDigit : ∀ c ∈ places, c.isDigit = true) :
      HasThreePlaces (sign ++ whole ++ '.' :: places)

/-- Milliseconds as seconds in the arithmetic of words. -/
def secondsOfWord (ms : Int64) : String :=
  let magnitude := ms.abs
  String.ofList <|
    (if ms < 0 then ['-'] else []) ++ digits (magnitude / 1000).toNatClampNeg ++
      '.' :: padded 3 (magnitude % 1000).toNatClampNeg

/-! ### The arithmetic of words -/

section Words

variable {ms : Int64}

theorem lt_zero_iff : ms < 0 ↔ ms.toInt < 0 := Int64.lt_iff_toInt_lt

/-- Every word but the least one has a magnitude. -/
theorem toInt_abs (h : ms ≠ Int64.minValue) : ms.abs.toInt = ms.toInt.natAbs := by
  apply BitVec.toInt_abs_eq_natAbs_of_ne_intMin
  intro hbits
  exact h (Int64.toBitVec_inj.1 hbits)

theorem toNatClampNeg_abs_div (h : ms ≠ Int64.minValue) :
    (ms.abs / 1000).toNatClampNeg = ms.toInt.natAbs / 1000 := by
  have hthousand : (1000 : Int64).toInt = 1000 := rfl
  have hquotient : (ms.abs / 1000).toInt = ((ms.toInt.natAbs / 1000 : ℕ) : Int) := by
    rw [Int64.toInt_div_of_ne_right _ _ (by decide), toInt_abs h, hthousand]
    rfl
  rw [← Int64.toNat_toInt, hquotient, Int.toNat_natCast]

theorem toNatClampNeg_abs_mod (h : ms ≠ Int64.minValue) :
    (ms.abs % 1000).toNatClampNeg = ms.toInt.natAbs % 1000 := by
  have hthousand : (1000 : Int64).toInt = 1000 := rfl
  have hremainder : (ms.abs % 1000).toInt = ((ms.toInt.natAbs % 1000 : ℕ) : Int) := by
    rw [Int64.toInt_mod, toInt_abs h, hthousand]
    rfl
  rw [← Int64.toNat_toInt, hremainder, Int.toNat_natCast]

theorem writable_iff : Writable ms.toInt ↔ ms ≠ Int64.minValue := Int64.toInt_inj.not

theorem secondsOfWord_eq (h : ms ≠ Int64.minValue) : secondsOfWord ms = seconds ms.toInt := by
  rw [secondsOfWord, seconds_eq (writable_iff.2 h)]
  simp only [toNatClampNeg_abs_div h, toNatClampNeg_abs_mod h, lt_zero_iff]

end Words

/-! ### The text -/

theorem isWhole_digits (n : Nat) : IsWhole (digits n) where
  ne_nil := digits_ne_nil n
  isDigit _ := isDigit_of_mem_digits
  leading h := by
    rw [eq_zero_of_head?_digits h]
    rfl

theorem hasThreePlaces_seconds {ms : Int} (h : Writable ms) :
    HasThreePlaces (seconds ms).toList := by
  have hplaces : ms.natAbs % 1000 < 10 ^ 3 := Nat.mod_lt _ (by decide)
  rw [seconds_eq h, String.toList_ofList]
  refine .intro ?_ (isWhole_digits _) (length_padded (by decide) hplaces)
    fun _ => isDigit_of_mem_padded
  split
  · exact .inr rfl
  · exact .inl rfl

/-- Only the times before zero have a minus. -/
theorem head?_seconds_iff {ms : Int} (h : Writable ms) :
    (seconds ms).toList.head? = some '-' ↔ ms < 0 := by
  rw [seconds_eq h, String.toList_ofList]
  by_cases hneg : ms < 0
  · simp [hneg]
  · obtain ⟨c, cs, hcs, hc⟩ := exists_digits_append (ms.natAbs / 1000)
      ('.' :: padded 3 (ms.natAbs % 1000))
    rw [if_neg hneg, List.nil_append, hcs, List.head?_cons, Option.some.injEq]
    refine iff_of_false ?_ hneg
    rintro rfl
    cases hc

/-- A time is written without loss: as a numeral with three places, whose number is the time in
seconds. So a text stands for one time, and the numbers are in order as the times are. -/
theorem writes_time {ms : Int64} (h : ms ≠ Int64.minValue) :
    secondsOfWord ms = seconds ms.toInt ∧
    HasThreePlaces (seconds ms.toInt).toList ∧
    ((seconds ms.toInt).toList.head? = some '-' ↔ ms < 0) ∧
    number? (seconds ms.toInt).toList = some ((ms.toInt : ℚ) / 1000) ∧
    ∀ other : Int64, other ≠ Int64.minValue →
      (secondsOfWord ms = secondsOfWord other ↔ ms = other) ∧
      ∃ x y, number? (seconds ms.toInt).toList = some x ∧
        number? (seconds other.toInt).toList = some y ∧ (x < y ↔ ms < other) := by
  have hms := writable_iff.2 h
  refine ⟨secondsOfWord_eq h, hasThreePlaces_seconds hms, ?_, number?_seconds hms,
    fun other hother => ⟨⟨fun htext => ?_, congrArg secondsOfWord⟩, _, _, number?_seconds hms,
      number?_seconds (writable_iff.2 hother), ?_⟩⟩
  · exact (head?_seconds_iff hms).trans lt_zero_iff.symm
  · rw [secondsOfWord_eq h, secondsOfWord_eq hother] at htext
    exact Int64.toInt_inj.1 (seconds_injective htext)
  · exact thousandth_lt_iff.trans Int64.lt_iff_toInt_lt.symm

/-- Half a second before zero. -/
theorem writes_time_before_zero : (-500 : Int64) ≠ Int64.minValue ∧
    secondsOfWord (-500) = "-0.500" ∧ number? "-0.500".toList = some (-1 / 2) ∧
    ∃ x y, number? "-0.500".toList = some x ∧ number? "0.000".toList = some y ∧
      (x < y ↔ (-500 : Int64) < 0) := by
  have hne : (-500 : Int64) ≠ Int64.minValue := by decide
  have htext : seconds (-500 : Int64).toInt = "-0.500" := by decide +kernel
  have hzero : seconds (0 : Int64).toInt = "0.000" := by decide +kernel
  have hvalue : ((-500 : Int64).toInt : ℚ) / 1000 = -1 / 2 := by
    have hint : (-500 : Int64).toInt = -500 := by decide
    norm_num [hint]
  obtain ⟨hword, -, -, hnumber, hothers⟩ := writes_time hne
  obtain ⟨-, horder⟩ := hothers 0 (by decide)
  rw [htext, hzero] at horder
  rw [htext, hvalue] at hnumber
  exact ⟨hne, hword.trans htext, hnumber, horder⟩

end RenderGateway.Graph
