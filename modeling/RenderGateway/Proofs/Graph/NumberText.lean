import Mathlib.Data.List.Basic
import RenderGateway.Graph.Amount
import RenderGateway.Proofs.Number.Digits

/-!
# Numbers in text

Times, factors and sizes are written with digits, a point and a minus. A double that is not a
number is spelled out, which takes a few letters more.
-/

namespace RenderGateway.Graph

open Numeral

/-- Digits, signs, and the letters of what is no number. -/
def isNumberChar (c : Char) : Bool := c.isDigit || c ∈ ['-', '.', 'N', 'a', 'i', 'n', 'f']

/-- Text in which a number can be written. -/
def IsNumberText (s : String) : Prop := ∀ c ∈ s.toList, isNumberChar c = true

instance (s : String) : Decidable (IsNumberText s) :=
  List.decidableBAll (fun c => isNumberChar c = true) s.toList

namespace IsNumberText

theorem append_iff {s t : String} :
    IsNumberText (s ++ t) ↔ IsNumberText s ∧ IsNumberText t := by
  simp only [IsNumberText, String.toList_append, List.forall_mem_append]

theorem not_mem {s : String} (h : IsNumberText s) {c : Char} (hc : isNumberChar c = false) :
    c ∉ s.toList := fun hmem => by
  rw [h c hmem] at hc
  cases hc

theorem not_mem_of_all {s : String} (h : IsNumberText s) {others : List Char}
    (hothers : others.all (fun c => !isNumberChar c) = true) {c : Char} (hc : c ∈ others) :
    c ∉ s.toList :=
  h.not_mem (by simpa using List.all_eq_true.1 hothers c hc)

theorem of_subset {s t : String} (ht : IsNumberText t) (h : s.toList ⊆ t.toList) :
    IsNumberText s :=
  fun c hc => ht c (h hc)

theorem of_isDigit {cs : List Char} (h : ∀ c ∈ cs, c.isDigit = true) :
    IsNumberText (String.ofList cs) := by
  intro c hmem
  rw [String.toList_ofList] at hmem
  rw [isNumberChar, h c hmem, Bool.true_or]

end IsNumberText

/-- A decimal numeral with its sign and its places. -/
theorem isNumberText_decimal (negative : Prop) [Decidable negative] (whole width fraction : Nat) :
    IsNumberText (String.ofList ((if negative then ['-'] else []) ++ digits whole ++
      '.' :: padded width fraction)) := by
  rw [List.append_cons, String.ofList_append, String.ofList_append, String.ofList_append,
    IsNumberText.append_iff, IsNumberText.append_iff, IsNumberText.append_iff]
  refine ⟨⟨⟨?_, .of_isDigit fun _ => isDigit_of_mem_digits⟩, by decide⟩,
    .of_isDigit fun _ => isDigit_of_mem_padded⟩
  split <;> decide

/-- What is written for the least word. -/
theorem seconds_least : seconds Int64.minValue.toInt = "--9223372036854775.-808" := by
  decide +kernel

/-- What is written for every other one. -/
theorem seconds_eq {ms : Int} (h : ms ≠ Int64.minValue.toInt) :
    seconds ms = String.ofList ((if ms < 0 then ['-'] else []) ++ digits (ms.natAbs / 1000) ++
      '.' :: padded 3 (ms.natAbs % 1000)) := by
  simp only [seconds, if_neg h, List.nil_append]

theorem isNumberText_seconds (ms : Int) : IsNumberText (seconds ms) := by
  by_cases h : ms = Int64.minValue.toInt
  · rw [h, seconds_least]
    decide
  · rw [seconds_eq h]
    exact isNumberText_decimal _ _ _ _

theorem dropEndWhile_subset (p : Char → Bool) (cs : List Char) :
    Text.dropEndWhile p cs ⊆ cs := by
  intro c hc
  rw [Text.dropEndWhile, List.mem_reverse] at hc
  exact List.mem_reverse.1 ((List.dropWhile_sublist p).subset hc)

theorem isNumberText_fixed (places : Nat) (x : Binary64) : IsNumberText (x.fixed places) := by
  cases x with
  | nan => exact (by decide : IsNumberText "NaN")
  | infinite negative =>
    cases negative with
    | true => exact (by decide : IsNumberText "-inf")
    | false => exact (by decide : IsNumberText "inf")
  | finite x => exact isNumberText_decimal _ _ _ _

theorem isNumberText_factor (x : Binary64) : IsNumberText (factor x) := by
  refine (isNumberText_fixed 6 x).of_subset ?_
  rw [factor, String.toList_ofList]
  exact List.Subset.trans (dropEndWhile_subset _ _) (dropEndWhile_subset _ _)

theorem isNumberText_nat (n : Nat) : IsNumberText (toString n) :=
  .of_isDigit fun _ => isDigit_of_mem_digits

theorem isNumberText_uint32 (n : UInt32) : IsNumberText (toString n) := isNumberText_nat n.toNat

theorem isNumberText_int (n : Int) : IsNumberText (toString n) := by
  cases n with
  | ofNat n => exact isNumberText_nat n
  | negSucc n =>
    change IsNumberText ("-" ++ toString (n + 1))
    exact IsNumberText.append_iff.2 ⟨by decide, isNumberText_nat (n + 1)⟩

end RenderGateway.Graph
