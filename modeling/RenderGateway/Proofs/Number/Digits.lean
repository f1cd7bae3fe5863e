import Mathlib.Data.List.TakeDrop
import RenderGateway.Number.Numeral

/-!
# Digits of natural numbers

The digits of a number are digits, at least one of them, with a zero at the start for zero only.
They are told apart from what follows them by its first character.
-/

namespace RenderGateway.Numeral

theorem digits_injective {m n : Nat} (h : digits m = digits n) : m = n := by
  rw [← value_digits m, h, value_digits]

theorem not_mem_digits {n : Nat} {c : Char} (h : c.isDigit = false) : c ∉ digits n := by
  intro hc
  rw [isDigit_of_mem_digits hc] at h
  cases h

theorem digits_ne_nil (n : Nat) : digits n ≠ [] := by
  rw [digits_eq]
  split <;> simp

theorem length_digits_le_iff {n k : Nat} (hk : 0 < k) : (digits n).length ≤ k ↔ n < 10 ^ k :=
  Nat.length_toDigits_le_iff (by decide) hk

theorem ten_pow_le_of_pos {n : Nat} (hn : 0 < n) : 10 ^ ((digits n).length - 1) ≤ n := by
  by_contra hlt
  have hlength : (digits n).length - 1 ≠ 0 := by
    intro hzero
    rw [hzero] at hlt
    omega
  have hle := (length_digits_le_iff (Nat.pos_of_ne_zero hlength)).2 (Nat.not_le.1 hlt)
  omega

theorem exists_digits_append (n : Nat) (tail : List Char) :
    ∃ c cs, digits n ++ tail = c :: cs ∧ c.isDigit = true := by
  cases hdigits : digits n with
  | nil => exact absurd hdigits (digits_ne_nil n)
  | cons c cs => exact ⟨c, cs ++ tail, rfl, isDigit_of_mem_digits (hdigits ▸ List.mem_cons_self)⟩

/-- Only zero is written with a zero at the start. -/
theorem eq_zero_of_head?_digits {n : Nat} (h : (digits n).head? = some '0') : n = 0 := by
  induction n using Nat.strongRecOn with
  | _ n ih =>
    rw [digits_eq] at h
    split at h
    next hn =>
      have hall : ∀ k < 10, k.digitChar = '0' → k = 0 := by decide
      exact hall n hn (Option.some.inj h)
    next hn =>
      have hhead : (digits (n / 10)).head? = some '0' := by
        obtain ⟨c, cs, hcs⟩ := List.exists_cons_of_ne_nil (digits_ne_nil (n / 10))
        rw [hcs] at h ⊢
        exact h
      have hzero := ih (n / 10) (by omega) hhead
      omega

/-- A run of digits ends where something else begins. -/
theorem span_of_isDigit {ds rest : List Char} (hdigits : ∀ c ∈ ds, c.isDigit = true)
    (h : ∀ c ∈ rest.head?, c.isDigit = false) :
    (ds ++ rest).span Char.isDigit = (ds, rest) := by
  rw [List.span_eq_takeWhile_dropWhile, List.takeWhile_append_of_pos hdigits,
    List.dropWhile_append_of_pos hdigits]
  cases rest with
  | nil => simp
  | cons c cs =>
    have hc : c.isDigit = false := h c rfl
    simp [hc]

theorem span_digits (n : Nat) {rest : List Char} (h : ∀ c ∈ rest.head?, c.isDigit = false) :
    (digits n ++ rest).span Char.isDigit = (digits n, rest) :=
  span_of_isDigit (fun _ => isDigit_of_mem_digits) h

theorem isDigit_of_mem_padded {width n : Nat} {c : Char} (h : c ∈ padded width n) :
    c.isDigit = true := by
  rw [padded, List.leftpad, List.mem_append] at h
  rcases h with h | h
  · rw [(List.mem_replicate.1 h).2]
    rfl
  · exact isDigit_of_mem_digits h

theorem length_padded {width n : Nat} (hwidth : 0 < width) (h : n < 10 ^ width) :
    (padded width n).length = width := by
  rw [padded, List.length_leftpad]
  exact Nat.max_eq_left ((length_digits_le_iff hwidth).2 h)

/-- Zeros on the left do not change a number. -/
theorem value_padded (width n : Nat) : value (padded width n) = n := by
  rw [padded, List.leftpad, value, Nat.ofDigitChars_append, Nat.ofDigitChars_replicate_zero,
    Nat.mul_zero]
  exact value_digits n

theorem value_append (cs ds : List Char) :
    value (cs ++ ds) = 10 ^ ds.length * value cs + value ds := by
  rw [value, Nat.ofDigitChars_append, Nat.ofDigitChars_eq_ofDigitChars_zero]
  rfl

end RenderGateway.Numeral
