import RenderGateway.Graph.Basic
import RenderGateway.Proofs.Number.Digits

/-!
# Labels and pads in text

Different labels and different pads are written differently, so what holds of
the pads of a graph holds of its text.
-/

namespace RenderGateway.Graph

open Numeral

namespace Label

/-- A label is a name of letters, with digits behind it in most cases. -/
theorem toList_text (l : Label) :
    l.text.toList = match l with
      | segment i => 'v' :: digits i
      | base => ['v', 'b', 'a', 's', 'e']
      | composite k => 'o' :: 'v' :: digits k
      | caption k => 't' :: 'x' :: 't' :: digits k
      | track j => 'a' :: digits j
      | sound => ['a', 'o', 'u', 't'] := by
  cases l <;> simp [text, digits, Nat.toString_eq_repr, Nat.repr]

end Label

/-- The first character of a label is a letter. -/
theorem Label.exists_toList_text (l : Label) :
    ∃ c cs, l.text.toList = c :: cs ∧ c.isDigit = false := by
  rw [Label.toList_text]
  cases l <;> exact ⟨_, _, rfl, rfl⟩

theorem Label.text_injective : Function.Injective Label.text := by
  intro l m h
  have hbase (i : Nat) : digits i ≠ ['b', 'a', 's', 'e'] := fun he =>
    not_mem_digits (show 'b'.isDigit = false from rfl) (he ▸ List.mem_cons_self)
  have hsound (i : Nat) : digits i ≠ ['o', 'u', 't'] := fun he =>
    not_mem_digits (show 'o'.isDigit = false from rfl) (he ▸ List.mem_cons_self)
  have h' := congrArg String.toList h
  rw [Label.toList_text, Label.toList_text] at h'
  cases l <;> cases m <;> simp [hbase, hsound, (hbase _).symm, (hsound _).symm] at h' ⊢
  all_goals exact digits_injective h'

namespace Pad

/-- What stands between the brackets of a pad. -/
def body : Pad → List Char
  | video k => digits k ++ [':', 'v']
  | audio k => digits k ++ [':', 'a']
  | output l => l.text.toList

theorem toList_text (pad : Pad) : pad.text.toList = '[' :: (pad.body ++ [']']) := by
  cases pad <;> simp [text, body, digits, Nat.toString_eq_repr, Nat.repr]

/-- The body of a file pad begins with a digit, that of a label with a letter. -/
theorem digits_append_ne_text (n : Nat) (cs : List Char) (l : Label) :
    digits n ++ cs ≠ l.text.toList := by
  intro h
  obtain ⟨c, rest, hl, hc⟩ := l.exists_toList_text
  obtain ⟨d, ds, hd⟩ := List.exists_cons_of_ne_nil (digits_ne_nil n)
  rw [hl, hd, List.cons_append, List.cons.injEq] at h
  have hmem : c ∈ digits n := by simp [hd, h.1]
  exact not_mem_digits hc hmem

theorem text_injective : Function.Injective Pad.text := by
  intro a b h
  have h' := congrArg String.toList h
  rw [toList_text, toList_text] at h'
  simp only [List.cons.injEq, true_and, List.append_cancel_right_eq] at h'
  cases a with
  | video j =>
    cases b with
    | video k => exact congrArg video (digits_injective (List.append_cancel_right h'))
    | audio k => simpa [body] using congrArg List.getLast? h'
    | output l => exact absurd h' (digits_append_ne_text j _ l)
  | audio j =>
    cases b with
    | video k => simpa [body] using congrArg List.getLast? h'
    | audio k => exact congrArg audio (digits_injective (List.append_cancel_right h'))
    | output l => exact absurd h' (digits_append_ne_text j _ l)
  | output l =>
    cases b with
    | video k => exact absurd h'.symm (digits_append_ne_text k _ l)
    | audio k => exact absurd h'.symm (digits_append_ne_text k _ l)
    | output m => exact congrArg output (Label.text_injective (String.toList_inj.1 h'))

end Pad

end RenderGateway.Graph
