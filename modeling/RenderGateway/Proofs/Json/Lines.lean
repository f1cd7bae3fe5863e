import RenderGateway.Proofs.Json.Documents

/-!
# Documents on one line

The text of a document has no control characters whatever its texts contain, so it has no line
break.
-/

namespace RenderGateway.Json

open Numeral

/-- A text without the control characters below the blank. -/
def Visible (cs : List Char) : Prop := ∀ c ∈ cs, 0x20 ≤ c.toNat

instance (cs : List Char) : Decidable (Visible cs) :=
  List.decidableBAll _ cs

section Parts

variable {cs rest : List Char}

theorem visible_cons {c : Char} : Visible (c :: cs) ↔ 0x20 ≤ c.toNat ∧ Visible cs :=
  List.forall_mem_cons

theorem visible_append : Visible (cs ++ rest) ↔ Visible cs ∧ Visible rest :=
  List.forall_mem_append

theorem visible_of_isDigit (h : ∀ c ∈ cs, c.isDigit = true) : Visible cs := by
  intro c hc
  have hdigit := h c hc
  simp only [Char.isDigit, Bool.and_eq_true, decide_eq_true_eq] at hdigit
  exact Nat.le_trans (show 0x20 ≤ '0'.toNat by decide) hdigit.1

theorem visible_digits (n : Nat) : Visible (digits n) :=
  visible_of_isDigit fun _ => isDigit_of_mem_digits

theorem visible_signedDigits (n : Int) : Visible (signedDigits n) := by
  rw [signedDigits]
  split
  · exact visible_cons.2 ⟨by decide, visible_digits _⟩
  · exact visible_digits _

theorem visible_hexDigit (n : Nat) : 0x20 ≤ (hexDigit n).toNat := by
  have hall : ∀ k < 16, 0x20 ≤ k.digitChar.toNat := by decide
  exact hall _ (Nat.mod_lt n (by decide))

theorem visible_escaped (c : Char) : Visible (escaped c) := by
  have hshort : ∀ cs ∈ [['\\', '"'], ['\\', '\\'], ['\\', 'n'], ['\\', 'r'], ['\\', 't']],
      Visible cs := by decide
  unfold escaped
  split_ifs with hquote hslash hline hreturn htab hcontrol
  case pos | pos | pos | pos | pos => exact hshort _ (by simp)
  · simp only [visible_cons, visible_hexDigit, true_and]
    exact ⟨by decide, by decide, by decide, by decide, List.forall_mem_nil _⟩
  · exact visible_cons.2 ⟨Nat.le_of_not_lt hcontrol, List.forall_mem_nil _⟩

theorem visible_quoted (s : String) : Visible (quoted s) := by
  have htext : Visible (s.toList.flatMap escaped) := by
    intro c hc
    obtain ⟨d, _, hd⟩ := List.mem_flatMap.1 hc
    exact visible_escaped d c hd
  exact visible_append.2 ⟨visible_cons.2 ⟨by decide, htext⟩, by decide⟩

theorem visible_chars {n : NumberText} (h : n.WellFormed) : Visible n.chars := by
  have hfraction : Visible (NumberText.fractionChars n.fraction) := by
    cases hn : n.fraction with
    | none => exact List.forall_mem_nil _
    | some ds => exact visible_cons.2 ⟨by decide, visible_of_isDigit (h.fraction ds hn).2⟩
  have hexponent : Visible (NumberText.exponentChars n.exponent) := by
    cases n.exponent with
    | none => exact List.forall_mem_nil _
    | some e => exact visible_cons.2 ⟨by decide, visible_signedDigits e⟩
  have hunsigned : Visible n.unsigned := by
    obtain ⟨k, hk⟩ := h.whole
    rw [NumberText.unsigned, hk]
    exact visible_append.2 ⟨visible_digits k, visible_append.2 ⟨hfraction, hexponent⟩⟩
  rw [NumberText.chars]
  split
  · exact visible_cons.2 ⟨by decide, hunsigned⟩
  · exact hunsigned

end Parts

section Documents

variable {rest : List Char}

theorem visible_writeItems {js : List Json}
    (h : ∀ j ∈ js, ∀ rest, Visible rest → Visible (writeThen rest j)) (hrest : Visible rest) :
    Visible (writeItems rest js) := by
  induction js with
  | nil => exact visible_cons.2 ⟨by decide, hrest⟩
  | cons j js ih =>
    obtain ⟨hj, hjs⟩ := List.forall_mem_cons.1 h
    cases js with
    | nil => exact hj _ (visible_cons.2 ⟨by decide, hrest⟩)
    | cons k ks => exact hj _ (visible_cons.2 ⟨by decide, ih hjs⟩)

theorem visible_writeFields {fields : List (String × Json)}
    (h : ∀ field ∈ fields, ∀ rest, Visible rest → Visible (writeThen rest field.2))
    (hrest : Visible rest) : Visible (writeFields rest fields) := by
  induction fields with
  | nil => exact visible_cons.2 ⟨by decide, hrest⟩
  | cons field fields ih =>
    obtain ⟨hj, hfields⟩ := List.forall_mem_cons.1 h
    obtain ⟨name, j⟩ := field
    cases fields with
    | nil =>
      have hvalue : Visible (writeThen ('}' :: rest) j) :=
        hj _ (visible_cons.2 ⟨by decide, hrest⟩)
      exact visible_append.2 ⟨visible_quoted name, visible_cons.2 ⟨by decide, hvalue⟩⟩
    | cons k ks =>
      have hvalue : Visible (writeThen (',' :: writeFields rest (k :: ks)) j) :=
        hj _ (visible_cons.2 ⟨by decide, ih hfields⟩)
      exact visible_append.2 ⟨visible_quoted name, visible_cons.2 ⟨by decide, hvalue⟩⟩

theorem visible_writeThen (j : Json) : ∀ rest, Visible rest → Visible (writeThen rest j) := by
  induction j using inductionOn with
  | null =>
    intro rest hrest
    change Visible (['n', 'u', 'l', 'l'] ++ rest)
    exact visible_append.2 ⟨by decide, hrest⟩
  | bool b =>
    intro rest hrest
    cases b with
    | true =>
      change Visible (['t', 'r', 'u', 'e'] ++ rest)
      exact visible_append.2 ⟨by decide, hrest⟩
    | false =>
      change Visible (['f', 'a', 'l', 's', 'e'] ++ rest)
      exact visible_append.2 ⟨by decide, hrest⟩
  | integer i =>
    exact fun rest hrest => visible_append.2 ⟨visible_signedDigits i.value, hrest⟩
  | number x =>
    exact fun rest hrest =>
      visible_append.2 ⟨visible_chars (NumberText.wellFormed_ofFinite x), hrest⟩
  | text s => exact fun rest hrest => visible_append.2 ⟨visible_quoted s, hrest⟩
  | array js ih =>
    exact fun rest hrest => visible_cons.2 ⟨by decide, visible_writeItems ih hrest⟩
  | object fields ih =>
    exact fun rest hrest => visible_cons.2 ⟨by decide, visible_writeFields ih hrest⟩

/-- The text of a document is one line. -/
theorem newline_not_mem_write (j : Json) : '\n' ∉ j.write.toList := by
  rw [write, String.toList_ofList]
  intro hmem
  have hvisible := j.visible_writeThen [] (List.forall_mem_nil _) '\n' hmem
  revert hvisible
  decide

end Documents

end RenderGateway.Json
