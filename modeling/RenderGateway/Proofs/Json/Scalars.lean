import RenderGateway.Json.Reader
import RenderGateway.Json.Writer
import RenderGateway.Proofs.Number.Digits

/-!
# Texts and numerals in JSON

What is written for a text or an integer is read back as the same, together with whatever follows
it. Behind a text that may be anything; a numeral ends only in front of a character that cannot
continue it. What is written for a double is read as a double, though not always as the same.
-/

namespace RenderGateway.Json

open Numeral

section Texts

theorem hexValue?_hexDigit (n : Nat) : hexValue? (hexDigit n) = some (n % 16) := by
  have hall : ∀ k < 16, hexValue? k.digitChar = some k := by decide
  exact hall _ (Nat.mod_lt n (by decide))

theorem unit?_control {n : Nat} (h : n < 0x20) :
    unit? '0' '0' (hexDigit (n / 16)) (hexDigit n) = some n := by
  have hzero : hexValue? '0' = some 0 := by decide
  have hsum : ((0 * 16 + 0) * 16 + n / 16 % 16) * 16 + n % 16 = n := by omega
  simp only [unit?, hzero, hexValue?_hexDigit, hsum]

theorem readQuoted_control {c : Char} (h : c.toNat < 0x20) (cs : List Char) :
    readQuoted ('\\' :: 'u' :: '0' :: '0' :: hexDigit (c.toNat / 16) :: hexDigit c.toNat :: cs) =
      (readQuoted cs).map fun (s, rest) => (c :: s, rest) := by
  have hscalar : isScalar c.toNat = true := by
    have hlt : c.toNat < 0xD800 := by omega
    simp [isScalar, hlt]
  cases hcs : readQuoted cs <;> simp [readQuoted, unit?_control h, hscalar, hcs]

/-- One character of a text is read as itself. -/
theorem readQuoted_escaped (c : Char) (cs : List Char) :
    readQuoted (escaped c ++ cs) = (readQuoted cs).map fun (s, rest) => (c :: s, rest) := by
  unfold escaped
  split_ifs with hquote hslash hline hreturn htab hcontrol
  · rw [hquote, Option.map_eq_bind]
    rfl
  · rw [hslash, Option.map_eq_bind]
    rfl
  · rw [hline, Option.map_eq_bind]
    rfl
  · rw [hreturn, Option.map_eq_bind]
    rfl
  · rw [htab, Option.map_eq_bind]
    rfl
  · exact readQuoted_control hcontrol cs
  · have hplain : ¬ (c = '\\' ∨ c.toNat < 0x20) := not_or.2 ⟨hslash, hcontrol⟩
    rw [List.singleton_append, readQuoted, if_neg hplain]
    · exact hquote
    · intro _ _ _ _ _ h
      exact absurd h hslash
    · intro _ _ h
      exact absurd h hslash

/-- A text is read up to its closing quote. -/
theorem readQuoted_flatMap (s rest : List Char) :
    readQuoted (s.flatMap escaped ++ '"' :: rest) = some (s, rest) := by
  induction s with
  | nil => rfl
  | cons c s ih =>
    rw [List.flatMap_cons, List.append_assoc, readQuoted_escaped, ih]
    rfl

theorem quoted_append (s : String) (rest : List Char) :
    quoted s ++ rest = '"' :: (s.toList.flatMap escaped ++ '"' :: rest) := by
  simp [quoted]

end Texts

section Numerals

/-- Whether a character may stand inside a numeral behind its first digit. -/
def continuesNumeral (c : Char) : Bool := c.isDigit || c = '.' || c = 'e' || c = 'E'

/-- A text in front of which every numeral ends. -/
def EndsNumeral (rest : List Char) : Prop := ∀ c ∈ rest.head?, continuesNumeral c = false

theorem endsNumeral_nil : EndsNumeral [] := by simp [EndsNumeral]

theorem endsNumeral_cons {c : Char} {rest : List Char} (h : continuesNumeral c = false) :
    EndsNumeral (c :: rest) := by
  simpa [EndsNumeral] using h

variable {rest : List Char}

theorem EndsNumeral.head (h : EndsNumeral rest) :
    ∀ c ∈ rest.head?, c.isDigit = false ∧ c ≠ '.' := by
  intro c hc
  have hnone := h c hc
  simp only [continuesNumeral, Bool.or_eq_false_iff, decide_eq_false_iff_not] at hnone
  exact ⟨hnone.1.1.1, hnone.1.1.2⟩

theorem leadingZero_digits (n : Nat) :
    ¬ (digits n = [] ∨ (digits n).head? = some '0' ∧ (digits n).length ≠ 1) := by
  rintro (h | ⟨hhead, hlength⟩)
  · exact digits_ne_nil n h
  · rw [eq_zero_of_head?_digits hhead] at hlength
    exact hlength rfl

theorem readSigned_digits (negative : Bool) (n : Nat) (h : EndsNumeral rest) :
    readSigned negative (digits n ++ rest) =
      some (if negative then -(n : Int) else n, rest) := by
  rw [readSigned, span_digits n fun c hc => (h.head c hc).1]
  simp only [if_neg (digits_ne_nil n), value_digits]

theorem readExponent_signedDigits (e : Int) (h : EndsNumeral rest) :
    readExponent ('e' :: (signedDigits e ++ rest)) = some (some e, rest) := by
  by_cases he : e < 0
  · have hsigned := readSigned_digits true e.natAbs h
    have hvalue : -((e.natAbs : Nat) : Int) = e := by omega
    rw [if_pos rfl, hvalue] at hsigned
    simp [readExponent, signedDigits, if_pos he, hsigned]
  · have hsigned := readSigned_digits false e.natAbs h
    have hvalue : ((e.natAbs : Nat) : Int) = e := by omega
    obtain ⟨c, cs, hcs, hc⟩ := exists_digits_append e.natAbs rest
    have hminus : c ≠ '-' := by rintro rfl; cases hc
    have hplus : c ≠ '+' := by rintro rfl; cases hc
    rw [if_neg (by decide), hvalue, hcs] at hsigned
    simp [readExponent, signedDigits, if_neg he, hcs, hsigned, hminus, hplus]

/-! ### Numerals as they are written -/

namespace NumberText

/-- A numeral without a zero in front of its whole digits, and with digits behind a point. -/
structure WellFormed (n : NumberText) : Prop where
  whole : ∃ k, n.whole = digits k
  fraction : ∀ ds ∈ n.fraction, ds ≠ [] ∧ ∀ c ∈ ds, c.isDigit = true

theorem wellFormed_ofUnits (negative : Bool) (units places : Nat) (exponent : Option Int) :
    (ofUnits negative units places exponent).WellFormed where
  whole := ⟨_, rfl⟩
  fraction := by
    intro ds hds
    unfold ofUnits at hds
    split_ifs at hds
    · cases hds
    · next hplaces =>
      obtain rfl := Option.some.inj hds
      have hlength : (padded places (units % 10 ^ places)).length = places :=
        length_padded (Nat.pos_of_ne_zero hplaces) (Nat.mod_lt _ (Nat.pow_pos (by decide)))
      exact ⟨List.ne_nil_of_length_pos (by omega), fun _ => isDigit_of_mem_padded⟩

theorem wellFormed_ofFinite (x : Binary64.Finite) : (ofFinite x).WellFormed := by
  unfold ofFinite
  dsimp only
  split
  · exact wellFormed_ofUnits ..
  · exact wellFormed_ofUnits ..

/-- The numeral of an integer. -/
def ofInteger (i : Integer) : NumberText :=
  ⟨decide (i.value < 0), digits i.value.natAbs, none, none⟩

theorem wellFormed_ofInteger (i : Integer) : (ofInteger i).WellFormed := ⟨⟨_, rfl⟩, nofun⟩

theorem toJson?_ofInteger (i : Integer) : (ofInteger i).toJson? = some (.integer i) := by
  have hzero : ¬ (i.value < 0 ∧ ((i.value.natAbs : Nat) : Int) = 0) := by omega
  have hvalue : (if i.value < 0 then -((i.value.natAbs : Nat) : Int) else i.value.natAbs) =
      i.value := by omega
  simp only [ofInteger, toJson?, Option.isNone_none, and_self, if_true, value_digits,
    decide_eq_true_eq, if_neg hzero, hvalue, Integer.ofInt?, dif_pos i.inRange]

/-- The numeral of a double has a point or an exponent. -/
theorem toJson?_ofFinite (x : Binary64.Finite) :
    (ofFinite x).toJson? = (ofFinite x).double?.map number := by
  have hdouble : ¬ ((ofFinite x).fraction.isNone ∧ (ofFinite x).exponent.isNone) := by
    unfold ofFinite
    dsimp only
    split
    · have hplaces : max 1 (-x.shortest.exponent).toNat ≠ 0 := by omega
      simp [ofUnits, hplaces]
    · simp [ofUnits]
  rw [toJson?, if_neg hdouble]

variable {n : NumberText}

theorem readFraction_fractionChars (h : ∀ ds ∈ n.fraction, ds ≠ [] ∧ ∀ c ∈ ds, c.isDigit = true)
    {tail : List Char} (htail : ∀ c ∈ tail.head?, c.isDigit = false ∧ c ≠ '.') :
    readFraction (fractionChars n.fraction ++ tail) = some (n.fraction, tail) := by
  cases hfraction : n.fraction with
  | none =>
    rw [fractionChars, List.nil_append]
    unfold readFraction
    split
    · exact absurd rfl (htail '.' rfl).2
    · rfl
  | some ds =>
    obtain ⟨hne, hdigits⟩ := h ds hfraction
    rw [fractionChars, List.cons_append, readFraction,
      span_of_isDigit hdigits fun c hc => (htail c hc).1]
    exact if_neg hne

theorem readExponent_exponentChars (e : Option Int) (h : EndsNumeral rest) :
    readExponent (exponentChars e ++ rest) = some (e, rest) := by
  cases e with
  | some e => exact readExponent_signedDigits e h
  | none =>
    cases rest with
    | nil => rfl
    | cons c cs =>
      have hc := h c rfl
      simp only [continuesNumeral, Bool.or_eq_false_iff, decide_eq_false_iff_not] at hc
      simp only [exponentChars, List.nil_append, readExponent, if_neg (not_or.2 ⟨hc.1.2, hc.2⟩)]

theorem head_exponentChars (e : Option Int) (h : EndsNumeral rest) :
    ∀ c ∈ (exponentChars e ++ rest).head?, c.isDigit = false ∧ c ≠ '.' := by
  cases e with
  | none => exact h.head
  | some e =>
    intro c hc
    obtain rfl : 'e' = c := Option.some.inj hc
    decide

theorem head_fractionChars (fraction : Option (List Char)) {tail : List Char}
    (htail : ∀ c ∈ tail.head?, c.isDigit = false ∧ c ≠ '.') :
    ∀ c ∈ (fractionChars fraction ++ tail).head?, c.isDigit = false := by
  cases fraction with
  | none => exact fun c hc => (htail c hc).1
  | some ds =>
    intro c hc
    obtain rfl : '.' = c := Option.some.inj hc
    decide

/-- A numeral is read up to its end. -/
theorem readNumber_unsigned (h : n.WellFormed) (hrest : EndsNumeral rest) :
    readNumber n.negative (n.unsigned ++ rest) = n.toJson?.map fun j => (j, rest) := by
  obtain ⟨k, hk⟩ := h.whole
  have hhead := head_exponentChars n.exponent hrest
  have hwhole : (⟨n.negative, digits k, n.fraction, n.exponent⟩ : NumberText) = n := by rw [← hk]
  rw [unsigned, hk, List.append_assoc, List.append_assoc, readNumber,
    span_digits k (head_fractionChars _ hhead)]
  simp only [if_neg (leadingZero_digits k), readFraction_fractionChars h.fraction hhead,
    readExponent_exponentChars n.exponent hrest, hwhole, Option.bind_eq_bind, Option.bind_some]
  cases n.toJson? <;> rfl

end NumberText

end Numerals

end RenderGateway.Json
