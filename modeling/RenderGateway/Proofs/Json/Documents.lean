import RenderGateway.Proofs.Json.Scalars

/-!
# Documents in text

The text of a document is read as the document with every double that is not read back from its
own digits replaced, if its arrays and objects do not nest deeper than the reader allows. No text is
read as a document that nests deeper.
-/

namespace RenderGateway

/-- Whether a double is read back from its own digits. -/
def Binary64.Finite.ReadsBack (x : Binary64.Finite) : Prop :=
  (Json.NumberText.ofFinite x).double? = some x

instance (x : Binary64.Finite) : Decidable x.ReadsBack := by
  unfold Binary64.Finite.ReadsBack
  infer_instance

namespace Json

open Numeral

@[elab_as_elim]
theorem inductionOn {motive : Json → Prop} (j : Json) (null : motive null)
    (bool : ∀ b, motive (bool b)) (integer : ∀ i, motive (integer i))
    (number : ∀ x, motive (number x)) (text : ∀ s, motive (text s))
    (array : ∀ js, (∀ j ∈ js, motive j) → motive (array js))
    (object : ∀ fields, (∀ field ∈ fields, motive field.2) → motive (object fields)) :
    motive j := by
  refine Json.rec (motive_2 := fun js => ∀ j ∈ js, motive j)
    (motive_3 := fun fields => ∀ field ∈ fields, motive field.2)
    (motive_4 := fun field => motive field.2)
    null bool integer number text array object ?_ ?_ ?_ ?_ ?_ j
  · exact List.forall_mem_nil _
  · exact fun j js hj hjs => List.forall_mem_cons.2 ⟨hj, hjs⟩
  · exact List.forall_mem_nil _
  · exact fun field fields hfield hfields => List.forall_mem_cons.2 ⟨hfield, hfields⟩
  · exact fun _ _ hj => hj

mutual

/-- How deep arrays and objects nest in a document. -/
def depth : Json → Nat
  | array items => itemsDepth items + 1
  | object fields => fieldsDepth fields + 1
  | _ => 0
termination_by structural j => j

def itemsDepth : List Json → Nat
  | [] => 0
  | j :: js => max j.depth (itemsDepth js)
termination_by structural js => js

def fieldsDepth : List (String × Json) → Nat
  | [] => 0
  | (_, j) :: fields => max j.depth (fieldsDepth fields)
termination_by structural fields => fields

end

theorem itemsDepth_le_iff {js : List Json} {d : Nat} :
    itemsDepth js ≤ d ↔ ∀ j ∈ js, j.depth ≤ d := by
  induction js with
  | nil => simp [itemsDepth]
  | cons j js ih => simp only [itemsDepth, Nat.max_le, ih, List.forall_mem_cons]

theorem fieldsDepth_le_iff {fields : List (String × Json)} {d : Nat} :
    fieldsDepth fields ≤ d ↔ ∀ field ∈ fields, field.2.depth ≤ d := by
  induction fields with
  | nil => simp [fieldsDepth]
  | cons field fields ih => simp only [fieldsDepth, Nat.max_le, ih, List.forall_mem_cons]

theorem depth_array_le_iff {js : List Json} {d : Nat} :
    (array js).depth ≤ d + 1 ↔ ∀ j ∈ js, j.depth ≤ d := by
  rw [depth, Nat.add_le_add_iff_right, itemsDepth_le_iff]

theorem depth_object_le_iff {fields : List (String × Json)} {d : Nat} :
    (object fields).depth ≤ d + 1 ↔ ∀ field ∈ fields, field.2.depth ≤ d := by
  rw [depth, Nat.add_le_add_iff_right, fieldsDepth_le_iff]

@[simp]
theorem depth_text (s : String) : (text s).depth = 0 := rfl

@[simp]
theorem depth_bool (b : Bool) : (bool b).depth = 0 := rfl

@[simp]
theorem depth_ofUInt64 (n : UInt64) : (ofUInt64 n).depth = 0 := rfl

@[simp]
theorem depth_ofUInt32 (n : UInt32) : (ofUInt32 n).depth = 0 := rfl

@[simp]
theorem depth_ofUInt8 (n : UInt8) : (ofUInt8 n).depth = 0 := rfl

@[simp]
theorem depth_ofInt64 (n : Int64) : (ofInt64 n).depth = 0 := rfl

@[simp]
theorem depth_ofBinary64 (x : Binary64) : (ofBinary64 x).depth = 0 := by
  cases x <;> rfl

theorem depth_ofList_le {encode : α → Json} {as : List α} {d : Nat}
    (h : ∀ a ∈ as, (encode a).depth ≤ d) : (ofList encode as).depth ≤ d + 1 := by
  rw [ofList, depth_array_le_iff]
  simpa using h

mutual

/-- The doubles in a document. -/
def doubles : Json → List Binary64.Finite
  | number x => [x]
  | array items => itemsDoubles items
  | object fields => fieldsDoubles fields
  | _ => []
termination_by structural j => j

def itemsDoubles : List Json → List Binary64.Finite
  | [] => []
  | j :: js => j.doubles ++ itemsDoubles js
termination_by structural js => js

def fieldsDoubles : List (String × Json) → List Binary64.Finite
  | [] => []
  | (_, j) :: fields => j.doubles ++ fieldsDoubles fields
termination_by structural fields => fields

end

mutual

/-- What the text of a document is read as: the document itself up to its doubles, if these are
read as doubles at all. -/
def reread : Json → Option Json
  | number x => (NumberText.ofFinite x).double?.map number
  | array items => (rereadItems items).map array
  | object fields => (rereadFields fields).map object
  | j => some j
termination_by structural j => j

def rereadItems : List Json → Option (List Json)
  | [] => some []
  | j :: js => do return (← j.reread) :: (← rereadItems js)
termination_by structural js => js

def rereadFields : List (String × Json) → Option (List (String × Json))
  | [] => some []
  | (name, j) :: fields => do return (name, ← j.reread) :: (← rereadFields fields)
termination_by structural fields => fields

end

/-- Whether every double in a document is read back from its own digits. -/
def Exact (j : Json) : Prop := ∀ x ∈ j.doubles, x.ReadsBack

instance (j : Json) : Decidable j.Exact := List.decidableBAll _ _

section Reread

@[simp]
theorem exact_text (s : String) : (text s).Exact := List.forall_mem_nil _

@[simp]
theorem exact_bool (b : Bool) : (bool b).Exact := List.forall_mem_nil _

@[simp]
theorem exact_ofUInt64 (n : UInt64) : (ofUInt64 n).Exact := List.forall_mem_nil _

@[simp]
theorem exact_ofUInt32 (n : UInt32) : (ofUInt32 n).Exact := List.forall_mem_nil _

theorem exact_number_iff {x : Binary64.Finite} : (number x).Exact ↔ x.ReadsBack :=
  List.forall_mem_singleton

theorem exact_array_iff {js : List Json} : (array js).Exact ↔ ∀ j ∈ js, j.Exact := by
  change (∀ x ∈ itemsDoubles js, x.ReadsBack) ↔ _
  induction js with
  | nil => simp [itemsDoubles]
  | cons j js ih => rw [itemsDoubles, List.forall_mem_append, ih, List.forall_mem_cons, Exact]

theorem exact_object_iff {fields : List (String × Json)} :
    (object fields).Exact ↔ ∀ field ∈ fields, field.2.Exact := by
  change (∀ x ∈ fieldsDoubles fields, x.ReadsBack) ↔ _
  induction fields with
  | nil => simp [fieldsDoubles]
  | cons field fields ih =>
    rw [fieldsDoubles, List.forall_mem_append, ih, List.forall_mem_cons, Exact]

theorem exact_ofList {encode : α → Json} {as : List α} (h : ∀ a ∈ as, (encode a).Exact) :
    (ofList encode as).Exact := by
  rw [ofList, exact_array_iff]
  simpa using h

theorem rereadItems_eq_some_iff {js : List Json}
    (h : ∀ j ∈ js, j.reread = some j ↔ j.Exact) :
    rereadItems js = some js ↔ ∀ j ∈ js, j.Exact := by
  induction js with
  | nil => simp [rereadItems]
  | cons j js ih =>
    obtain ⟨hj, hjs⟩ := List.forall_mem_cons.1 h
    rw [List.forall_mem_cons, ← hj, ← ih hjs, rereadItems]
    cases j.reread <;> cases rereadItems js <;> simp

theorem rereadFields_eq_some_iff {fields : List (String × Json)}
    (h : ∀ field ∈ fields, field.2.reread = some field.2 ↔ field.2.Exact) :
    rereadFields fields = some fields ↔ ∀ field ∈ fields, field.2.Exact := by
  induction fields with
  | nil => simp [rereadFields]
  | cons field fields ih =>
    obtain ⟨hj, hfields⟩ := List.forall_mem_cons.1 h
    obtain ⟨name, j⟩ := field
    replace hj : j.reread = some j ↔ j.Exact := hj
    rw [List.forall_mem_cons, ← hj, ← ih hfields, rereadFields]
    cases j.reread <;> cases rereadFields fields <;> simp

/-- A document is reread as itself exactly if its doubles are. -/
theorem reread_eq_some_iff {j : Json} : j.reread = some j ↔ j.Exact := by
  induction j using inductionOn with
  | null | bool | integer | text => exact iff_of_true rfl (List.forall_mem_nil _)
  | number x =>
    rw [exact_number_iff, reread, Binary64.Finite.ReadsBack]
    cases (NumberText.ofFinite x).double? <;> simp
  | array js ih =>
    rw [exact_array_iff, ← rereadItems_eq_some_iff ih, reread]
    cases rereadItems js <;> simp
  | object fields ih =>
    rw [exact_object_iff, ← rereadFields_eq_some_iff ih, reread]
    cases rereadFields fields <;> simp

end Reread

section Written

theorem writeThen_array (js : List Json) (rest : List Char) :
    writeThen rest (array js) = '[' :: writeItems rest js := rfl

theorem writeThen_object (fields : List (String × Json)) (rest : List Char) :
    writeThen rest (object fields) = '{' :: writeFields rest fields := rfl

theorem writeItems_singleton (j : Json) (rest : List Char) :
    writeItems rest [j] = writeThen (']' :: rest) j := rfl

theorem writeItems_cons_cons (j k : Json) (ks : List Json) (rest : List Char) :
    writeItems rest (j :: k :: ks) = writeThen (',' :: writeItems rest (k :: ks)) j := rfl

theorem writeFields_singleton (name : String) (j : Json) (rest : List Char) :
    writeFields rest [(name, j)] = quoted name ++ ':' :: writeThen ('}' :: rest) j := rfl

theorem writeFields_cons_cons (name : String) (j : Json) (field : String × Json)
    (fields : List (String × Json)) (rest : List Char) :
    writeFields rest ((name, j) :: field :: fields) =
      quoted name ++ ':' :: writeThen (',' :: writeFields rest (field :: fields)) j := rfl

theorem writeThen_integer (i : Integer) (rest : List Char) :
    writeThen rest (integer i) = (NumberText.ofInteger i).chars ++ rest := by
  change signedDigits i.value ++ rest = _
  by_cases h : i.value < 0 <;>
    simp [signedDigits, NumberText.chars, NumberText.unsigned, NumberText.ofInteger,
      NumberText.fractionChars, NumberText.exponentChars, h]

theorem writeThen_number (x : Binary64.Finite) (rest : List Char) :
    writeThen rest (number x) = (NumberText.ofFinite x).chars ++ rest := rfl

/-- What no text of a document opens with. -/
def Opens (c : Char) : Prop := isSpace c = false ∧ c ≠ ']'

theorem NumberText.exists_unsigned {n : NumberText} (h : n.WellFormed) (rest : List Char) :
    ∃ c cs, n.unsigned ++ rest = c :: cs ∧ c.isDigit = true := by
  obtain ⟨k, hk⟩ := h.whole
  rw [unsigned, hk, List.append_assoc]
  exact exists_digits_append k _

theorem opens_of_isDigit {c : Char} (h : c.isDigit = true) : Opens c := by
  refine ⟨?_, ?_⟩
  · by_contra hspace
    simp only [isSpace, Bool.not_eq_false, Bool.or_eq_true, decide_eq_true_eq] at hspace
    obtain ((rfl | rfl) | rfl) | rfl := hspace <;> cases h
  · rintro rfl
    cases h

theorem NumberText.exists_chars {n : NumberText} (h : n.WellFormed) (rest : List Char) :
    ∃ c cs, n.chars ++ rest = c :: cs ∧ Opens c := by
  unfold chars
  split
  · exact ⟨'-', _, rfl, by decide, by decide⟩
  · obtain ⟨c, cs, hcs, hc⟩ := exists_unsigned h rest
    exact ⟨c, cs, hcs, opens_of_isDigit hc⟩

theorem exists_writeThen (j : Json) (rest : List Char) :
    ∃ c cs, writeThen rest j = c :: cs ∧ Opens c := by
  cases j with
  | null => exact ⟨'n', _, rfl, by decide, by decide⟩
  | bool b => cases b with
    | true => exact ⟨'t', _, rfl, by decide, by decide⟩
    | false => exact ⟨'f', _, rfl, by decide, by decide⟩
  | integer i =>
    rw [writeThen_integer]
    exact NumberText.exists_chars (NumberText.wellFormed_ofInteger i) rest
  | number x => exact NumberText.exists_chars (NumberText.wellFormed_ofFinite x) rest
  | text s => exact ⟨'"', _, rfl, by decide, by decide⟩
  | array js => exact ⟨'[', _, rfl, by decide, by decide⟩
  | object fields => exact ⟨'{', _, rfl, by decide, by decide⟩

theorem exists_writeItems (j : Json) (js : List Json) (rest : List Char) :
    ∃ c cs, writeItems rest (j :: js) = c :: cs ∧ Opens c := by
  cases js with
  | nil => exact exists_writeThen j (']' :: rest)
  | cons k ks => exact exists_writeThen j (',' :: writeItems rest (k :: ks))

theorem exists_writeFields (field : String × Json) (fields : List (String × Json))
    (rest : List Char) : ∃ cs, writeFields rest (field :: fields) = '"' :: cs := by
  cases fields with
  | nil => exact ⟨_, rfl⟩
  | cons k ks => exact ⟨_, rfl⟩

theorem NumberText.length_lt_chars {n : NumberText} (h : n.WellFormed) (rest : List Char) :
    rest.length < (n.chars ++ rest).length := by
  obtain ⟨c, cs, hcs, -⟩ := exists_chars h []
  rw [List.append_nil] at hcs
  rw [hcs, List.length_append, List.length_cons]
  omega

theorem length_lt_writeItems {js : List Json}
    (h : ∀ j ∈ js, ∀ rest, rest.length < (writeThen rest j).length) (rest : List Char) :
    rest.length < (writeItems rest js).length := by
  induction js with
  | nil => exact Nat.lt_succ_self _
  | cons j js ih =>
    obtain ⟨hj, hjs⟩ := List.forall_mem_cons.1 h
    cases js with
    | nil =>
      have hlt := hj (']' :: rest)
      rw [List.length_cons] at hlt
      rw [writeItems_singleton]
      omega
    | cons k ks =>
      have hlt := hj (',' :: writeItems rest (k :: ks))
      have htail := ih hjs
      rw [List.length_cons] at hlt
      rw [writeItems_cons_cons]
      omega

theorem length_lt_writeFields {fields : List (String × Json)}
    (h : ∀ field ∈ fields, ∀ rest, rest.length < (writeThen rest field.2).length)
    (rest : List Char) : rest.length < (writeFields rest fields).length := by
  induction fields with
  | nil => exact Nat.lt_succ_self _
  | cons field fields ih =>
    obtain ⟨hj, hfields⟩ := List.forall_mem_cons.1 h
    obtain ⟨name, j⟩ := field
    cases fields with
    | nil =>
      have hlt : rest.length + 1 < (writeThen ('}' :: rest) j).length := hj ('}' :: rest)
      rw [writeFields_singleton, List.length_append, List.length_cons]
      omega
    | cons k ks =>
      have hlt : (writeFields rest (k :: ks)).length + 1 <
          (writeThen (',' :: writeFields rest (k :: ks)) j).length :=
        hj (',' :: writeFields rest (k :: ks))
      have htail := ih hfields
      rw [writeFields_cons_cons, List.length_append, List.length_cons]
      omega

/-- Every document has a text. -/
theorem length_lt_writeThen (j : Json) : ∀ rest, rest.length < (writeThen rest j).length := by
  induction j using inductionOn with
  | null =>
    intro rest
    change rest.length < rest.length + 4
    omega
  | bool b =>
    intro rest
    cases b with
    | true =>
      change rest.length < rest.length + 4
      omega
    | false =>
      change rest.length < rest.length + 5
      omega
  | integer i =>
    intro rest
    rw [writeThen_integer]
    exact NumberText.length_lt_chars (NumberText.wellFormed_ofInteger i) rest
  | number x => exact NumberText.length_lt_chars (NumberText.wellFormed_ofFinite x)
  | text s =>
    intro rest
    change rest.length < (quoted s ++ rest).length
    rw [quoted_append, List.length_cons, List.length_append, List.length_cons]
    omega
  | array js ih =>
    intro rest
    rw [writeThen_array, List.length_cons]
    exact Nat.lt_succ_of_lt (length_lt_writeItems ih rest)
  | object fields ih =>
    intro rest
    rw [writeThen_object, List.length_cons]
    exact Nat.lt_succ_of_lt (length_lt_writeFields ih rest)

end Written

section Read

variable {rest : List Char} {fuel d : Nat}

theorem skipSpace_cons {c : Char} (h : isSpace c = false) (cs : List Char) :
    skipSpace (c :: cs) = c :: cs := by
  simp [skipSpace, h]

theorem readValue_chars {n : NumberText} (h : n.WellFormed) (hrest : EndsNumeral rest) :
    readValue (fuel + 1) d (n.chars ++ rest) = n.toJson?.map fun j => (j, rest) := by
  rw [← NumberText.readNumber_unsigned h hrest]
  cases hsign : n.negative with
  | true =>
    rw [NumberText.chars, if_pos hsign]
    rfl
  | false =>
    obtain ⟨c, cs, hcs, hc⟩ := NumberText.exists_unsigned h rest
    rw [NumberText.chars, if_neg (by simp [hsign]), hcs, readValue,
      skipSpace_cons (opens_of_isDigit hc).1]
    split
    all_goals first | rfl | (rename_i heq; cases heq; cases hc)

theorem readValue_quote (cs : List Char) : readValue (fuel + 1) d ('"' :: cs) =
    (readQuoted cs).map fun (s, cs) => (text (String.ofList s), cs) :=
  rfl

theorem readValue_array {c : Char} (h : Opens c) (cs : List Char) :
    readValue (fuel + 1) (d + 1) ('[' :: c :: cs) =
      (readItems fuel d (c :: cs)).map fun (js, cs) => (array js, cs) := by
  obtain ⟨hspace, hne⟩ := h
  rw [readValue, skipSpace_cons (c := '[') (by decide)]
  simp only [skipSpace_cons hspace]
  split
  next heq =>
    cases heq
    exact absurd rfl hne
  next => rfl

theorem readValue_object (cs : List Char) :
    readValue (fuel + 1) (d + 1) ('{' :: '"' :: cs) =
      (readFields fuel d ('"' :: cs)).map fun (fields, cs) => (object fields, cs) :=
  rfl

/-- Whether the text of a document is read as said, whatever follows, with fuel for each of its
characters. -/
def Rereads (j : Json) : Prop :=
  ∀ (rest : List Char) (fuel d : Nat), EndsNumeral rest →
    2 * (writeThen rest j).length ≤ fuel + 2 * rest.length → j.depth ≤ d →
    readValue fuel d (writeThen rest j) = j.reread.map fun k => (k, rest)

theorem rereads_of_succ {j : Json}
    (h : ∀ (rest : List Char) (fuel d : Nat), EndsNumeral rest →
      2 * (writeThen rest j).length ≤ fuel + 1 + 2 * rest.length → j.depth ≤ d →
      readValue (fuel + 1) d (writeThen rest j) = j.reread.map fun k => (k, rest)) :
    j.Rereads := by
  intro rest fuel d hrest hfuel hdepth
  have hlt := j.length_lt_writeThen rest
  obtain ⟨fuel, rfl⟩ : ∃ n, fuel = n + 1 := ⟨fuel - 1, by omega⟩
  exact h rest fuel d hrest hfuel hdepth

theorem readItems_writeItems {js : List Json} (hne : js ≠ []) (h : ∀ j ∈ js, Rereads j)
    (hfuel : 2 * (writeItems rest js).length ≤ fuel + 2 * rest.length)
    (hdepth : ∀ j ∈ js, j.depth ≤ d) :
    readItems fuel d (writeItems rest js) = (rereadItems js).map fun ks => (ks, rest) := by
  induction js generalizing fuel with
  | nil => exact absurd rfl hne
  | cons j js ih =>
    obtain ⟨hj, hjs⟩ := List.forall_mem_cons.1 h
    obtain ⟨hjdepth, hjsdepth⟩ := List.forall_mem_cons.1 hdepth
    have hlt : rest.length < (writeItems rest (j :: js)).length :=
      length_lt_writeItems (fun j _ => j.length_lt_writeThen) rest
    obtain ⟨fuel, rfl⟩ : ∃ n, fuel = n + 1 := ⟨fuel - 1, by omega⟩
    cases js with
    | nil =>
      rw [writeItems_singleton] at hfuel ⊢
      have hread := hj (']' :: rest) fuel d (endsNumeral_cons (by decide))
        (by rw [List.length_cons]; omega) hjdepth
      rw [readItems, hread, rereadItems, rereadItems]
      cases j.reread <;> rfl
    | cons k ks =>
      rw [writeItems_cons_cons] at hfuel ⊢
      have hlength := j.length_lt_writeThen (',' :: writeItems rest (k :: ks))
      have htail : rest.length < (writeItems rest (k :: ks)).length :=
        length_lt_writeItems (fun j _ => j.length_lt_writeThen) rest
      rw [List.length_cons] at hlength
      have hread := hj (',' :: writeItems rest (k :: ks)) fuel d (endsNumeral_cons (by decide))
        (by rw [List.length_cons]; omega) hjdepth
      have hreadTail : readItems fuel d (writeItems rest (k :: ks)) =
          (rereadItems (k :: ks)).map fun ms => (ms, rest) :=
        ih (by simp) hjs (by omega) hjsdepth
      rw [readItems, hread, rereadItems]
      cases j.reread with
      | none => rfl
      | some m =>
        simp only [Option.map_some, Option.bind_eq_bind, Option.bind_some,
          skipSpace_cons (c := ',') (by decide), hreadTail]
        cases rereadItems (k :: ks) <;> rfl

/-- A field up to its value. -/
theorem readFields_name (name : String) (cs : List Char) :
    readFields (fuel + 1) d (quoted name ++ ':' :: cs) = (readValue fuel d cs).bind
      fun (j, cs) => match skipSpace cs with
        | '}' :: cs => some ([(name, j)], cs)
        | ',' :: cs => (readFields fuel d cs).bind fun (fields, cs) =>
            some ((name, j) :: fields, cs)
        | _ => none := by
  rw [quoted_append, readFields, skipSpace_cons (by decide)]
  simp only [readQuoted_flatMap, Option.bind_eq_bind, Option.bind_some]
  rw [skipSpace_cons (by decide)]
  rw [String.ofList_toList]
  rfl

theorem readFields_writeFields {fields : List (String × Json)} (hne : fields ≠ [])
    (h : ∀ field ∈ fields, Rereads field.2)
    (hfuel : 2 * (writeFields rest fields).length ≤ fuel + 2 * rest.length)
    (hdepth : ∀ field ∈ fields, field.2.depth ≤ d) :
    readFields fuel d (writeFields rest fields) =
      (rereadFields fields).map fun gs => (gs, rest) := by
  induction fields generalizing fuel with
  | nil => exact absurd rfl hne
  | cons field fields ih =>
    obtain ⟨hj, hfields⟩ := List.forall_mem_cons.1 h
    obtain ⟨hjdepth, hfieldsdepth⟩ := List.forall_mem_cons.1 hdepth
    obtain ⟨name, j⟩ := field
    replace hj : j.Rereads := hj
    have hlt : rest.length < (writeFields rest ((name, j) :: fields)).length :=
      length_lt_writeFields (fun field _ => field.2.length_lt_writeThen) rest
    obtain ⟨fuel, rfl⟩ : ∃ n, fuel = n + 1 := ⟨fuel - 1, by omega⟩
    cases fields with
    | nil =>
      rw [writeFields_singleton] at hfuel ⊢
      rw [List.length_append, List.length_cons] at hfuel
      have hread := hj ('}' :: rest) fuel d (endsNumeral_cons (by decide))
        (by rw [List.length_cons]; omega) hjdepth
      rw [readFields_name, hread, rereadFields, rereadFields]
      cases j.reread <;> rfl
    | cons k ks =>
      rw [writeFields_cons_cons] at hfuel ⊢
      rw [List.length_append, List.length_cons] at hfuel
      have hlength := j.length_lt_writeThen (',' :: writeFields rest (k :: ks))
      have htail : rest.length < (writeFields rest (k :: ks)).length :=
        length_lt_writeFields (fun field _ => field.2.length_lt_writeThen) rest
      rw [List.length_cons] at hlength
      have hread := hj (',' :: writeFields rest (k :: ks)) fuel d (endsNumeral_cons (by decide))
        (by rw [List.length_cons]; omega) hjdepth
      have hreadTail : readFields fuel d (writeFields rest (k :: ks)) =
          (rereadFields (k :: ks)).map fun ms => (ms, rest) :=
        ih (by simp) hfields (by omega) hfieldsdepth
      rw [readFields_name, hread, rereadFields]
      cases j.reread with
      | none => rfl
      | some m =>
        simp only [Option.map_some, Option.bind_some, skipSpace_cons (c := ',') (by decide),
          hreadTail]
        cases rereadFields (k :: ks) <;> rfl

/-- The text of every document is read as the document up to its doubles. -/
theorem rereads (j : Json) : j.Rereads := by
  induction j using inductionOn with
  | null => exact rereads_of_succ fun rest fuel d _ _ _ => rfl
  | bool b =>
    refine rereads_of_succ fun rest fuel d _ _ _ => ?_
    cases b <;> rfl
  | integer i =>
    refine rereads_of_succ fun rest fuel d hrest _ _ => ?_
    rw [writeThen_integer, readValue_chars (NumberText.wellFormed_ofInteger i) hrest,
      NumberText.toJson?_ofInteger]
    rfl
  | number x =>
    refine rereads_of_succ fun rest fuel d hrest _ _ => ?_
    rw [writeThen_number, readValue_chars (NumberText.wellFormed_ofFinite x) hrest,
      NumberText.toJson?_ofFinite]
    rfl
  | text s =>
    refine rereads_of_succ fun rest fuel d _ _ _ => ?_
    change readValue (fuel + 1) d (quoted s ++ rest) = _
    rw [quoted_append, readValue_quote, readQuoted_flatMap, Option.map_some]
    simp only [String.ofList_toList]
    rfl
  | array js ih =>
    refine rereads_of_succ fun rest fuel d _ hfuel hdepth => ?_
    obtain ⟨d, rfl⟩ : ∃ n, d = n + 1 := ⟨d - 1, by rw [depth] at hdepth; omega⟩
    cases js with
    | nil => rfl
    | cons j js =>
      rw [writeThen_array, List.length_cons] at hfuel
      have hread : readItems fuel d (writeItems rest (j :: js)) =
          (rereadItems (j :: js)).map fun ks => (ks, rest) :=
        readItems_writeItems (by simp) ih (by omega) (depth_array_le_iff.1 hdepth)
      obtain ⟨c, cs, hcs, hopens⟩ := exists_writeItems j js rest
      rw [writeThen_array, hcs, readValue_array hopens, ← hcs, hread, reread, Option.map_map,
        Option.map_map]
      rfl
  | object fields ih =>
    refine rereads_of_succ fun rest fuel d _ hfuel hdepth => ?_
    obtain ⟨d, rfl⟩ : ∃ n, d = n + 1 := ⟨d - 1, by rw [depth] at hdepth; omega⟩
    cases fields with
    | nil => rfl
    | cons field fields =>
      rw [writeThen_object, List.length_cons] at hfuel
      have hread : readFields fuel d (writeFields rest (field :: fields)) =
          (rereadFields (field :: fields)).map fun gs => (gs, rest) :=
        readFields_writeFields (by simp) ih (by omega) (depth_object_le_iff.1 hdepth)
      obtain ⟨cs, hcs⟩ := exists_writeFields field fields rest
      rw [writeThen_object, hcs, readValue_object, ← hcs, hread, reread, Option.map_map,
        Option.map_map]
      rfl

end Read

section Depth

theorem depth_of_toJson? {n : NumberText} {j : Json} (h : n.toJson? = some j) : j.depth = 0 := by
  have hdouble : n.double?.map number = some j → j.depth = 0 := by
    intro hj
    obtain ⟨x, -, rfl⟩ := Option.map_eq_some_iff.1 hj
    rfl
  unfold NumberText.toJson? at h
  dsimp only at h
  split at h
  · split at h
    · exact hdouble h
    · split at h
      · obtain rfl := Option.some.inj h
        rfl
      · exact hdouble h
  · exact hdouble h

theorem depth_of_readNumber {negative : Bool} {cs rest : List Char} {j : Json}
    (h : readNumber negative cs = some (j, rest)) : j.depth = 0 := by
  simp only [readNumber] at h
  split_ifs at h
  simp only [Option.bind_eq_bind, Option.bind_eq_some_iff, Option.pure_def, Option.some.injEq,
    Prod.mk.injEq] at h
  obtain ⟨_, -, _, -, json, hjson, rfl, -⟩ := h
  exact depth_of_toJson? hjson

/-- With so much fuel nothing is read that nests deeper than allowed. -/
structure ReadsShallow (fuel : Nat) : Prop where
  value : ∀ {d cs j rest}, readValue fuel d cs = some (j, rest) → j.depth ≤ d
  items : ∀ {d cs js rest}, readItems fuel d cs = some (js, rest) → itemsDepth js ≤ d
  fields : ∀ {d cs fields rest}, readFields fuel d cs = some (fields, rest) →
    fieldsDepth fields ≤ d

namespace ReadsShallow

variable {fuel d : Nat} {cs rest : List Char}

theorem value_succ (h : ReadsShallow fuel) {j : Json}
    (hread : readValue (fuel + 1) d cs = some (j, rest)) : j.depth ≤ d := by
  rw [readValue] at hread
  split at hread
  case h_1 | h_2 | h_3 =>
    cases hread
    exact Nat.zero_le d
  next =>
    obtain ⟨_, -, hj⟩ := Option.map_eq_some_iff.1 hread
    cases hj
    exact Nat.zero_le d
  next => exact (depth_of_readNumber hread).symm ▸ Nat.zero_le d
  next =>
    split at hread
    · cases hread
    · split at hread
      · cases hread
        exact Nat.succ_le_succ (Nat.zero_le _)
      · obtain ⟨⟨js, cs⟩, hjs, hj⟩ := Option.map_eq_some_iff.1 hread
        cases hj
        exact Nat.succ_le_succ (h.items hjs)
  next =>
    split at hread
    · cases hread
    · split at hread
      · cases hread
        exact Nat.succ_le_succ (Nat.zero_le _)
      · obtain ⟨⟨fields, cs⟩, hfields, hj⟩ := Option.map_eq_some_iff.1 hread
        cases hj
        exact Nat.succ_le_succ (h.fields hfields)
  next => exact (depth_of_readNumber hread).symm ▸ Nat.zero_le d

theorem items_succ (h : ReadsShallow fuel) {js : List Json}
    (hread : readItems (fuel + 1) d cs = some (js, rest)) : itemsDepth js ≤ d := by
  rw [readItems] at hread
  simp only [Option.bind_eq_bind, Option.bind_eq_some_iff, Option.pure_def] at hread
  obtain ⟨⟨j, tail⟩, hj, hread⟩ := hread
  split at hread
  · cases hread
    exact Nat.max_le.2 ⟨h.value hj, Nat.zero_le d⟩
  · obtain ⟨⟨ks, _⟩, hks, hread⟩ := Option.bind_eq_some_iff.1 hread
    cases hread
    exact Nat.max_le.2 ⟨h.value hj, h.items hks⟩
  · cases hread

theorem fields_succ (h : ReadsShallow fuel) {fields : List (String × Json)}
    (hread : readFields (fuel + 1) d cs = some (fields, rest)) : fieldsDepth fields ≤ d := by
  rw [readFields] at hread
  split at hread
  · simp only [Option.bind_eq_bind, Option.bind_eq_some_iff, Option.pure_def] at hread
    obtain ⟨⟨name, tail⟩, -, hread⟩ := hread
    split at hread
    · obtain ⟨⟨j, tail⟩, hj, hread⟩ := Option.bind_eq_some_iff.1 hread
      have hdepth := h.value hj
      split at hread
      · cases hread
        exact Nat.max_le.2 ⟨hdepth, Nat.zero_le d⟩
      · obtain ⟨⟨gs, _⟩, hgs, hread⟩ := Option.bind_eq_some_iff.1 hread
        cases hread
        exact Nat.max_le.2 ⟨hdepth, h.fields hgs⟩
      · cases hread
    · cases hread
  · cases hread

end ReadsShallow

/-- No part of a text is read as a document that nests deeper than allowed. -/
theorem readsShallow (fuel : Nat) : ReadsShallow fuel := by
  induction fuel with
  | zero => exact ⟨nofun, nofun, nofun⟩
  | succ fuel ih => exact ⟨ih.value_succ, ih.items_succ, ih.fields_succ⟩

theorem depth_le_of_read? {s : String} {j : Json} (h : read? s = some j) : j.depth ≤ maxDepth := by
  simp only [read?, readChars?] at h
  split at h
  · next k rest hread =>
    split_ifs at h
    cases h
    exact (readsShallow _).value hread
  · cases h

end Depth

theorem readLeading?_write {j : Json} (h : j.depth ≤ maxDepth) :
    readLeading? j.write.toList = j.reread.map fun k => (k, []) := by
  rw [write, String.toList_ofList]
  exact j.rereads [] _ maxDepth endsNumeral_nil (by omega) h

theorem read?_write_of_depth_le {j : Json} (h : j.depth ≤ maxDepth) :
    read? j.write = j.reread := by
  rw [read?, readChars?, readLeading?_write h]
  cases j.reread <;> rfl

/-- The text of a document is read as the document exactly if the reader allows its nesting and
every double in it is read back from its own digits. -/
theorem read?_write_iff {j : Json} : read? j.write = some j ↔ j.depth ≤ maxDepth ∧ j.Exact := by
  constructor
  · intro h
    have hdepth := depth_le_of_read? h
    rw [read?_write_of_depth_le hdepth] at h
    exact ⟨hdepth, reread_eq_some_iff.1 h⟩
  · rintro ⟨hdepth, hexact⟩
    rw [read?_write_of_depth_le hdepth]
    exact reread_eq_some_iff.2 hexact

end Json

end RenderGateway
