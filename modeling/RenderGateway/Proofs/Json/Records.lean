import Mathlib.Data.List.Nodup
import RenderGateway.Json.Decoder
import RenderGateway.Proofs.Json.Documents
import RenderGateway.Proofs.Number.Rounding

/-!
# Records in JSON

A record is written with a slot for each of its fields, and slots without a value are left out. If
no two slots have the same name, each field is found with what its slot holds, beside any other
fields. A decoder reads back what an encoder writes if it does so for the value of each slot.
-/

namespace RenderGateway

namespace Json

abbrev Slot := String × Option Json

/-- The fields of the slots that hold a value. -/
def ofSlots : List Slot → List (String × Json)
  | [] => []
  | (_, none) :: slots => ofSlots slots
  | (name, some j) :: slots => (name, j) :: ofSlots slots

/-- A list that is left out when it is empty. -/
def nonEmpty (encode : α → Json) : List α → Option Json
  | [] => none
  | as => some (ofList encode as)

section Present

variable {slots : List Slot} {name : String}

@[simp]
theorem ofSlots_nil : ofSlots [] = [] := rfl

@[simp]
theorem ofSlots_some (name : String) (j : Json) (slots : List Slot) :
    ofSlots ((name, some j) :: slots) = (name, j) :: ofSlots slots := rfl

@[simp]
theorem ofSlots_map (name : String) (encode : α → Json) (o : Option α) (slots : List Slot) :
    ofSlots ((name, o.map encode) :: slots) = optionalField name encode o ++ ofSlots slots := by
  cases o <;> rfl

@[simp]
theorem ofSlots_nonEmpty (name : String) (encode : α → Json) (as : List α) (slots : List Slot) :
    ofSlots ((name, nonEmpty encode as) :: slots) =
      nonEmptyField name encode as ++ ofSlots slots := by
  cases as <;> rfl

/-- Of a repeated field the last is taken. -/
theorem lookup_cons (name : String) (field : String × Json) (fields : List (String × Json)) :
    lookup name (field :: fields) =
      (lookup name fields).or (if field.1 = name then some field.2 else none) := by
  have hstart : ∀ (fields : List (String × Json)) (found : Option Json),
      fields.foldl (fun found field => if field.1 = name then some field.2 else found) found =
        (lookup name fields).or found := by
    intro fields
    induction fields with
    | nil => exact fun _ => rfl
    | cons field fields ih =>
      intro found
      rw [lookup, List.foldl_cons, List.foldl_cons, ih, ih, Option.or_assoc]
      by_cases hkey : field.1 = name
      · simp [hkey]
      · simp [hkey]
  exact hstart fields _

theorem lookup_ofSlots_cons (name : String) (slot : Slot) (slots : List Slot) :
    lookup name (ofSlots (slot :: slots)) =
      (lookup name (ofSlots slots)).or (if slot.1 = name then slot.2 else none) := by
  obtain ⟨key, _ | j⟩ := slot
  · simp [ofSlots]
  · rw [ofSlots, lookup_cons]

theorem lookup_ofSlots_eq_none (h : name ∉ slots.map Prod.fst) :
    lookup name (ofSlots slots) = none := by
  induction slots with
  | nil => rfl
  | cons slot slots ih =>
    obtain ⟨hne, htail⟩ := not_or.1 (List.mem_cons.not.1 h)
    rw [lookup_ofSlots_cons, ih htail, if_neg (Ne.symm hne)]
    rfl

/-- Each slot is found under its name. -/
theorem lookup_ofSlots (hnodup : (slots.map Prod.fst).Nodup) {value : Option Json}
    (h : (name, value) ∈ slots) : lookup name (ofSlots slots) = value := by
  induction slots with
  | nil => cases h
  | cons first slots ih =>
    obtain ⟨hfirst, htail⟩ := List.nodup_cons.1 hnodup
    rw [lookup_ofSlots_cons]
    rcases List.mem_cons.1 h with rfl | hmem
    · rw [lookup_ofSlots_eq_none hfirst, if_pos rfl]
      rfl
    · have hne : first.1 ≠ name := by
        intro heq
        exact hfirst (heq ▸ List.mem_map_of_mem hmem)
      rw [ih htail hmem, if_neg hne, Option.or_none]

theorem filter_ofSlots_eq_nil (h : name ∉ slots.map Prod.fst) :
    (ofSlots slots).filter (fun field => field.1 = name) = [] := by
  induction slots with
  | nil => rfl
  | cons slot slots ih =>
    obtain ⟨hne, htail⟩ := not_or.1 (List.mem_cons.not.1 h)
    obtain ⟨key, _ | j⟩ := slot
    · exact ih htail
    · rw [ofSlots, List.filter_cons_of_neg (by simpa using Ne.symm hne), ih htail]

theorem length_filter_ofSlots_le (hnodup : (slots.map Prod.fst).Nodup) (name : String) :
    ((ofSlots slots).filter fun field => field.1 = name).length ≤ 1 := by
  induction slots with
  | nil => exact Nat.zero_le 1
  | cons slot slots ih =>
    obtain ⟨hfirst, htail⟩ := List.nodup_cons.1 hnodup
    obtain ⟨key, _ | j⟩ := slot
    · exact ih htail
    · rw [ofSlots]
      by_cases hkey : key = name
      · rw [List.filter_cons_of_pos (by simpa using hkey),
          filter_ofSlots_eq_nil (hkey ▸ hfirst)]
        exact le_rfl
      · rw [List.filter_cons_of_neg (by simpa using hkey)]
        exact ih htail

/-- Slots with different names hold no field twice. -/
theorem repeatsName_ofSlots (hnodup : (slots.map Prod.fst).Nodup) (names : List String) :
    Decoder.Record.repeatsName names (ofSlots slots) = false := by
  rw [Decoder.Record.repeatsName, List.any_eq_false]
  intro name _
  have hle := length_filter_ofSlots_le hnodup name
  simpa using hle

theorem mem_ofSlots {field : String × Json} :
    field ∈ ofSlots slots ↔ (field.1, some field.2) ∈ slots := by
  induction slots with
  | nil => simp
  | cons slot slots ih =>
    obtain ⟨key, _ | j⟩ := slot
    · rw [ofSlots, ih]
      simp
    · rw [ofSlots, List.mem_cons, List.mem_cons, ih]
      simp [Prod.ext_iff]

theorem depth_ofSlots_le_iff {n : Nat} :
    (object (ofSlots slots)).depth ≤ n + 1 ↔ ∀ slot ∈ slots, ∀ j ∈ slot.2, j.depth ≤ n := by
  rw [depth_object_le_iff]
  refine ⟨fun h slot hslot j hj => h (slot.1, j) (mem_ofSlots.2 ?_), fun h field hfield =>
    h _ (mem_ofSlots.1 hfield) _ rfl⟩
  obtain ⟨key, value⟩ := slot
  cases hj
  exact hslot

theorem exact_ofSlots_iff :
    (object (ofSlots slots)).Exact ↔ ∀ slot ∈ slots, ∀ j ∈ slot.2, j.Exact := by
  rw [exact_object_iff]
  refine ⟨fun h slot hslot j hj => h (slot.1, j) (mem_ofSlots.2 ?_), fun h field hfield =>
    h _ (mem_ofSlots.1 hfield) _ rfl⟩
  obtain ⟨key, value⟩ := slot
  cases hj
  exact hslot

/-- Among the reread fields a name is found reread. -/
theorem lookup_rereadFields {fields again : List (String × Json)}
    (h : rereadFields fields = some again) (name : String) :
    Option.Rel (fun j k => j.reread = some k) (lookup name fields) (lookup name again) := by
  induction fields generalizing again with
  | nil =>
    cases h
    exact .none
  | cons field fields ih =>
    obtain ⟨key, j⟩ := field
    obtain ⟨k, hk, h⟩ := Option.bind_eq_some_iff.1 h
    obtain ⟨rest, hrest, h⟩ := Option.bind_eq_some_iff.1 h
    cases h
    have hrel := ih hrest
    rw [lookup_cons, lookup_cons]
    generalize lookup name fields = found, lookup name rest = foundAgain at hrel ⊢
    cases hrel with
    | some hfound => exact .some hfound
    | none =>
      dsimp only [Option.none_or]
      split
      · exact .some hk
      · exact .none

end Present

theorem depth_nonEmpty_le {encode : α → Json} {as : List α} {d : Nat}
    (h : ∀ a ∈ as, (encode a).depth ≤ d) : ∀ j ∈ nonEmpty encode as, j.depth ≤ d + 1 := by
  intro j hj
  cases as with
  | nil => cases hj
  | cons a as =>
    cases hj
    exact depth_ofList_le h

/-- Whether a decoder reads a value from its form. The form is not `null`, so that it can stand
for a value that is optional. -/
def Reads (d : Decoder α) (encode : α → Json) (a : α) : Prop :=
  encode a ≠ .null ∧ ∀ r, d r (encode a) = some a

namespace Decoder

section Fields

variable {record : Record} {name : String} {d : Decoder α} {encode : α → Json}

theorem nullable_eq {j : Json} {r : Repeats} (hnull : j ≠ .null) :
    nullable d r j = (d r j).map some := by
  cases j with
  | null => exact absurd rfl hnull
  | _ => rfl

theorem Record.required_eq {a : α} (ha : Reads d encode a)
    (h : record.find? name = some (encode a)) : record.required name d = some a := by
  rw [required, h, Option.bind_some, ha.2]

theorem Record.withDefault_eq {a value : α} (ha : Reads d encode a)
    (h : record.find? name = some (encode a)) : record.withDefault name value d = some a := by
  simp only [withDefault, h, ha.2]

theorem Record.optional_eq {o : Option α} (ho : ∀ a ∈ o, Reads d encode a)
    (h : record.find? name = o.map encode) : record.optional name d = some o := by
  cases o with
  | none => simp only [optional, withDefault, h, Option.map_none]
  | some a =>
    obtain ⟨hnull, hread⟩ := ho a rfl
    simp only [optional, withDefault, h, Option.map_some, nullable_eq hnull, hread]

theorem Record.mentioned_eq {o : Option α} (hrecord : record.positional = false)
    (ho : ∀ a ∈ o, Reads d encode a) (h : record.find? name = o.map encode) :
    record.mentioned name d = some o := by
  cases o with
  | none => simp [mentioned, h, hrecord]
  | some a =>
    obtain ⟨hnull, hread⟩ := ho a rfl
    simp only [mentioned, h, Option.map_some, nullable_eq hnull, hread]

theorem reads_list {as : List α} (h : ∀ a ∈ as, Reads d encode a) :
    Reads (list d) (ofList encode) as := by
  refine ⟨nofun, fun r => ?_⟩
  change (as.map encode).mapM (d r) = some as
  induction as with
  | nil => rfl
  | cons a as ih =>
    obtain ⟨ha, has⟩ := List.forall_mem_cons.1 h
    rw [List.map_cons, List.mapM_cons, ha.2, ih has]
    rfl

theorem Record.withDefault_nil_eq {as : List α} (has : ∀ a ∈ as, Reads d encode a)
    (h : record.find? name = nonEmpty encode as) : record.withDefault name [] (list d) = some as := by
  cases as with
  | nil => simp only [withDefault, h, nonEmpty]
  | cons a as => exact withDefault_eq (reads_list has) h

/-- A field that is found stands among the fields of the record. -/
theorem mem_of_lookup {fields : List (String × Json)} {j : Json}
    (h : lookup name fields = some j) : (name, j) ∈ fields := by
  induction fields with
  | nil => cases h
  | cons field fields ih =>
    rw [lookup_cons, Option.or_eq_some_iff] at h
    rcases h with htail | ⟨-, hhead⟩
    · exact List.mem_cons_of_mem _ (ih htail)
    · split at hhead
      next hname =>
        cases hhead
        cases hname
        exact List.mem_cons_self
      next => cases hhead

theorem depth_lt_of_find? {names : List String} {r : Repeats} {document j : Json}
    (hrecord : Record.ofJson? names r document = some record)
    (hj : record.find? name = some j) : j.depth < document.depth := by
  have hmem := mem_of_lookup hj
  unfold Record.ofJson? at hrecord
  split at hrecord
  next fields =>
    split at hrecord
    · cases hrecord
    · cases hrecord
      exact Nat.lt_succ_of_le (fieldsDepth_le_iff.1 le_rfl _ hmem)
  next items =>
    split at hrecord
    · cases hrecord
    · cases hrecord
      exact Nat.lt_succ_of_le (itemsDepth_le_iff.1 le_rfl _ (List.of_mem_zip hmem).2)
  next => cases hrecord

end Fields

/-- A record is read from slots, among others too, if it is built from what they hold. -/
theorem reads_slots {names : List String} {build : Record → Option α} {slots : List Slot} {a : α}
    (hnodup : (slots.map Prod.fst).Nodup)
    (hbuild : ∀ record : Record, record.positional = false →
      (∀ slot ∈ slots, record.find? slot.1 = slot.2) → build record = some a) (r : Repeats) :
    record names build r (.object (ofSlots slots)) = some a := by
  have hrecord : Record.ofJson? names r (.object (ofSlots slots)) =
      some ⟨ofSlots slots, false, r⟩ := by
    simp [Record.ofJson?, repeatsName_ofSlots hnodup]
  rw [record, hrecord, Option.bind_some]
  exact hbuild _ rfl fun slot hslot => lookup_ofSlots hnodup hslot

/-- A record is read from the slots of its fields, if it is built from what they hold. -/
theorem reads_record {names : List String} {build : Record → Option α} {encode : α → Json}
    {slots : List Slot} {a : α} (hjson : encode a = .object (ofSlots slots))
    (hnames : slots.map Prod.fst = names) (hnodup : names.Nodup)
    (hbuild : ∀ record : Record, record.positional = false →
      (∀ slot ∈ slots, record.find? slot.1 = slot.2) → build record = some a) :
    Reads (record names build) encode a := by
  refine ⟨by simp [hjson], fun r => ?_⟩
  rw [hjson]
  exact reads_slots (hnames ▸ hnodup) hbuild r

section Scalars

theorem reads_string (s : String) : Reads string .text s := ⟨nofun, fun _ => rfl⟩

theorem reads_boolean (b : Bool) : Reads boolean .bool b := ⟨nofun, fun _ => rfl⟩

theorem reads_any {j : Json} (h : j ≠ .null) : Reads any id j := ⟨h, fun _ => rfl⟩

theorem reads_name {ofName? : String → Option α} {nameOf : α → String} {a : α}
    (h : ofName? (nameOf a) = some a) : Reads (name ofName?) (fun a => .text (nameOf a)) a :=
  ⟨nofun, fun _ => h⟩

theorem reads_int64 (n : Int64) : Reads int64 ofInt64 n := by
  refine ⟨nofun, fun r => ?_⟩
  have hlow := n.le_toInt
  have hhigh := n.toInt_lt
  have hmin : Int64.minValue.toInt = -2 ^ 63 := by decide
  have hmax : Int64.maxValue.toInt = 2 ^ 63 - 1 := by decide
  have hwithin : integerWithin Int64.minValue.toInt Int64.maxValue.toInt r (ofInt64 n) =
      some n.toInt :=
    if_pos ⟨by change _ ≤ n.toInt; omega, by change n.toInt ≤ _; omega⟩
  rw [int64, map, hwithin, Option.map_some, Int64.ofInt_toInt]

theorem integerWithin_ofUInt64 {n : UInt64} {hi : Int} (h : (n.toNat : Int) ≤ hi) (r : Repeats) :
    integerWithin 0 hi r (ofUInt64 n) = some (n.toNat : Int) :=
  if_pos ⟨Int.natCast_nonneg _, h⟩

theorem reads_uint64 (n : UInt64) : Reads uint64 ofUInt64 n := by
  refine ⟨nofun, fun r => ?_⟩
  have hlt := n.toNat_lt
  rw [uint64, map, integerWithin_ofUInt64 (by omega), Option.map_some, Int.toNat_natCast,
    UInt64.ofNat_toNat]

theorem reads_uint32 (n : UInt32) : Reads uint32 ofUInt32 n := by
  refine ⟨nofun, fun r => ?_⟩
  have hlt := n.toNat_lt
  have hwide : n.toUInt64.toNat = n.toNat := UInt32.toNat_toUInt64 n
  rw [uint32, map, ofUInt32, integerWithin_ofUInt64 (by omega), Option.map_some,
    Int.toNat_natCast, hwide, UInt32.ofNat_toNat]

theorem reads_uint8 (n : UInt8) : Reads uint8 ofUInt8 n := by
  refine ⟨nofun, fun r => ?_⟩
  have hlt := n.toNat_lt
  have hwide : n.toUInt64.toNat = n.toNat := UInt8.toNat_toUInt64 n
  rw [uint8, map, ofUInt8, integerWithin_ofUInt64 (by omega), Option.map_some,
    Int.toNat_natCast, hwide, UInt8.ofNat_toNat]

theorem reads_binary64 {x : Binary64} (h : x.isFinite = true) : Reads binary64 ofBinary64 x := by
  cases x with
  | nan | infinite => cases h
  | finite x => exact ⟨nofun, fun _ => rfl⟩

end Scalars

section Yielded

/-- Whether a decoder yields only values with a property. -/
def Yields (d : Decoder α) (P : α → Prop) : Prop := ∀ ⦃r j a⦄, d r j = some a → P a

variable {record : Record} {name : String} {d : Decoder α} {P : α → Prop}

theorem Yields.nullable (h : Yields d P) : Yields (Decoder.nullable d) fun o => ∀ a ∈ o, P a := by
  intro r j o ho a ha
  cases ha
  unfold Decoder.nullable at ho
  split at ho
  · cases ho
  · obtain ⟨b, hb, hab⟩ := Option.map_eq_some_iff.1 ho
    cases hab
    exact h hb

theorem Yields.list (h : Yields d P) : Yields (Decoder.list d) fun as => ∀ a ∈ as, P a := by
  intro r j as has
  unfold Decoder.list at has
  split at has
  next js =>
    induction js generalizing as with
    | nil =>
      cases has
      exact List.forall_mem_nil _
    | cons j js ih =>
      rw [List.mapM_cons] at has
      obtain ⟨a, ha, has⟩ := Option.bind_eq_some_iff.1 has
      obtain ⟨bs, hbs, heq⟩ := Option.bind_eq_some_iff.1 has
      cases heq
      exact List.forall_mem_cons.2 ⟨h ha, ih hbs⟩
  next => cases has

theorem Yields.required (h : Yields d P) {a : α} (ha : record.required name d = some a) : P a := by
  obtain ⟨j, -, hj⟩ := Option.bind_eq_some_iff.1 ha
  exact h hj

theorem Yields.withDefault (h : Yields d P) {a value : α} (hvalue : P value)
    (ha : record.withDefault name value d = some a) : P a := by
  unfold Record.withDefault at ha
  split at ha
  · cases ha
    exact hvalue
  · exact h ha

theorem Yields.optional (h : Yields d P) {o : Option α} (ho : record.optional name d = some o) :
    ∀ a ∈ o, P a := by
  refine h.nullable.withDefault ?_ ho
  intro a ha
  cases ha

theorem exists_of_mentioned {a : α} (h : record.mentioned name d = some (some a)) :
    ∃ j, record.find? name = some j ∧ d record.repeats j = some a := by
  unfold Record.mentioned at h
  split at h
  · split at h <;> cases h
  next j hj =>
    unfold Decoder.nullable at h
    split at h
    · cases h
    · obtain ⟨b, hb, hab⟩ := Option.map_eq_some_iff.1 h
      cases hab
      exact ⟨j, hj, hb⟩

theorem Yields.mentioned (h : Yields d P) {o : Option α} (ho : record.mentioned name d = some o) :
    ∀ a ∈ o, P a := by
  rintro a rfl
  obtain ⟨j, -, hj⟩ := exists_of_mentioned ho
  exact h hj

theorem of_record {names : List String} {build : Record → Option α} {r : Repeats} {j : Json}
    (h : ∀ record, Record.ofJson? names r j = some record → ∀ a ∈ build record, P a) {a : α}
    (ha : Decoder.record names build r j = some a) : P a := by
  obtain ⟨record, hrecord, hbuild⟩ := Option.bind_eq_some_iff.1 ha
  exact h record hrecord a hbuild

/-- What holds of every value that a record is built to, field by field. -/
theorem yields_record {names : List String} {build : Record → Option α}
    (h : ∀ record, ∀ a ∈ build record, P a) : Yields (Decoder.record names build) P :=
  fun _ _ _ => of_record fun record _ => h record

theorem forall_mem_bind {x : Option α} {f : α → Option β} {Q : β → Prop}
    (h : ∀ a ∈ x, ∀ b ∈ f a, Q b) : ∀ b ∈ x >>= f, Q b := by
  intro b hb
  obtain ⟨a, ha, hfa⟩ := Option.bind_eq_some_iff.1 hb
  exact h a ha b hfa

theorem yields_binary64 : Yields binary64 fun x => x.isFinite = true := by
  intro r j x hx
  unfold binary64 at hx
  split at hx
  next n =>
    cases hx
    have hrange := n.inRange
    exact Binary64.isFinite_ofInt (by omega)
  next =>
    cases hx
    rfl
  next => cases hx

end Yielded

end Decoder

end Json

end RenderGateway
