import RenderGateway.Json.Basic
import RenderGateway.Number.Arithmetic

/-!
# Values from JSON

A decoder turns a document into a value of a type, or refuses it. A record is
an object, whose unknown fields are ignored, or an array of its fields in
order. `null` stands for an absent optional value and for nothing else.
-/

namespace RenderGateway.Json

/-- What a field that occurs twice in a record means. -/
inductive Repeats
  | refused
  | lastWins
deriving DecidableEq, Repr

abbrev Decoder (α : Type) := Repeats → Json → Option α

namespace Decoder

def any : Decoder Json := fun _ j => some j

def string : Decoder String := fun _ j =>
  match j with
  | text s => some s
  | _ => none

def boolean : Decoder Bool := fun _ j =>
  match j with
  | bool b => some b
  | _ => none

/-- An integer between the bounds. -/
def integerWithin (lo hi : Int) : Decoder Int := fun _ j =>
  match j with
  | integer n => if lo ≤ n.value ∧ n.value ≤ hi then some n.value else none
  | _ => none

def map (f : α → β) (d : Decoder α) : Decoder β := fun r j => (d r j).map f

def int64 : Decoder Int64 :=
  map Int64.ofInt (integerWithin Int64.minValue.toInt Int64.maxValue.toInt)

def uint64 : Decoder UInt64 :=
  map (fun n => UInt64.ofNat n.toNat) (integerWithin 0 (2 ^ 64 - 1))

def uint32 : Decoder UInt32 :=
  map (fun n => UInt32.ofNat n.toNat) (integerWithin 0 (2 ^ 32 - 1))

def uint16 : Decoder UInt16 :=
  map (fun n => UInt16.ofNat n.toNat) (integerWithin 0 (2 ^ 16 - 1))

def uint8 : Decoder UInt8 :=
  map (fun n => UInt8.ofNat n.toNat) (integerWithin 0 (2 ^ 8 - 1))

/-- A double, which an integer may stand for. -/
def binary64 : Decoder Binary64 := fun _ j =>
  match j with
  | integer n => some (.ofInt n.value)
  | number x => some (.finite x)
  | _ => none

def nullable (d : Decoder α) : Decoder (Option α) := fun r j =>
  match j with
  | null => some none
  | j => (d r j).map some

def list (d : Decoder α) : Decoder (List α) := fun r j =>
  match j with
  | array js => js.mapM (d r)
  | _ => none

/-- The fields of an object, all of one kind. -/
def entries (d : Decoder α) : Decoder (List (String × α)) := fun r j =>
  match j with
  | object fields => fields.mapM fun (name, j) => (d r j).map fun a => (name, a)
  | _ => none

/-- One of the names of a kind, as a text or as the only field of an object that
holds nothing. -/
def name (ofName? : String → Option α) : Decoder α := fun _ j =>
  match j with
  | text s => ofName? s
  | object [(s, null)] => ofName? s
  | _ => none

/-- The fields that a record was written with. -/
structure Record where
  fields : List (String × Json)
  positional : Bool
  repeats : Repeats

namespace Record

/-- Whether one of the names stands twice among the fields. -/
def repeatsName (names : List String) (fields : List (String × Json)) : Bool :=
  names.any fun name => 1 < (fields.filter fun field => field.1 = name).length

def ofJson? (names : List String) : Decoder Record := fun r j =>
  match j with
  | object fields =>
    if r = .refused ∧ repeatsName names fields then none else some ⟨fields, false, r⟩
  | array items =>
    if names.length < items.length then none else some ⟨names.zip items, true, r⟩
  | _ => none

def find? (record : Record) (name : String) : Option Json := lookup name record.fields

def required (record : Record) (name : String) (d : Decoder α) : Option α :=
  (record.find? name).bind (d record.repeats)

/-- A field with a value for its absence. -/
def withDefault (record : Record) (name : String) (value : α) (d : Decoder α) : Option α :=
  match record.find? name with
  | none => some value
  | some j => d record.repeats j

/-- An optional field, absent or `null` or a value. -/
def optional (record : Record) (name : String) (d : Decoder α) : Option (Option α) :=
  record.withDefault name none (nullable d)

/-- An optional field that a record written as an array has to mention. -/
def mentioned (record : Record) (name : String) (d : Decoder α) : Option (Option α) :=
  match record.find? name with
  | none => if record.positional then none else some none
  | some j => nullable d record.repeats j

end Record

/-- A record type from the names of its fields, in order, and a way to build it. -/
def record (names : List String) (build : Record → Option α) : Decoder α := fun r j =>
  (Record.ofJson? names r j).bind build

end Decoder

end RenderGateway.Json
