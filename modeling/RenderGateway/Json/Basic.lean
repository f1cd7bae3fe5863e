import RenderGateway.Number.Decimal

/-!
# JSON documents

A document keeps the fields of an object in their order, repeated ones
included. Integers carry the range that 64 bits, signed or unsigned, can hold;
any other number is a finite double.
-/

namespace RenderGateway

namespace Json

/-- An integer that fits 64 bits, signed or unsigned. -/
structure Integer where
  value : Int
  inRange : -2 ^ 63 ≤ value ∧ value < 2 ^ 64
deriving DecidableEq, Repr

def Integer.ofInt? (n : Int) : Option Integer :=
  if h : -2 ^ 63 ≤ n ∧ n < 2 ^ 64 then some ⟨n, h⟩ else none

end Json

inductive Json
  | null
  | bool (value : Bool)
  | integer (value : Json.Integer)
  | number (value : Binary64.Finite)
  | text (value : String)
  | array (items : List Json)
  | object (fields : List (String × Json))
deriving Inhabited, Repr

namespace Json

def ofUInt64 (n : UInt64) : Json :=
  .integer ⟨n.toNat, by have := n.toNat_lt; omega⟩

def ofUInt32 (n : UInt32) : Json := ofUInt64 n.toUInt64

def ofUInt16 (n : UInt16) : Json := ofUInt64 n.toUInt64

def ofUInt8 (n : UInt8) : Json := ofUInt64 n.toUInt64

def ofInt64 (n : Int64) : Json :=
  .integer ⟨n.toInt, by have := n.toInt_lt; have := n.le_toInt; omega⟩

/-- A count; one beyond 64 bits is written as the largest that fits. -/
def ofNat (n : Nat) : Json := ofUInt64 (UInt64.ofNat (min n (2 ^ 64 - 1)))

/-- A double; one that no numeral writes becomes `null`. -/
def ofBinary64 : Binary64 → Json
  | .finite x => .number x
  | _ => .null

/-- A double; one that no numeral writes is shown by its name. -/
def ofBinary64Shown : Binary64 → Json
  | .finite x => .number x
  | x => .text x.display

def ofOption (encode : α → Json) : Option α → Json
  | none => .null
  | some a => encode a

def ofList (encode : α → Json) (as : List α) : Json := .array (as.map encode)

def texts (ss : List String) : Json := ofList .text ss

/-- A field that is left out when there is nothing to write. -/
def optionalField (name : String) (encode : α → Json) : Option α → List (String × Json)
  | none => []
  | some a => [(name, encode a)]

def nonEmptyField (name : String) (encode : α → Json) : List α → List (String × Json)
  | [] => []
  | as => [(name, ofList encode as)]

/-- The value of a field; of a repeated field the last. -/
def lookup (name : String) (fields : List (String × Json)) : Option Json :=
  fields.foldl (fun found (key, value) => if key = name then some value else found) none

def field? (name : String) : Json → Option Json
  | object fields => lookup name fields
  | _ => none

def isNull : Json → Bool
  | null => true
  | _ => false

def text? : Json → Option String
  | text s => some s
  | _ => none

def fieldList : Json → List (String × Json)
  | object fields => fields
  | _ => []

end Json

end RenderGateway
