import RenderGateway.Json.Reader

/-!
# Internet addresses

Addresses of both families from their texts. A decimal part has no superfluous
zero. In the long form one `::` stands for at least one group of zeros, and the
last two groups may be written as an address of the short form.
-/

namespace RenderGateway

inductive IpAddress
  | v4 (bits : BitVec 32)
  | v6 (bits : BitVec 128)
deriving DecidableEq, Repr

namespace IpAddress

/-- The address whose octets these are. -/
def ofOctets (octets : List Nat) : IpAddress :=
  v4 (BitVec.ofNat 32 (octets.foldl (fun n octet => n * 2 ^ 8 + octet) 0))

/-- The address whose groups of sixteen bits these are. -/
def ofGroups (groups : List Nat) : IpAddress :=
  v6 (BitVec.ofNat 128 (groups.foldl (fun n group => n * 2 ^ 16 + group) 0))

/-- A number below 256 in at most three digits, with no zero before another digit. -/
def octet? (ds : List Char) : Option Nat :=
  if 3 < ds.length ∨ (1 < ds.length ∧ ds.head? = some '0') then none
  else (Numeral.natOfDigits? ds).filter (· < 256)

/-- Four numbers with dots between them. -/
def octets? (cs : List Char) : Option (List Nat) := do
  let octets ← (cs.splitOn '.').mapM octet?
  if octets.length = 4 then some octets else none

/-- One to four hexadecimal digits. -/
def group? (ds : List Char) : Option Nat :=
  if ds = [] ∨ 4 < ds.length then none
  else (ds.mapM Json.hexValue?).map fun vs => vs.foldl (fun n v => n * 16 + v) 0

/-- The two groups that an address of the short form fills. -/
def groupsOfOctets : List Nat → List Nat
  | [a, b, c, d] => [a * 256 + b, c * 256 + d]
  | _ => []

/-- Groups with colons between them; the last may be an address of the short
form where that is allowed. -/
def groups? (shortAtEnd : Bool) (cs : List Char) : Option (List Nat) :=
  if cs = [] then some []
  else
    let parts := cs.splitOn ':'
    match parts.getLast?.bind octets? with
    | some octets =>
      if shortAtEnd then (parts.dropLast.mapM group?).map (· ++ groupsOfOctets octets) else none
    | none => parts.mapM group?

/-- The parts before and after the first `::`. -/
def splitGap? : List Char → Option (List Char × List Char)
  | ':' :: ':' :: cs => some ([], cs)
  | c :: cs => (splitGap? cs).map fun (a, b) => (c :: a, b)
  | [] => none

def v6OfChars? (cs : List Char) : Option IpAddress :=
  match splitGap? cs with
  | some (front, back) => do
    let front ← groups? false front
    let back ← groups? true back
    if front.length + back.length ≤ 7 then
      some (ofGroups (front ++ List.replicate (8 - front.length - back.length) 0 ++ back))
    else none
  | none => do
    let groups ← groups? true cs
    if groups.length = 8 then some (ofGroups groups) else none

def ofChars? (cs : List Char) : Option IpAddress :=
  match octets? cs with
  | some octets => some (ofOctets octets)
  | none => v6OfChars? cs

def ofText? (s : String) : Option IpAddress := ofChars? s.toList

end IpAddress

end RenderGateway
