import RenderGateway.Number.Decimal
import RenderGateway.Number.Numeral

/-!
# Settings from the environment

Variables are texts by name. A variable that is unset, or does not read as what
it stands for, leaves the setting at its default.
-/

namespace RenderGateway

abbrev Environment := List (String × String)

namespace Environment

def get? (e : Environment) (name : String) : Option String := List.lookup name e

def text (e : Environment) (name default : String) : String := (e.get? name).getD default

/-- A natural number below a bound. -/
def natBelow? (e : Environment) (bound : Nat) (name : String) : Option Nat :=
  (e.get? name).bind (Numeral.natBelow? bound)

def uint16? (e : Environment) (name : String) : Option UInt16 :=
  (e.natBelow? (2 ^ 16) name).map UInt16.ofNat

def uint32? (e : Environment) (name : String) : Option UInt32 :=
  (e.natBelow? (2 ^ 32) name).map UInt32.ofNat

def uint64? (e : Environment) (name : String) : Option UInt64 :=
  (e.natBelow? (2 ^ 64) name).map UInt64.ofNat

def binary64? (e : Environment) (name : String) : Option Binary64 :=
  (e.get? name).bind Binary64.ofText?

/-- Where short-lived files go. -/
def temporaryDirectory (e : Environment) : String := e.text "TMPDIR" "/tmp"

end Environment

end RenderGateway
