/-!
# Integer numerals

Integers written in ASCII digits. A signed numeral may open with either sign, an
unsigned one with a plus at most; both need a digit and nothing else around it.
-/

namespace RenderGateway.Numeral

/-- The digits of a natural number, most significant first. -/
def digits (n : Nat) : List Char := Nat.toDigits 10 n

/-- The number that a list of digits writes. -/
def value (ds : List Char) : Nat := Nat.ofDigitChars 10 ds 0

theorem value_digits (n : Nat) : value (digits n) = n :=
  Nat.ofDigitChars_toDigits (by decide) (by decide)

theorem isDigit_of_mem_digits {n : Nat} {c : Char} (h : c ∈ digits n) : c.isDigit = true :=
  Nat.isDigit_of_mem_toDigits (by decide) (by decide) h

theorem digits_eq (n : Nat) :
    digits n = if n < 10 then [n.digitChar] else digits (n / 10) ++ [(n % 10).digitChar] :=
  Nat.toDigits_eq_if (by decide)

/-- A nonempty run of digits and nothing else. -/
def natOfDigits? (ds : List Char) : Option Nat :=
  if ds ≠ [] ∧ ds.all Char.isDigit then some (value ds) else none

def natOfChars? : List Char → Option Nat
  | '+' :: ds => natOfDigits? ds
  | ds => natOfDigits? ds

def intOfChars? : List Char → Option Int
  | '-' :: ds => (natOfDigits? ds).map fun n => -(n : Int)
  | ds => (natOfChars? ds).map Int.ofNat

def nat? (s : String) : Option Nat := natOfChars? s.toList

def int? (s : String) : Option Int := intOfChars? s.toList

/-- A natural number below `bound`. -/
def natBelow? (bound : Nat) (s : String) : Option Nat := (nat? s).filter (· < bound)

def int64? (s : String) : Option Int64 :=
  (int? s).bind fun n =>
    if Int64.minValue.toInt ≤ n ∧ n ≤ Int64.maxValue.toInt then some (Int64.ofInt n) else none

/-- Digits filled up with zeros on the left. -/
def padded (width n : Nat) : List Char := (digits n).leftpad width '0'

end RenderGateway.Numeral
