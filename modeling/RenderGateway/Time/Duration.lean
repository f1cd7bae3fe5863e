import RenderGateway.Number.Arithmetic

/-!
# Durations

Lengths of time in nanoseconds, below `2 ^ 64` seconds.
-/

namespace RenderGateway

structure Duration where
  nanoseconds : Nat
deriving DecidableEq, Repr

namespace Duration

def perSecond : Nat := 1000000000

def ofMilliseconds (ms : Nat) : Duration := ⟨ms * 1000000⟩

def seconds (d : Duration) : Nat := d.nanoseconds / perSecond

def subsecond (d : Duration) : Nat := d.nanoseconds % perSecond

def milliseconds (d : Duration) : Nat := d.nanoseconds / 1000000

instance : LE Duration := ⟨fun a b => a.nanoseconds ≤ b.nanoseconds⟩

instance (a b : Duration) : Decidable (a ≤ b) :=
  inferInstanceAs (Decidable (a.nanoseconds ≤ b.nanoseconds))

instance : Max Duration := ⟨fun a b => ⟨max a.nanoseconds b.nanoseconds⟩⟩

instance : Min Duration := ⟨fun a b => ⟨min a.nanoseconds b.nanoseconds⟩⟩

/-- A number of seconds to the nearest nanosecond, a half going to the even one;
none for a negative number, for one too large and for what is no number. -/
def ofSeconds? : Binary64 → Option Duration
  | .finite x =>
    if x.negative && x.significand ≠ 0 then none
    else if x.magnitude < (2 ^ 64 : Nat) then
      let q := x.magnitude * perSecond
      some ⟨Binary64.roundHalfEven q.num.natAbs q.den⟩
    else none
  | _ => none

end Duration

end RenderGateway
