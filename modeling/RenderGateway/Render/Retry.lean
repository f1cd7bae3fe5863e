import RenderGateway.Number.Word

/-!
# Retries

How often a failed download is tried again and how long each wait is: the delay
doubles from one failure to the next and never exceeds its limit.
-/

namespace RenderGateway

/-- Delays are in milliseconds. -/
structure RetryPolicy where
  maxRetries : UInt32
  baseDelay : UInt64
  maxDelay : UInt64
deriving DecidableEq, Repr

namespace RetryPolicy

/-- The number of times that a delay doubles at most. -/
def maxDoublings : Nat := 16

def delayAfter (p : RetryPolicy) (attempt : Nat) : Nat :=
  min (p.baseDelay.toNat * 2 ^ min (attempt - 1) maxDoublings) p.maxDelay.toNat

/-- The wait after the given failed attempt, counted from 1, if it is to be
followed by another. -/
def backoff (p : RetryPolicy) (attempt : UInt32) : Option UInt64 :=
  if attempt = 0 ∨ p.maxRetries < attempt then none
  else some (Word.ofNat (p.delayAfter attempt.toNat))

end RetryPolicy

end RenderGateway
