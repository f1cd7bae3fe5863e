import RenderGateway.Http.Address
import RenderGateway.Http.Message

/-!
# Rate limits

Each client may make a number of requests at once, and as many a second in the
long run. For each client one point in time is kept: the one at which all of its
quota would be there again, and one request more. Times are in nanoseconds.
-/

namespace RenderGateway

structure RateLimit where
  /-- Requests a second, one at least. -/
  quota : Nat
  /-- The clients that have been seen, with their points in time. -/
  clients : List (IpAddress × Nat)
deriving Repr

namespace RateLimit

def perSecond (quota : UInt32) : RateLimit := ⟨max quota.toNat 1, []⟩

/-- The time in which one request of the quota comes back. -/
def interval (l : RateLimit) : Nat := 1000000000 / l.quota

def maxTracked : Nat := 10000

/-- Forgets the clients that are as if they had not been seen. -/
def forgetIdle (l : RateLimit) (now : Nat) : RateLimit :=
  { l with clients := l.clients.filter fun client => now + l.interval < client.2 }

/-- Spends one request of a client's quota, if there is one. -/
def spend (l : RateLimit) (client : IpAddress) (now : Nat) : Bool × RateLimit :=
  let l := if maxTracked ≤ l.clients.length then l.forgetIdle now else l
  let due := (List.lookup client l.clients).getD (now + l.interval)
  if now + l.quota * l.interval < due then (false, l)
  else
    let others := l.clients.filter fun other => other.1 ≠ client
    (true, { l with clients := others ++ [(client, max due now + l.interval)] })

def tracked (l : RateLimit) : Nat := l.clients.length

/-- The client that a request comes from: the first hop of the forwarding header,
else the address that a proxy names. -/
def clientOf? (hs : Headers) : Option IpAddress :=
  let forwarded := (hs.text? "x-forwarded-for").bind fun value =>
    IpAddress.ofText? (Text.trim (String.ofList (value.toList.takeWhile (· ≠ ','))))
  forwarded.or ((hs.text? "x-real-ip").bind fun value => IpAddress.ofText? (Text.trim value))

end RateLimit

end RenderGateway
