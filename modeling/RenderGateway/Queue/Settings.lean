import RenderGateway.Settings.Environment

/-!
# Settings of the queue
-/

namespace RenderGateway

structure QueueSettings where
  /-- How many commands wait for the owner of the queue at most. -/
  capacity : UInt64
  /-- How many finished jobs stay known. -/
  retained : UInt64
deriving DecidableEq, Repr

namespace QueueSettings

def default : QueueSettings := ⟨256, 1000⟩

def ofEnvironment (e : Environment) : QueueSettings where
  capacity := ((e.uint64? "QUEUE_CAPACITY").filter (0 < ·)).getD default.capacity
  retained := (e.uint64? "MAX_RETAINED_JOBS").getD default.retained

end QueueSettings

end RenderGateway
