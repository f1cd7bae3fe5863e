import RenderGateway.Probe
import RenderGateway.Render.Worker
import RenderGateway.Server.CrossOrigin
import RenderGateway.Server.Metrics
import RenderGateway.Server.RateLimit
import RenderGateway.Server.Settings
import RenderGateway.Store.Settings

/-!
# The gateway

Everything that requests read and change: the queue, the stores, the quota of
clients and the metrics. A queue that has stopped refuses commands; what it
published last can still be read.
-/

namespace RenderGateway

/-- What the outside adds to an event: the time, fresh ids, and what the prober
would tell. -/
structure Moment where
  now : Instant
  /-- A steady clock in nanoseconds, for rate limits. -/
  clock : Nat
  /-- Fresh ids, one for each number. -/
  freshId : Nat → String
  requestId : String
  prober : Option ToolRun
  /-- Whether there is a file at a place outside the stores. -/
  fileExists : String → Bool
  /-- Seconds since the start. -/
  uptime : UInt64

structure Gateway where
  settings : ServerSettings
  stores : StorageSettings
  encoder : EncoderInfo
  /-- Whether metrics are served. -/
  servesMetrics : Bool
  uploads : Shelf
  outputs : Shelf
  queue : Queue
  queueStopped : Bool
  quota : RateLimit
  metrics : Metrics

namespace Gateway

/-- A gateway that has not answered anything yet. -/
def start (settings : ServerSettings) (stores : StorageSettings) (encoder : EncoderInfo)
    (servesMetrics : Bool) (uploads outputs : Shelf) (retained : Nat) : Gateway where
  settings := settings
  stores := stores
  encoder := encoder
  servesMetrics := servesMetrics
  uploads := uploads
  outputs := outputs
  queue := .empty retained
  queueStopped := false
  quota := .perSecond settings.rateLimit
  metrics := []

/-- Whether a place on disk is that of a stored file. -/
def hasFileAt (g : Gateway) (place : String) : Bool :=
  (g.stores.shelves g.uploads g.outputs).any fun (store, shelf) =>
    shelf.files.any fun (name, _) => store.place name = place

def record (g : Gateway) (ms : List Measure) : Gateway := { g with metrics := g.metrics.record ms }

/-- What is recorded for the notices of a step of the queue. -/
def measuresOf (notices : List Queue.Notice) : List Measure :=
  notices.flatMap fun n =>
    match n with
    | .queued _ => Measure.ofEnqueue
    | .finished (.ok j) => Measure.ofFinish j.status
    | _ => []

/-- A step of the queue, unless it has stopped. -/
def command (g : Gateway) (c : Queue.Command) (now : Instant) :
    Except QueueError (List Queue.Notice × Gateway) :=
  if g.queueStopped then .error .stopped
  else
    let (queue, notices) := g.queue.step c now true
    let g := { g with queue }
    .ok (notices, g.record (measuresOf notices ++ Measure.ofQueueLength queue.pending.length))

def submit (g : Gateway) (s : Submission) (now : Instant) : Except QueueError (Job × Gateway) := do
  let (notices, g) ← g.command (.enqueue s) now
  match notices.findSome? Queue.Notice.queued? with
  | some j => return (j, g)
  | none => throw .stopped

/-- The owner of the queue goes away. -/
def stopQueue (g : Gateway) : Gateway := { g with queueStopped := true }

/-- Lets a worker take the next job. -/
def work (g : Gateway) (w : Workshop) : Turn × Gateway :=
  if g.queueStopped then (.refused .stopped, g)
  else
    let (turn, shift) := w.turn ⟨g.queue, ⟨[], [], g.outputs, false⟩⟩
    let ended := match turn with
      | .finished (.ok j) => Measure.ofFinish j.status
      | _ => []
    let g := { g with queue := shift.queue, outputs := shift.traces.shelf }
    (turn, g.record (shift.traces.records.flatMap Measure.ofFailure ++ ended ++
      Measure.ofQueueLength shift.queue.pending.length))

end Gateway

end RenderGateway
