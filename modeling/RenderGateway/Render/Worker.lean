import RenderGateway.Render.Work

/-!
# The worker

One worker takes jobs from the queue, one at a time, and ends each with one
outcome. It goes on until no job is pending or it is told to stop.
-/

namespace RenderGateway

/-- The queue and the traces of the work so far. -/
structure Shift where
  queue : Queue
  traces : Traces

/-- How an attempt to take a job ended. -/
inductive Turn
  /-- No job was pending. -/
  | idle
  | refused (error : QueueError)
  /-- The worker crashed and the job is still running. -/
  | crashed
  | finished (result : Except QueueError Job)

namespace Workshop

/-- The number under which the worker asks for jobs. -/
def workerNumber : Nat := 0

/-- Does the work on a claimed job and tells the queue about it. -/
def finish (w : Workshop) (claimed : ClaimedJob) (q : Queue) (traces : Traces) : Turn × Shift :=
  let (outcome, s) := w.process claimed traces
  let q := s.updates.foldl (fun q u => q.update claimed.job.id u) q
  match outcome with
  | none => (.crashed, ⟨q, s.traces⟩)
  | some outcome =>
    let (q, notices) := q.step (.finish claimed.job.id outcome) w.now true
    match notices.findSome? Queue.Notice.finished? with
    | some result => (.finished result, ⟨q, s.traces⟩)
    | none => (.crashed, ⟨q, s.traces⟩)

/-- Takes the next job, if there is one, and does the work on it. -/
def turn (w : Workshop) (s : Shift) : Turn × Shift :=
  let (q, notices) := s.queue.step (.claim workerNumber) w.now true
  match notices.findSome? Queue.Notice.answered? with
  | some (_, .ok claimed) => w.finish claimed q s.traces
  | some (_, .error e) => (.refused e, { s with queue := q })
  | none => (.idle, { s with queue := q })

/-- Takes a number of jobs at most, one after the other; none if the worker crashes. -/
def drain (w : Workshop) : Nat → Shift → Option Shift
  | 0, s => some s
  | jobs + 1, s =>
    if s.traces.stopping then some s
    else match w.turn s with
      | (.crashed, _) => none
      | (.finished _, s) => w.drain jobs s
      | (_, s) => some s

/-- Works until no job is pending or the worker is told to stop. -/
def run (w : Workshop) (s : Shift) : Option Shift := w.drain s.queue.pending.length s

end Workshop

end RenderGateway
