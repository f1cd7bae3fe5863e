import RenderGateway.Job.Basic
import RenderGateway.Number.Word
import RenderGateway.Queue.Table

/-!
# The job queue

One owner holds the table of jobs and the line of those that wait. Everything
that happens to it is one step, which yields the state after it and notices to
those concerned. A worker that asks for a job while there is none waits in one
place; a worker that has gone away leaves its place as it is until the next
attempt to serve it.
-/

namespace RenderGateway

/-- A plan submitted for rendering. -/
structure Submission where
  id : String
  plan : Plan
  outputName : Option String
deriving DecidableEq, Repr

/-- A job handed to a worker. -/
structure ClaimedJob where
  job : Job
  plan : Plan
  outputName : Option String
deriving Repr

/-- A change that leaves a job running. -/
inductive JobUpdate
  | route (decision : Routing)
  | progress (percent : UInt8)
  | logs (lines : List String) (keep : Nat)
deriving DecidableEq, Repr

/-- How a job ended. -/
inductive JobOutcome
  | rendered (output : RenderOutput)
  | failed (fault : Fault)
  | settled (artifacts : JobArtifacts)
deriving Repr

inductive QueueError
  | stopped
  | jobNotFound (id : String)
  | busy (id : String)
  | refused (refusal : Refusal)
deriving DecidableEq, Repr

namespace QueueError

def message : QueueError → String
  | stopped => "Job queue is not running"
  | jobNotFound id => s!"Job not found: {id}"
  | busy id => s!"A job is already running: {id}"
  | refused r => r.message

def code : QueueError → FaultCode
  | jobNotFound _ => .notFound
  | _ => .internal

def fault (e : QueueError) : Fault := .ofMessage e.code e.message

instance : Reported QueueError := ⟨message, fault⟩

end QueueError

namespace Job

def apply (j : Job) : JobUpdate → Except Refusal Job
  | .route d => j.setRoute d
  | .progress p => j.setProgress p
  | .logs lines keep => j.pushLogs lines keep

def finish (j : Job) (outcome : JobOutcome) (now : Instant) : Except Refusal Job :=
  match outcome with
  | .rendered output => j.complete output now
  | .failed fault => j.fail fault now
  | .settled artifacts => j.settle artifacts now

end Job

/-- A worker in the waiting place, and whether it is still there to be answered. -/
structure Waiting where
  worker : Nat
  present : Bool
deriving DecidableEq, Repr

structure Queue where
  /-- How many finished jobs stay in the table. -/
  retained : Nat
  jobs : Table Job
  /-- The plan and the output name of each pending job. -/
  plans : Table (Plan × Option String)
  pending : List String
  current : Option String
  /-- The finished jobs, the oldest first. -/
  finished : List String
  waiting : Option Waiting
deriving Repr

namespace Queue

/-- What a step tells to those concerned. -/
inductive Notice
  | queued (job : Job)
  | finished (result : Except QueueError Job)
  | answered (worker : Nat) (result : Except QueueError ClaimedJob)

namespace Notice

/-- The job that was put into the queue. -/
def queued? : Notice → Option Job
  | queued j => some j
  | _ => none

def finished? : Notice → Option (Except QueueError Job)
  | finished result => some result
  | _ => none

/-- A worker and the answer to it. -/
def answered? : Notice → Option (Nat × Except QueueError ClaimedJob)
  | answered worker result => some (worker, result)
  | _ => none

end Notice

def empty (retained : Nat) : Queue := ⟨retained, [], [], [], none, [], none⟩

/-- The jobs ahead of a pending one, the running one included. -/
def positionOf (q : Queue) (index : Nat) : UInt64 :=
  Word.ofNat (index + if q.current.isSome then 1 else 0)

/-- Gives every pending job its position. -/
def reposition (q : Queue) : Queue :=
  { q with jobs := q.pending.zipIdx.foldl (fun jobs (id, i) =>
      jobs.modify id fun j => { j with queuePosition := q.positionOf i }) q.jobs }

/-- Drops the oldest finished jobs beyond those retained. -/
def evict (q : Queue) : Queue :=
  let excess := q.finished.length - q.retained
  { q with
    jobs := (q.finished.take excess).foldl Table.erase q.jobs
    finished := q.finished.drop excess }

/-- The first pending job that can start, with the state in which it has left the
line. What cannot start is passed over for good. -/
def takeNext (q : Queue) (now : Instant) : List String → Queue × Option (Submission × Job)
  | [] => ({ q with pending := [] }, none)
  | id :: rest =>
    let plans := q.plans.erase id
    match q.jobs.find? id, q.plans.find? id with
    | some job, some (plan, outputName) =>
      match job.start now with
      | .ok started => ({ q with plans, pending := rest }, some (⟨id, plan, outputName⟩, started))
      | .error _ => takeNext { q with plans } now rest
    | _, _ => takeNext { q with plans } now rest

/-- The state with a job of the front of the line running. -/
def running (q : Queue) (s : Submission) (started : Job) : Queue :=
  reposition { q with jobs := Table.insert s.id started q.jobs, current := some s.id }

/-- The state with a submission back at the front of the line. -/
def putBack (q : Queue) (s : Submission) (now : Instant) : Queue :=
  reposition { q with
    jobs := Table.insert s.id (Job.queued s.id s.plan 0 now) q.jobs
    plans := Table.insert s.id (s.plan, s.outputName) q.plans
    pending := s.id :: q.pending
    current := none }

/-- Serves the waiting worker from the front of the line, if no job is running.
Where the worker vanishes before the answer reaches it, the job goes back. -/
def dispatch (q : Queue) (now : Instant) (reached : Bool) : Queue × List Notice :=
  match q.current, q.waiting with
  | none, some ⟨worker, true⟩ =>
    let (q, next) := { q with waiting := none }.takeNext now q.pending
    match next with
    | none => ({ q with waiting := some ⟨worker, true⟩ }, [])
    | some (s, started) =>
      let served := q.running s started
      if reached then (served, [.answered worker (.ok ⟨started, s.plan, s.outputName⟩)])
      else (served.putBack s now, [])
  | none, some ⟨_, false⟩ => ({ q with waiting := none }, [])
  | _, _ => (q, [])

def enqueue (q : Queue) (s : Submission) (now : Instant) (reached : Bool) : Queue × List Notice :=
  let job := Job.queued s.id s.plan (q.positionOf q.pending.length) now
  let (q, notices) := { q with
    jobs := Table.insert s.id job q.jobs
    plans := Table.insert s.id (s.plan, s.outputName) q.plans
    pending := q.pending ++ [s.id] }.dispatch now reached
  (q, notices ++ [.queued ((q.jobs.find? s.id).getD job)])

/-- A worker asks for a job. While one is running it is sent away; else it takes
the waiting place, and one that waited there is dropped. -/
def claim (q : Queue) (worker : Nat) (now : Instant) (reached : Bool) : Queue × List Notice :=
  match q.current with
  | some id => (q, [.answered worker (.error (.busy id))])
  | none =>
    let dropped := match q.waiting with
      | some ⟨other, true⟩ => [Notice.answered other (.error .stopped)]
      | _ => []
    let (q, notices) := { q with waiting := some ⟨worker, true⟩ }.dispatch now reached
    (q, dropped ++ notices)

/-- A worker that waits goes away; nothing is told to it any more. -/
def leave (q : Queue) (worker : Nat) : Queue :=
  match q.waiting with
  | some w => if w.worker = worker then { q with waiting := some ⟨worker, false⟩ } else q
  | none => q

/-- An update that the job refuses changes nothing. -/
def update (q : Queue) (id : String) (u : JobUpdate) : Queue :=
  { q with jobs := q.jobs.modify id fun j => (j.apply u).toOption.getD j }

def finish (q : Queue) (id : String) (outcome : JobOutcome) (now : Instant) (reached : Bool) :
    Queue × List Notice :=
  match q.jobs.find? id with
  | none => (q, [.finished (.error (.jobNotFound id))])
  | some job =>
    match job.finish outcome now with
    | .error r => (q, [.finished (.error (.refused r))])
    | .ok ended =>
      let wasPending := job.status = .queued
      let q := { q with
        jobs := Table.insert id ended q.jobs
        plans := if wasPending then q.plans.erase id else q.plans
        pending := if wasPending then q.pending.filter (· ≠ id) else q.pending
        current := if q.current = some id then none else q.current
        finished := q.finished ++ [id] }
      let (q, notices) := q.evict.reposition.dispatch now reached
      (q, notices ++ [.finished (.ok ended)])

inductive Command
  | enqueue (submission : Submission)
  | claim (worker : Nat)
  | leave (worker : Nat)
  | update (id : String) (update : JobUpdate)
  | finish (id : String) (outcome : JobOutcome)

/-- One step of the queue. `reached` tells whether a worker that is served in
the step is still there when its answer is sent. -/
def step (q : Queue) (command : Command) (now : Instant) (reached : Bool) : Queue × List Notice :=
  match command with
  | .enqueue s => q.enqueue s now reached
  | .claim worker => q.claim worker now reached
  | .leave worker => (q.leave worker, [])
  | .update id u => (q.update id u, [])
  | .finish id outcome => q.finish id outcome now reached

/-- The queue ends: the waiting worker is told so. -/
def stop (q : Queue) : List Notice :=
  match q.waiting with
  | some ⟨worker, true⟩ => [.answered worker (.error .stopped)]
  | _ => []

end Queue

end RenderGateway
