import RenderGateway.Engine
import RenderGateway.Fault
import RenderGateway.Refusal
import RenderGateway.Time.Instant

/-!
# Jobs

The record of one render request. Every change goes through an operation that
checks the status, so a terminal record is never changed. Progress never goes
back and reaches 100 only with the end of the job.
-/

namespace RenderGateway

/-- What a job hands back when nothing rendered its plan. -/
structure JobArtifacts where
  engine : Engine
  fallbackChain : List Rejection
  command : String
  args : List String
  plan : Plan
deriving DecidableEq, Repr

/-- A rendered file. -/
structure RenderOutput where
  url : String
  size : UInt64
  duration : UInt64
deriving DecidableEq, Repr

structure Job where
  id : String
  planId : String
  projectId : Option String
  status : JobStatus
  queuePosition : UInt64
  progress : UInt8
  logsTail : List String
  engine : Option Engine
  fallbackChain : List Rejection
  outputUrl : Option String
  outputSize : Option UInt64
  duration : Option UInt64
  error : Option Fault
  artifacts : Option JobArtifacts
  createdAt : Instant
  startedAt : Option Instant
  completedAt : Option Instant
deriving Repr

namespace Job

/-- A queued job for a plan. -/
def queued (id : String) (plan : Plan) (position : UInt64) (now : Instant) : Job where
  id := id
  planId := plan.id
  projectId := plan.projectId
  status := .queued
  queuePosition := position
  progress := 0
  logsTail := []
  engine := none
  fallbackChain := []
  outputUrl := none
  outputSize := none
  duration := none
  error := none
  artifacts := none
  createdAt := now
  startedAt := none
  completedAt := none

def isTerminal (j : Job) : Bool := j.status.isTerminal

/-- Moves to another status, if the life of a job allows it. -/
def become (j : Job) (status : JobStatus) : Except Refusal Job :=
  if j.status.canBecome status then .ok { j with status }
  else .error (.transition j.status status)

def whileRunning (j : Job) (change : Job → Job) : Except Refusal Job :=
  if j.status = .running then .ok (change j) else .error (.transition j.status .running)

def start (j : Job) (now : Instant) : Except Refusal Job := do
  let j ← j.become .running
  return { j with queuePosition := 0, startedAt := some now }

def setRoute (j : Job) (d : Routing) : Except Refusal Job :=
  j.whileRunning fun j => { j with engine := some d.selected, fallbackChain := d.fallbackChain }

def setProgress (j : Job) (percent : UInt8) : Except Refusal Job :=
  j.whileRunning fun j => { j with progress := max j.progress (min percent 99) }

/-- The last `n` elements of a list. -/
def lastOf (n : Nat) (as : List α) : List α := as.drop (as.length - n)

/-- Appends log lines and keeps the last ones. -/
def pushLogs (j : Job) (lines : List String) (keep : Nat) : Except Refusal Job :=
  j.whileRunning fun j => { j with logsTail := lastOf keep (j.logsTail ++ lines) }

def complete (j : Job) (output : RenderOutput) (now : Instant) : Except Refusal Job := do
  let j ← j.become .done
  return { j with
    progress := 100
    outputUrl := some output.url
    outputSize := some output.size
    duration := some output.duration
    completedAt := some now }

def fail (j : Job) (fault : Fault) (now : Instant) : Except Refusal Job := do
  let j ← j.become .error
  return { j with queuePosition := 0, error := some fault, completedAt := some now }

/-- Ends without a file, with the artifacts of the plan. -/
def settle (j : Job) (artifacts : JobArtifacts) (now : Instant) : Except Refusal Job := do
  let j ← j.become .partialSuccess
  return { j with
    progress := 100
    engine := some artifacts.engine
    fallbackChain := artifacts.fallbackChain
    artifacts := some artifacts
    completedAt := some now }

end Job

end RenderGateway
