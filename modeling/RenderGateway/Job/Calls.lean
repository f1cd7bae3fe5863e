import RenderGateway.Queue.Basic

/-!
# The calls on a job, step by step

A record that is changed in place. A call looks at the status and then sets one field after the
other; what is set before a step that fails stays set.
-/

namespace RenderGateway

abbrev OnJob := ExceptT Refusal (StateM Job)

/-- A call on the record of a job, with the time at which it is made. -/
inductive JobCall
  | start (now : Instant)
  | update (change : JobUpdate)
  | finish (outcome : JobOutcome) (now : Instant)

namespace OnJob

def become (status : JobStatus) : OnJob Unit := do
  let source := (← get).status
  if !source.canBecome status then throw (.transition source status)
  modify fun j => { j with status }

def ensureRunning : OnJob Unit := do
  let source := (← get).status
  if source ≠ .running then throw (.transition source .running)

def start (now : Instant) : OnJob Unit := do
  become .running
  modify fun j => { j with queuePosition := 0 }
  modify fun j => { j with startedAt := some now }

def setRoute (d : Routing) : OnJob Unit := do
  ensureRunning
  modify fun j => { j with engine := some d.selected }
  modify fun j => { j with fallbackChain := d.fallbackChain }

def setProgress (percent : UInt8) : OnJob Unit := do
  ensureRunning
  modify fun j => { j with progress := max j.progress (min percent 99) }

def pushLogs (lines : List String) (keep : Nat) : OnJob Unit := do
  ensureRunning
  modify fun j => { j with logsTail := j.logsTail ++ lines }
  let size := (← get).logsTail.length
  if keep < size then modify fun j => { j with logsTail := j.logsTail.drop (size - keep) }

def complete (output : RenderOutput) (now : Instant) : OnJob Unit := do
  become .done
  modify fun j => { j with progress := 100 }
  modify fun j => { j with outputUrl := some output.url }
  modify fun j => { j with outputSize := some output.size }
  modify fun j => { j with duration := some output.duration }
  modify fun j => { j with completedAt := some now }

def fail (fault : Fault) (now : Instant) : OnJob Unit := do
  become .error
  modify fun j => { j with queuePosition := 0 }
  modify fun j => { j with error := some fault }
  modify fun j => { j with completedAt := some now }

def settle (artifacts : JobArtifacts) (now : Instant) : OnJob Unit := do
  become .partialSuccess
  modify fun j => { j with progress := 100 }
  modify fun j => { j with engine := some artifacts.engine }
  modify fun j => { j with fallbackChain := artifacts.fallbackChain }
  modify fun j => { j with artifacts := some artifacts }
  modify fun j => { j with completedAt := some now }

def perform : JobCall → OnJob Unit
  | .start now => start now
  | .update (.route d) => setRoute d
  | .update (.progress percent) => setProgress percent
  | .update (.logs lines keep) => pushLogs lines keep
  | .finish (.rendered output) now => complete output now
  | .finish (.failed fault) now => fail fault now
  | .finish (.settled artifacts) now => settle artifacts now

end OnJob

namespace Job

/-- What a call makes of a record, or why it is refused. -/
def call (j : Job) : JobCall → Except Refusal Job
  | .start now => j.start now
  | .update change => j.apply change
  | .finish outcome now => j.finish outcome now

/-- What a sequence of calls makes of a record, whether or not they are refused. -/
def after (j : Job) (calls : List JobCall) : Job :=
  calls.foldl (fun k c => ((OnJob.perform c).run k).2) j

end Job

end RenderGateway
