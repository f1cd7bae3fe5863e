import RenderGateway.Render.Failure
import RenderGateway.Render.Record
import RenderGateway.Render.Retry

/-!
# What is done about a failure

Every failure gets a category and a stage, a decision and a record. A failure
with no category of its own takes that of its stage; refused credentials belong
to the stage `auth` wherever they occur. Only a failed download is tried again.
-/

namespace RenderGateway

/-- Where in the work on a job a failure happened; attempts count from 1. -/
structure FailureContext where
  jobId : String
  projectId : Option String
  stage : Stage
  attempt : UInt32
deriving Repr

namespace RenderFailure

/-- The fault of a failure in a stage, and the stage that it is put down to. -/
def classify (e : RenderFailure) (stage : Stage) : Fault × Stage :=
  let fault := e.fault
  let fault := if fault.code = .internal then { fault with code := stage.code } else fault
  (fault, if fault.code = .auth then .auth else stage)

def recovery (e : RenderFailure) (policy : RetryPolicy) (code : FaultCode) (attempt : UInt32) :
    Recovery :=
  if code.isTransient && e.isRetryable then
    (policy.backoff attempt).elim .abort .retry
  else .abort

/-- The record of a failure, with the decision on it. -/
def handle (e : RenderFailure) (policy : RetryPolicy) (context : FailureContext) (id : String)
    (now : Instant) : FailureRecord :=
  let (fault, stage) := e.classify context.stage
  { id
    jobId := context.jobId
    projectId := context.projectId
    stage
    fault
    attempt := context.attempt
    recovery := e.recovery policy fault.code context.attempt
    recordedAt := now }

end RenderFailure

end RenderGateway
