import RenderGateway.Job.Wire

/-!
# Records of failures

What is written down about every failure in the work on a job: the stage, the
fault, the attempt, and whether the work was tried again or given up. The log
holds one record a line and only grows.
-/

namespace RenderGateway

open Json Json.Decoder

/-- A part of the work on a job. -/
inductive Stage
  | validation
  | plan
  | auth
  | fetch
  | encode
  | store
deriving DecidableEq, Repr

namespace Stage

def all : List Stage := [validation, plan, auth, fetch, encode, store]

def name : Stage → String
  | validation => "validation"
  | plan => "plan"
  | auth => "auth"
  | fetch => "fetch"
  | encode => "encode"
  | store => "store"

def ofName? (s : String) : Option Stage := all.find? fun stage => stage.name = s

/-- The category of a failure in a stage that names none of its own. -/
def code : Stage → FaultCode
  | validation => .input
  | plan => .plan
  | auth => .auth
  | fetch => .network
  | encode => .ffmpeg
  | store => .storage

def toJson (s : Stage) : Json := .text s.name

def decoder : Decoder Stage := Json.Decoder.name ofName?

end Stage

/-- What is done about a failure; a delay is in milliseconds. -/
inductive Recovery
  | retry (delay : UInt64)
  | abort
deriving DecidableEq, Repr

namespace Recovery

def name : Recovery → String
  | retry _ => "retry"
  | abort => "abort"

def delay? : Recovery → Option UInt64
  | retry delay => some delay
  | abort => none

/-- The recovery of a name and the delay beside it. -/
def ofName? (name : String) (delay : Option UInt64) : Option Recovery :=
  if name = "retry" then delay.map retry else if name = "abort" then some abort else none

end Recovery

structure FailureRecord where
  id : String
  jobId : String
  projectId : Option String
  stage : Stage
  fault : Fault
  attempt : UInt32
  recovery : Recovery
  recordedAt : Instant
deriving Repr

namespace FailureRecord

def fieldNames : List String :=
  ["id", "jobId", "projectId", "stage", "code", "message", "details", "attempt", "decision",
   "retryDelayMs", "recordedAt"]

def toJson (r : FailureRecord) : Json := .object <|
  [("id", .text r.id), ("jobId", .text r.jobId)] ++
  optionalField "projectId" .text r.projectId ++
  [("stage", r.stage.toJson), ("code", r.fault.code.toJson), ("message", .text r.fault.message)] ++
  optionalField "details" (fun details => details) r.fault.details ++
  [("attempt", ofUInt32 r.attempt), ("decision", .text r.recovery.name)] ++
  optionalField "retryDelayMs" ofUInt64 r.recovery.delay? ++
  [("recordedAt", r.recordedAt.toJson)]

def decoder : Decoder FailureRecord :=
  record fieldNames fun r => do
    let id ← r.required "id" string
    let jobId ← r.required "jobId" string
    let projectId ← r.optional "projectId" string
    let stage ← r.required "stage" Stage.decoder
    let code ← r.required "code" FaultCode.decoder
    let message ← r.required "message" string
    let details ← r.optional "details" any
    let attempt ← r.required "attempt" uint32
    let name ← r.required "decision" string
    let delay ← r.optional "retryDelayMs" uint64
    let recovery ← Recovery.ofName? name delay
    let recordedAt ← r.required "recordedAt" Instant.decoder
    return { id, jobId, projectId, stage, fault := ⟨code, message, details⟩, attempt, recovery,
             recordedAt }

end FailureRecord

end RenderGateway
