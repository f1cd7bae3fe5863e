import RenderGateway.Render.FailureLog

/-!
# Entries of the log of failures

An entry as the log takes it: the decision and the delay before another attempt
stand beside each other, and any of them may come without the other. The records
of the work on jobs are among the entries.
-/

namespace RenderGateway

open Json Json.Decoder

inductive Decision
  | retry
  | abort
deriving DecidableEq, Repr

namespace Decision

def all : List Decision := [retry, abort]

def name : Decision → String
  | retry => "retry"
  | abort => "abort"

def ofName? (s : String) : Option Decision := all.find? fun decision => decision.name = s

def toJson (d : Decision) : Json := .text d.name

def decoder : Decoder Decision := Json.Decoder.name ofName?

end Decision

structure LogEntry where
  id : String
  jobId : String
  projectId : Option String
  stage : Stage
  fault : Fault
  attempt : UInt32
  decision : Decision
  delay : Option UInt64
  recordedAt : Instant
deriving Repr

namespace LogEntry

def toJson (e : LogEntry) : Json := .object <|
  [("id", .text e.id), ("jobId", .text e.jobId)] ++
  optionalField "projectId" .text e.projectId ++
  [("stage", e.stage.toJson), ("code", e.fault.code.toJson), ("message", .text e.fault.message)] ++
  optionalField "details" (fun details => details) e.fault.details ++
  [("attempt", ofUInt32 e.attempt), ("decision", e.decision.toJson)] ++
  optionalField "retryDelayMs" ofUInt64 e.delay ++
  [("recordedAt", e.recordedAt.toJson)]

def decoder : Decoder LogEntry :=
  record FailureRecord.fieldNames fun r => do
    let id ← r.required "id" string
    let jobId ← r.required "jobId" string
    let projectId ← r.optional "projectId" string
    let stage ← r.required "stage" Stage.decoder
    let code ← r.required "code" FaultCode.decoder
    let message ← r.required "message" string
    let details ← r.optional "details" any
    let attempt ← r.required "attempt" uint32
    let decision ← r.required "decision" Decision.decoder
    let delay ← r.optional "retryDelayMs" uint64
    let recordedAt ← r.required "recordedAt" Instant.decoder
    return { id, jobId, projectId, stage, fault := ⟨code, message, details⟩, attempt, decision,
             delay, recordedAt }

/-- The line of an entry, without its end. -/
def line (e : LogEntry) : String := e.toJson.write

def append (log : String) (e : LogEntry) : String := log ++ (e.line ++ "\n")

/-- The entry that a line holds. -/
def ofLine? (line : String) : Option LogEntry := (Json.read? line).bind (decoder .refused)

end LogEntry

namespace FailureRecord

/-- A record as an entry of the log. -/
def entry (r : FailureRecord) : LogEntry where
  id := r.id
  jobId := r.jobId
  projectId := r.projectId
  stage := r.stage
  fault := r.fault
  attempt := r.attempt
  decision := match r.recovery with
    | .retry _ => .retry
    | .abort => .abort
  delay := r.recovery.delay?
  recordedAt := r.recordedAt

theorem toJson_entry (r : FailureRecord) : r.entry.toJson = r.toJson := by
  obtain ⟨id, jobId, projectId, stage, fault, attempt, recovery, recordedAt⟩ := r
  cases recovery <;> rfl

end FailureRecord

theorem LogEntry.append_entry (log : String) (r : FailureRecord) :
    append log r.entry = FailureLog.append log r := by
  rw [append, line, r.toJson_entry, FailureLog.append, FailureLog.line]

end RenderGateway
