import RenderGateway.Fault
import RenderGateway.Http.Status
import RenderGateway.Text.Quoted
import RenderGateway.Time.Duration

/-!
# Errors of the client

Why a call of the gateway brought no result. Failed transports and an overloaded
gateway are worth another try.
-/

namespace RenderGateway

inductive ClientError
  /-- The answer is not JSON; a part of it is kept to show what came instead. -/
  | notJson (status : UInt16) (contentType excerpt : String)
  | invalidJson (status : UInt16) (reason : String)
  /-- The gateway reports a fault. -/
  | reported (status : UInt16) (fault : Fault)
  /-- The transport failed, or an error came without a report. -/
  | http (status : Option UInt16) (reason : String)
  | unfinished (jobId : String) (waited : Duration)
  | unreadableFile (reason : String)

namespace ClientError

/-- How many characters of an answer are kept. -/
def excerptLength : Nat := 200

/-- The first characters of a text on one line, without blanks around them. -/
def excerpt (s : String) : String :=
  String.ofList (Text.trimChars ((s.toList.take excerptLength).map fun c =>
    if Text.isControl c then ' ' else c))

def message : ClientError → String
  | notJson status contentType excerpt =>
    s!"Expected application/json but got {Text.quoted contentType} (HTTP {status}): {excerpt}"
  | invalidJson status reason => s!"Malformed JSON response (HTTP {status}): {reason}"
  | reported status fault => s!"Gateway error (HTTP {status}): {fault.text}"
  | http (some status) reason => s!"HTTP error {status}: {reason}"
  | http none reason => s!"HTTP error: {reason}"
  | unfinished jobId waited => s!"Job {jobId} did not finish within {waited.milliseconds}ms"
  | unreadableFile reason => s!"IO error: {reason}"

def code : ClientError → FaultCode
  | notJson _ _ _ => .invalidContentType
  | invalidJson _ _ => .invalidJson
  | reported _ fault => fault.code
  | http _ _ | unfinished _ _ => .http
  | unreadableFile _ => .input

def fault : ClientError → Fault
  | reported _ fault => fault
  | e => .ofMessage e.code e.message

/-- The status of the answer, if there was one. -/
def status? : ClientError → Option UInt16
  | notJson status _ _ | invalidJson status _ | reported status _ => some status
  | http status _ => status
  | _ => none

def isOverload (status : UInt16) : Bool :=
  status = 429 || status = 502 || status = 503 || status = 504

def isRetryable : ClientError → Bool
  | http none _ => true
  | http (some status) _ | reported status _ => isOverload status
  | _ => false

end ClientError

end RenderGateway
