import RenderGateway.Http.Status
import RenderGateway.Media
import RenderGateway.Queue.Basic
import RenderGateway.Store.Basic

/-!
# Failures of a render

Everything that can stop the work on a job. A failed download tells whether
another try may help: overload, a timeout and failures of the far end do,
refused credentials and all other answers do not.
-/

namespace RenderGateway

inductive RenderFailure
  | sourceMissing (reference : String)
  | unsupportedSource (reference : String)
  | unauthorized (url : String) (status : UInt16)
  | download (url reason : String) (status : Option UInt16) (transient : Bool)
  | refused (refusal : Refusal)
  | media (failure : MediaFailure)
  | storage (error : StorageError)
  | queue (error : QueueError)
  | system (reason : String)
deriving DecidableEq, Repr

namespace RenderFailure

open Json

/-- Whether an answer with this status may be another one on another try. -/
def isTransientStatus (status : HttpStatus) : Bool :=
  status.isServerError || status.code = 429 || status.code = 408

/-- The failure of a download that was answered with a status. -/
def ofStatus (url : String) (status : HttpStatus) : RenderFailure :=
  let code := UInt16.ofNat status.code
  if status.code = 401 ∨ status.code = 403 then unauthorized url code
  else download url s!"HTTP {status.code}" (some code) (isTransientStatus status)

def isRetryable : RenderFailure → Bool
  | download _ _ _ transient => transient
  | _ => false

def message : RenderFailure → String
  | sourceMissing reference => s!"Source not found: {reference}"
  | unsupportedSource reference => s!"Unsupported source reference: {reference}"
  | unauthorized url status => s!"Source download rejected credentials ({status}): {url}"
  | download _ reason _ _ => s!"Source download failed: {reason}"
  | refused r => r.message
  | media e => e.message
  | storage e => e.message
  | queue e => s!"Queue error: {e.message}"
  | system reason => s!"IO error: {reason}"

def code : RenderFailure → FaultCode
  | sourceMissing _ | unsupportedSource _ => .input
  | unauthorized _ _ => .auth
  | download _ _ _ _ => .network
  | refused r => r.code
  | media e => e.code
  | storage _ | system _ => .storage
  | queue e => e.code

def fault : RenderFailure → Fault
  | refused r => r.fault
  | media e => e.fault
  | storage e => e.fault
  | unauthorized url status =>
    (Fault.ofMessage .auth
      "Source host refused the request; check the URL's credentials").withDetails
      (.object [("status", ofUInt16 status), ("url", .text url)])
  | download url reason status transient =>
    (Fault.ofMessage .network s!"Could not download source: {reason}").withDetails
      (.object [("status", ofOption ofUInt16 status), ("transient", .bool transient),
        ("url", .text url)])
  | e => .ofMessage e.code e.message

instance : Reported RenderFailure := ⟨message, fault⟩

end RenderFailure

end RenderGateway
