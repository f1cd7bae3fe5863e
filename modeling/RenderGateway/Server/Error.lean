import RenderGateway.Http.Message
import RenderGateway.Queue.Basic
import RenderGateway.Refusal
import RenderGateway.Store.Basic

/-!
# Errors of the server

Why a request is turned down, and the response that says so. In production the
gateway keeps the wording of its own faults to itself.
-/

namespace RenderGateway

inductive ServerError
  | badRequest (text : String)
  | notFound (text : String)
  | tooLarge (text : String)
  | rateLimited
  | internal (text : String)
  | refused (refusal : Refusal)
  | queue (error : QueueError)
  | storage (error : StorageError)
deriving DecidableEq, Repr

namespace ServerError

def message : ServerError → String
  | badRequest text | notFound text | tooLarge text | internal text => text
  | rateLimited => "Rate limit exceeded. Please try again later."
  | refused r => r.message
  | queue e => e.message
  | storage e => e.message

def fault : ServerError → Fault
  | badRequest text | tooLarge text => .ofMessage .input text
  | notFound text => .ofMessage .notFound text
  | rateLimited => .ofMessage .http rateLimited.message
  | internal text => .ofMessage .internal text
  | refused r => r.fault
  | queue e => e.fault
  | storage e => e.fault

def status : ServerError → HttpStatus
  | tooLarge _ => .payloadTooLarge
  | rateLimited => .tooManyRequests
  | e => e.fault.code.status

/-- A fault as it is shown to callers. -/
def shown (production : Bool) (f : Fault) : Fault :=
  if production ∧ f.code = .internal then .ofMessage .internal "An internal error occurred" else f

def response (production : Bool) (e : ServerError) : Response :=
  let fault := if e.status.isServerError then shown production e.fault else e.fault
  .ofFault e.status fault

end ServerError

end RenderGateway
