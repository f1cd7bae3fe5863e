import RenderGateway.Json.Decoder

/-!
# Faults

The error that callers see: a category, a message for people, and details for
programs. Output of the encoder only ever stands in the details.
-/

namespace RenderGateway

inductive FaultCode
  | input
  | plan
  | network
  | ffmpeg
  | storage
  | auth
  | http
  | invalidContentType
  | invalidJson
  | notFound
  | internal
deriving DecidableEq, Repr

namespace FaultCode

def all : List FaultCode :=
  [input, plan, network, ffmpeg, storage, auth, http, invalidContentType, invalidJson, notFound,
   internal]

def name : FaultCode → String
  | input => "INPUT_ERROR"
  | plan => "PLAN_ERROR"
  | network => "NETWORK_ERROR"
  | ffmpeg => "FFMPEG_ERROR"
  | storage => "STORAGE_ERROR"
  | auth => "AUTH_ERROR"
  | http => "HTTP_ERROR"
  | invalidContentType => "INVALID_CONTENT_TYPE"
  | invalidJson => "INVALID_JSON"
  | notFound => "NOT_FOUND"
  | internal => "INTERNAL_ERROR"

def ofName? (s : String) : Option FaultCode := all.find? fun c => c.name = s

/-- Only a failed transport may succeed on another try. -/
def isTransient (c : FaultCode) : Bool := c = network

def toJson (c : FaultCode) : Json := .text c.name

def decoder : Json.Decoder FaultCode := Json.Decoder.name ofName?

end FaultCode

structure Fault where
  code : FaultCode
  message : String
  details : Option Json
deriving Repr

namespace Fault

open Json Json.Decoder

def ofMessage (code : FaultCode) (message : String) : Fault := ⟨code, message, none⟩

def withDetails (f : Fault) (details : Json) : Fault := { f with details := some details }

def text (f : Fault) : String := s!"{f.code.name}: {f.message}"

def toJson (f : Fault) : Json := .object <|
  [("code", f.code.toJson), ("message", .text f.message)] ++
  optionalField "details" id f.details

def decoder : Decoder Fault :=
  record ["code", "message", "details"] fun r => do
    let code ← r.required "code" FaultCode.decoder
    let message ← r.required "message" string
    let details ← r.optional "details" any
    return { code, message, details }

end Fault

/-- Errors that have a wording and are reported as faults. -/
class Reported (ε : Type) where
  message : ε → String
  fault : ε → Fault

end RenderGateway
