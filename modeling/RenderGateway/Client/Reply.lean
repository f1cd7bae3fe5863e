import RenderGateway.Client.Error
import RenderGateway.Job.Wire
import RenderGateway.Json.Reader

/-!
# Reading replies

A reply is a result only if it has a status of success, says that it is JSON, is
JSON of the expected shape, and does not report a fault.
-/

namespace RenderGateway

structure Reply where
  status : HttpStatus
  contentType : String
  body : String

namespace Reply

open Json Json.Decoder

def statusCode (r : Reply) : UInt16 := UInt16.ofNat r.status.code

def saysJson (r : Reply) : Bool := Text.hasPrefix "application/json" (Text.lower r.contentType)

/-- The fault that a document reports. -/
def reportedFault? (document : Json) : Option Fault :=
  match document.field? "ok" with
  | some (.bool false) => (document.field? "error").bind (Fault.decoder .lastWins)
  | _ => none

/-- The result in a reply, or what it is instead. -/
def decode (r : Reply) (d : Decoder α) : Except ClientError α :=
  if !r.saysJson then
    .error (.notJson r.statusCode r.contentType (ClientError.excerpt r.body))
  else
    match Json.read? r.body with
    | none => .error (.invalidJson r.statusCode "not a JSON document")
    | some document =>
      match reportedFault? document with
      | some fault => .error (.reported r.statusCode fault)
      | none =>
        if r.status.isSuccess then
          match d .lastWins document with
          | some a => .ok a
          | none => .error (.invalidJson r.statusCode "not of the expected shape")
        else
          .error (.http (some r.statusCode)
            s!"Gateway returned {r.status.text} without an error envelope")

end Reply

/-- The encoder as the gateway reports it. -/
structure EncoderStatus where
  available : Bool
  path : Option String
  version : Option String

/-- What the gateway reports about itself. -/
structure HealthReport where
  ok : Bool
  encoder : EncoderStatus
  outputs : String
  uploads : String
  queueLength : UInt64
  currentJob : Option String
  uptime : UInt64
  time : String

structure UploadedFile where
  id : String
  reference : String
  publicUrl : String
  name : String
  size : UInt64
  mimeType : String

/-- A job that the gateway has accepted. -/
structure AcceptedJob where
  id : String
  status : JobStatus
  queuePosition : UInt64
  statusUrl : String

open Json Json.Decoder

def EncoderStatus.decoder : Decoder EncoderStatus :=
  record ["available", "path", "version"] fun r => do
    let available ← r.required "available" boolean
    let path ← r.optional "path" string
    let version ← r.optional "version" string
    return { available, path, version }

def HealthReport.decoder : Decoder HealthReport :=
  record ["ok", "ffmpeg", "outputsDir", "uploadsDir", "queueLength", "currentJob", "uptime",
    "time"] fun r => do
    let ok ← r.required "ok" boolean
    let encoder ← r.required "ffmpeg" EncoderStatus.decoder
    let outputs ← r.required "outputsDir" string
    let uploads ← r.required "uploadsDir" string
    let queueLength ← r.required "queueLength" uint64
    let currentJob ← r.optional "currentJob" string
    let uptime ← r.required "uptime" uint64
    let time ← r.required "time" string
    return { ok, encoder, outputs, uploads, queueLength, currentJob, uptime, time }

def UploadedFile.decoder : Decoder UploadedFile :=
  record ["fileId", "filePath", "publicUrl", "filename", "size", "mimetype"] fun r => do
    let id ← r.required "fileId" string
    let reference ← r.required "filePath" string
    let publicUrl ← r.required "publicUrl" string
    let name ← r.required "filename" string
    let size ← r.required "size" uint64
    let mimeType ← r.required "mimetype" string
    return { id, reference, publicUrl, name, size, mimeType }

def AcceptedJob.decoder : Decoder AcceptedJob :=
  record ["jobId", "status", "queuePosition", "statusUrl"] fun r => do
    let id ← r.required "jobId" string
    let status ← r.required "status" JobStatus.decoder
    let queuePosition ← r.required "queuePosition" uint64
    let statusUrl ← r.required "statusUrl" string
    return { id, status, queuePosition, statusUrl }

end RenderGateway
