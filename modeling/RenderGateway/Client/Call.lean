import RenderGateway.Client.Reply
import RenderGateway.Client.Settings
import RenderGateway.Http.FormData
import RenderGateway.Json.Writer
import RenderGateway.Plan.Wire
import RenderGateway.Transform.Options

/-!
# Calls of the gateway

What the client sends for each call and how it goes on: reading calls are
repeated after failures that another try may mend, and a job is polled until it
has ended or the time is up. The transport is a function from the number of a
request to its outcome.
-/

namespace RenderGateway

/-- What a call sends besides its method and path. -/
inductive Payload
  | none
  | json (document : Json)
  /-- A form with one file in it. -/
  | file (name mimeType : String) (content : ByteArray)

namespace Payload

/-- The body that is sent; a form has a boundary between its parts. -/
def bytes (boundary : String) : Payload → ByteArray
  | none => .empty
  | json document => document.write.toUTF8
  | file name mimeType content =>
    ⟨(FormData.write boundary
      [⟨some "file", some name, some mimeType, content.toList⟩]).toArray⟩

/-- The media type of the body. -/
def contentType? (boundary : String) : Payload → Option String
  | none => Option.none
  | json _ => "application/json"
  | file _ _ _ => s!"multipart/form-data; boundary={boundary}"

end Payload

structure ClientRequest where
  method : String
  url : String
  payload : Payload

/-- The outcome of each request that a call makes, by its number. -/
abbrev Exchange := Nat → ClientRequest → Except ClientError Reply

namespace Client

open Json

def request (s : ClientSettings) (method path : String) (payload : Payload) : ClientRequest :=
  ⟨method, s.baseUrl ++ path, payload⟩

def healthRequest (s : ClientSettings) : ClientRequest := request s "GET" "/api/health" .none

def jobRequest (s : ClientSettings) (id : String) : ClientRequest :=
  request s "GET" s!"/api/jobs/{id}" .none

def uploadRequest (s : ClientSettings) (name mimeType : String) (content : ByteArray) :
    ClientRequest :=
  request s "POST" "/api/upload" (.file name mimeType content)

/-- The body of a request for a simple transform. -/
def executeBody (source : String) (options : TransformOptions) : Json :=
  .object (("sourcePath", .text source) :: options.toJson.fieldList)

def executeRequest (s : ClientSettings) (source : String) (options : TransformOptions) :
    ClientRequest :=
  request s "POST" "/api/execute" (.json (executeBody source options))

/-- The body of a request for a full plan. -/
def executePlanBody (p : Plan) (source outputName : Option String) : Json :=
  .object (optionalField "sourceVideoUrl" .text source ++ [("plan", p.toJson)] ++
    optionalField "outputName" .text outputName)

def executePlanRequest (s : ClientSettings) (p : Plan) (source outputName : Option String) :
    ClientRequest :=
  request s "POST" "/api/execute-plan" (.json (executePlanBody p source outputName))

/-- Repeats a request while its failure is worth another try, a number of times at
most. The answer comes with the number of the next request. -/
def repeated (send : Nat → Except ClientError α) : Nat → Nat → Except ClientError α × Nat
  | 0, index => (send index, index + 1)
  | retries + 1, index =>
    match send index with
    | .error e => if e.isRetryable then repeated send retries (index + 1)
      else (.error e, index + 1)
    | result => (result, index + 1)

/-- One request and the result in its reply. -/
def call (exchange : Exchange) (r : ClientRequest) (d : Decoder α) (index : Nat) :
    Except ClientError α :=
  (exchange index r).bind fun reply => reply.decode d

def health (s : ClientSettings) (exchange : Exchange) : Except ClientError HealthReport :=
  (repeated (call exchange (healthRequest s) HealthReport.decoder) s.maxRetries.toNat 0).1

def upload (s : ClientSettings) (exchange : Exchange) (name mimeType : String)
    (content : ByteArray) : Except ClientError UploadedFile :=
  call exchange (uploadRequest s name mimeType content) UploadedFile.decoder 0

def execute (s : ClientSettings) (exchange : Exchange) (source : String)
    (options : TransformOptions) : Except ClientError AcceptedJob :=
  call exchange (executeRequest s source options) AcceptedJob.decoder 0

def executePlan (s : ClientSettings) (exchange : Exchange) (p : Plan)
    (source outputName : Option String) : Except ClientError AcceptedJob :=
  call exchange (executePlanRequest s p source outputName) AcceptedJob.decoder 0

/-- The state of a job, from the given request on. -/
def jobFrom (s : ClientSettings) (exchange : Exchange) (id : String) (index : Nat) :
    Except ClientError Job × Nat :=
  repeated (call exchange (jobRequest s id) Job.decoder) s.maxRetries.toNat index

def job (s : ClientSettings) (exchange : Exchange) (id : String) : Except ClientError Job :=
  (jobFrom s exchange id 0).1

/-- Polls a job until it has ended or the time is up. `waited` tells how long the
wait has lasted after each poll; a number bounds the polls. -/
def waitFrom (s : ClientSettings) (exchange : Exchange) (id : String) (limit : Duration)
    (waited : Nat → Duration) : Nat → Nat → Nat → Except ClientError Job
  | 0, poll, _ => .error (.unfinished id (waited poll))
  | polls + 1, poll, index =>
    match jobFrom s exchange id index with
    | (.error e, _) => .error e
    | (.ok j, index) =>
      if j.isTerminal then .ok j
      else if limit ≤ waited poll then .error (.unfinished id (waited poll))
      else waitFrom s exchange id limit waited polls (poll + 1) index

def wait (s : ClientSettings) (exchange : Exchange) (id : String) (limit : Duration)
    (waited : Nat → Duration) (polls : Nat) : Except ClientError Job :=
  waitFrom s exchange id limit waited polls 0 0

end Client

end RenderGateway
