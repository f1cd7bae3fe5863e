import RenderGateway.Http.FormData
import RenderGateway.Json.Reader
import RenderGateway.Plan.Schema
import RenderGateway.Server.Error
import RenderGateway.Server.Gateway
import RenderGateway.Transform.Planning

/-!
# The programming interface

What the gateway does for each route of its programming interface. Requests for
renders only put jobs into the queue; what becomes of them is told by the jobs.
A handler that fails changes nothing.
-/

namespace RenderGateway

open Json Json.Decoder

/-- A request for a simple transform of one source. -/
structure ExecuteRequest where
  source : String
  options : TransformOptions

namespace ExecuteRequest

def decoder : Decoder ExecuteRequest := fun r j =>
  match j with
  | .object fields => do
    if Record.repeatsName ["sourcePath"] fields then none
    let source ← match lookup "sourcePath" fields with
      | none => some ""
      | some j => string r j
    let options ← TransformOptions.decoder r j
    return { source, options }
  | _ => none

/-- What is wrong with a request, a line for each, in order. -/
def problems (r : ExecuteRequest) : List String :=
  let source := if r.source = "" then ["source_path: sourcePath is required"] else []
  let options := r.options.violations.map fun v => "options." ++ v.text
  Text.sorted (options ++ source)

end ExecuteRequest

/-- A request for a full plan. -/
structure ExecutePlanRequest where
  source : Option String
  plan : Plan
  outputName : Option String

namespace ExecutePlanRequest

def decoder : Decoder ExecutePlanRequest :=
  record ["sourceVideoUrl", "plan", "outputName"] fun r => do
    let source ← r.optional "sourceVideoUrl" string
    let plan ← r.required "plan" Plan.decoder
    let outputName ← r.optional "outputName" string
    return { source, plan, outputName }

/-- The plan, with the source of the request in place of its own. -/
def effectivePlan (r : ExecutePlanRequest) : Plan :=
  match (r.source.map Text.trim).filter (· ≠ "") with
  | some url => { r.plan with defaultUrl := some url }
  | none => r.plan

def effectiveName (r : ExecutePlanRequest) : Option String :=
  r.outputName.filter fun name => !Text.isBlankText name

end ExecutePlanRequest

/-- A response, or why there is none, and the gateway afterwards. -/
abbrev Handled := Except ServerError (Response × Gateway)

namespace Api

/-- The largest body that is read: the limit of the server, or the length that the
request announces if that is less. -/
def bodyLimit (settings : ServerSettings) (headers : Headers) : Nat :=
  let limit := settings.maxBodySize.toNat
  match (headers.text? "content-length").bind (Numeral.natBelow? (2 ^ 64)) with
  | some length => min limit length
  | none => limit

/-- The value in a body that has to be JSON. -/
def jsonBody (g : Gateway) (r : Request) (d : Decoder α) : Except ServerError α :=
  if !((r.headers.text? "content-type").bind MediaType.ofText?).any MediaType.isJson then
    .error (.badRequest
      "Invalid JSON body: Expected request with `Content-Type: application/json`")
  else if bodyLimit g.settings r.headers < r.body.size then
    .error (.tooLarge "Request body too large")
  else
    let malformed := ServerError.badRequest
      "Invalid JSON body: Failed to parse the request body as JSON"
    match (String.fromUTF8? r.body).bind fun s => readLeading? s.toList with
    | none => .error malformed
    | some (document, rest) =>
      match d .refused document with
      | none => .error (.badRequest
          "Invalid JSON body: Failed to deserialize the JSON body into the target type")
      | some a => if (skipSpace rest).isEmpty then .ok a else .error malformed

/-- What is known about a source before its transform is planned. A reference into
the uploads has to name a file; a probe that fails leaves all unknown. -/
def inspect (g : Gateway) (m : Moment) (source : String) (options : TransformOptions) :
    Except ServerError SourceInfo := do
  let store := g.stores.uploadStore
  let name := store.nameOf? source
  if name.any fun name => !g.uploads.contains name then
    throw (.badRequest s!"Source not found: {source}")
  if !options.needsProbe then return .unknown
  let target := (name.map store.place).getD source
  match Probe.inspect target (name.isSome || m.fileExists target) m.prober with
  | .ok info => return info.sourceInfo
  | .error _ => return .unknown

/-- The acknowledgement of a job. -/
def accepted (j : Job) : Response :=
  .ofJson .accepted (.object [("ok", .bool true), ("jobId", .text j.id),
    ("status", j.status.toJson), ("queuePosition", ofUInt64 j.queuePosition),
    ("statusUrl", .text s!"/api/jobs/{j.id}")])

/-- Puts a plan into the queue for an endpoint. -/
def enqueue (g : Gateway) (m : Moment) (p : Plan) (outputName : Option String) (endpoint : String) :
    Handled :=
  match g.submit ⟨m.freshId 1, p, outputName⟩ m.now with
  | .ok (j, g) => .ok (accepted j, g.record (Measure.ofSubmission endpoint))
  | .error e => .error (.queue e)

def execute (g : Gateway) (m : Moment) (r : Request) : Handled := do
  let request ← jsonBody g r ExecuteRequest.decoder
  match request.problems with
  | [] =>
    let source := Text.trim request.source
    let info ← inspect g m source request.options
    match request.options.toPlan s!"transform-{m.freshId 0}" source info with
    | .ok p => enqueue g m p none "execute"
    | .error e => throw (.refused (.input e.reason))
  | problems => throw (.badRequest (String.intercalate "\n" problems))

def executePlan (g : Gateway) (m : Moment) (r : Request) : Handled := do
  let request ← jsonBody g r ExecutePlanRequest.decoder
  enqueue g m request.effectivePlan request.effectiveName "execute_plan"

def formError (e : FormData.FormError) : ServerError :=
  .badRequest s!"Invalid multipart body: {e.message}"

/-- The part of a form that holds the file. -/
def filePart (g : Gateway) (r : Request) : Except ServerError FormData.Part := do
  match ((r.headers.text? "content-type").bind MediaType.ofText?).bind MediaType.boundary? with
  | none => throw (.badRequest
      "Invalid multipart request: Invalid `boundary` for `multipart/form-data` request")
  | some boundary =>
    if bodyLimit g.settings r.headers < r.body.size then
      throw (.tooLarge "Upload exceeds the maximum allowed size")
    let rest ← (FormData.start boundary r.body.toList).mapError formError
    let isFile := fun (p : FormData.Part) => p.name = some "file" || p.fileName.isSome
    match ← (FormData.findPart boundary isFile (rest.length + 1) rest).mapError formError with
    | some part => return part
    | none => throw (.badRequest "Multipart body has no 'file' file part")

def upload (g : Gateway) (m : Moment) (r : Request) : Handled := do
  let part ← filePart g r
  if part.content.isEmpty then throw (.badRequest "Uploaded file is empty")
  let name := (part.fileName.filter fun name => !Text.isBlankText name).getD "upload.bin"
  let mimeType := part.contentType.getD MediaType.unknown
  let content : ByteArray := ⟨part.content.toArray⟩
  let (file, uploads) ←
    (g.uploads.save g.stores.uploadStore (m.freshId 0) name mimeType content).mapError .storage
  let g := { g with uploads }
  return (.ofJson .ok (.object (("ok", .bool true) :: file.fields)),
    g.record (Measure.ofUpload content.size))

/-- The success body of a job: the job's own fields beside `ok`. -/
def jobBody (j : Job) : Json := .object (("ok", .bool true) :: j.fields)

def job (g : Gateway) (id : String) : Except ServerError Response :=
  match g.queue.jobs.find? id with
  | some j => .ok (.ofJson .ok (jobBody j))
  | none => .error (.notFound s!"Job not found: {id}")

/-- The field names of a record. -/
def recordSchema (s : RecordSchema) : Json :=
  .object [("type", .text "object"), ("title", .text s.name),
    ("properties", .object (s.properties.map fun name => (name, .object []))),
    ("required", texts s.required)]

def planSchema : Response :=
  .ofJson .ok (.object [("ok", .bool true),
    ("schema", .object ((recordSchema Plan.schema).fieldList ++
      [("definitions", .object (Plan.partSchemas.map fun s => (s.name, recordSchema s)))]))])

def version : String := "0.1.0"

def health (g : Gateway) (m : Moment) : Response :=
  .ofJson .ok (.object [
    ("ok", .bool true),
    ("version", .text version),
    ("ffmpeg", g.encoder.toJson),
    ("outputsDir", .text g.stores.outputs),
    ("uploadsDir", .text g.stores.uploads),
    ("queueLength", ofNat g.queue.pending.length),
    ("currentJob", ofOption .text g.queue.current),
    ("uptime", ofUInt64 m.uptime),
    ("time", m.now.toJson)])

end Api

end RenderGateway
