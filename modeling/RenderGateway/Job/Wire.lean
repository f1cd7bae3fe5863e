import RenderGateway.Job.Basic

/-!
# Jobs as JSON

The wire form of a job and of what ends it.
-/

namespace RenderGateway

open Json Json.Decoder

namespace Instant

def toJson (t : Instant) : Json := .text t.toText

def decoder : Decoder Instant := fun _ j => j.text?.bind ofText?

end Instant

namespace JobArtifacts

def toJson (a : JobArtifacts) : Json :=
  .object [("engine", a.engine.toJson),
    ("fallbackChain", ofList Rejection.toJson a.fallbackChain),
    ("command", .text a.command),
    ("args", texts a.args),
    ("plan", a.plan.toJson)]

def decoder : Decoder JobArtifacts :=
  record ["engine", "fallbackChain", "command", "args", "plan"] fun r => do
    let engine ← r.required "engine" Engine.decoder
    let fallbackChain ← r.required "fallbackChain" (list Rejection.decoder)
    let command ← r.required "command" string
    let args ← r.required "args" (list string)
    let plan ← r.required "plan" Plan.decoder
    return { engine, fallbackChain, command, args, plan }

end JobArtifacts

namespace RenderOutput

def toJson (o : RenderOutput) : Json :=
  .object [("outputUrl", .text o.url), ("outputSize", ofUInt64 o.size),
    ("durationMs", ofUInt64 o.duration)]

def decoder : Decoder RenderOutput :=
  record ["outputUrl", "outputSize", "durationMs"] fun r => do
    let url ← r.required "outputUrl" string
    let size ← r.required "outputSize" uint64
    let duration ← r.required "durationMs" uint64
    return { url, size, duration }

end RenderOutput

namespace Job

def fieldNames : List String :=
  ["jobId", "planId", "projectId", "status", "queuePosition", "progressPct", "logsTail",
   "engine", "fallbackChain", "outputUrl", "outputSize", "durationMs", "error", "artifacts",
   "createdAt", "startedAt", "completedAt"]

def fields (j : Job) : List (String × Json) :=
  [("jobId", .text j.id), ("planId", .text j.planId)] ++
  optionalField "projectId" .text j.projectId ++
  [("status", j.status.toJson),
   ("queuePosition", ofUInt64 j.queuePosition),
   ("progressPct", ofUInt8 j.progress),
   ("logsTail", texts j.logsTail)] ++
  optionalField "engine" Engine.toJson j.engine ++
  nonEmptyField "fallbackChain" Rejection.toJson j.fallbackChain ++
  optionalField "outputUrl" .text j.outputUrl ++
  optionalField "outputSize" ofUInt64 j.outputSize ++
  optionalField "durationMs" ofUInt64 j.duration ++
  optionalField "error" Fault.toJson j.error ++
  optionalField "artifacts" JobArtifacts.toJson j.artifacts ++
  [("createdAt", j.createdAt.toJson)] ++
  optionalField "startedAt" Instant.toJson j.startedAt ++
  optionalField "completedAt" Instant.toJson j.completedAt

def toJson (j : Job) : Json := .object j.fields

def decoder : Decoder Job :=
  record fieldNames fun r => do
    let id ← r.required "jobId" string
    let planId ← r.required "planId" string
    let projectId ← r.mentioned "projectId" string
    let status ← r.required "status" JobStatus.decoder
    let queuePosition ← r.required "queuePosition" uint64
    let progress ← r.required "progressPct" uint8
    let logsTail ← r.withDefault "logsTail" [] (list string)
    let engine ← r.mentioned "engine" Engine.decoder
    let fallbackChain ← r.withDefault "fallbackChain" [] (list Rejection.decoder)
    let outputUrl ← r.mentioned "outputUrl" string
    let outputSize ← r.mentioned "outputSize" uint64
    let duration ← r.mentioned "durationMs" uint64
    let error ← r.mentioned "error" Fault.decoder
    let artifacts ← r.mentioned "artifacts" JobArtifacts.decoder
    let createdAt ← r.required "createdAt" Instant.decoder
    let startedAt ← r.mentioned "startedAt" Instant.decoder
    let completedAt ← r.mentioned "completedAt" Instant.decoder
    return { id, planId, projectId, status, queuePosition, progress, logsTail, engine,
             fallbackChain, outputUrl, outputSize, duration, error, artifacts, createdAt,
             startedAt, completedAt }

end Job

end RenderGateway
