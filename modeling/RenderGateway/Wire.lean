import RenderGateway.Client.Settings
import RenderGateway.Command.Basic
import RenderGateway.Command.Encoding
import RenderGateway.EncoderRun
import RenderGateway.Http.Status
import RenderGateway.Job.Wire
import RenderGateway.Json.Conversion
import RenderGateway.Probe
import RenderGateway.Queue.Settings
import RenderGateway.Render.Work
import RenderGateway.Server.Metrics
import RenderGateway.Server.Settings
import RenderGateway.Store.Settings
import RenderGateway.Transform.Options

/-!
# Forms of the domain's types

The types that cross the border of the gateway, each with its form in JSON; of
settings and of what is observed, the form in which they are shown.
-/

namespace RenderGateway

open Json

instance : ToJson Plan := ⟨Plan.toJson⟩
instance : ToJson Container := ⟨Container.toJson⟩
instance : ToJson Codec := ⟨Codec.toJson⟩
instance : ToJson Quality := ⟨Quality.toJson⟩
instance : ToJson VideoFilter := ⟨VideoFilter.toJson⟩
instance : ToJson PlanSummary := ⟨PlanSummary.toJson⟩
instance : ToJson Issue := ⟨Issue.toJson⟩
instance : ToJson Fault := ⟨Fault.toJson⟩
instance : ToJson FaultCode := ⟨FaultCode.toJson⟩
instance : ToJson Capability := ⟨Capability.toJson⟩
instance : ToJson Engine := ⟨Engine.toJson⟩
instance : ToJson Routing := ⟨Routing.toJson⟩
instance : ToJson TransformOptions := ⟨TransformOptions.toJson⟩
instance : ToJson SourceInfo := ⟨SourceInfo.toJson⟩
instance : ToJson EncoderInfo := ⟨EncoderInfo.toJson⟩
instance : ToJson Encoding := ⟨Encoding.toJson⟩
instance : ToJson Job := ⟨Job.toJson⟩
instance : ToJson JobStatus := ⟨JobStatus.toJson⟩
instance : ToJson Stage := ⟨Stage.toJson⟩
instance : ToJson FailureRecord := ⟨FailureRecord.toJson⟩
instance : ToJson StoredFile := ⟨StoredFile.toJson⟩
instance : ToJson Progress := ⟨fun p => .object
  [("frame", ofUInt64 p.frame), ("fps", ofBinary64Shown p.fps), ("out_time_ms", ofInt64 p.outTime),
   ("speed", ofBinary64Shown p.speed), ("is_complete", .bool p.isComplete)]⟩
instance : ToJson VideoInfo := ⟨fun v => .object
  [("duration_ms", ofOption ofInt64 v.duration), ("width", ofUInt32 v.width),
   ("height", ofUInt32 v.height), ("fps", ofBinary64Shown v.fps), ("codec", .text v.codec),
   ("has_audio", .bool v.hasAudio), ("size", ofUInt64 v.size)]⟩
instance : ToJson RunEvent := ⟨fun e => .object
  [match e with
    | .log line => ("log", .text line)
    | .progress p => ("progress", ToJson.toJson p)]⟩
instance : ToJson Violation := ⟨fun v => .object
  [("field", .text v.field), ("code", .text v.rule), ("message", ofOption .text v.message)]⟩
instance : ToJson ClaimedJob := ⟨fun c => .object
  [("job", c.job.toJson), ("plan_id", .text c.plan.id), ("output_name", ofOption .text c.outputName)]⟩
instance : ToJson Launch := ⟨fun l => .object
  [("program", .text l.command.program), ("args", texts l.command.args),
   ("timeout_ms", ofNat l.limit.milliseconds), ("tail_lines", ofUInt64 l.keptLines)]⟩
instance : ToJson Measure := ⟨fun m => .object
  [("type", .text m.kind.name), ("name", .text m.name),
   ("labels", .object (m.labels.map fun (name, value) => (name, .text value)))]⟩
instance : ToJson HttpStatus := ⟨fun s => ofNat s.code⟩

instance : ToJson ServerSettings := ⟨fun s => .object
  [("host", .text s.host), ("port", ofUInt16 s.port), ("cors_origins", texts s.origins),
   ("rate_limit_rps", ofUInt32 s.rateLimit), ("max_upload_size", ofUInt64 s.maxBodySize),
   ("environment", .text s.environment), ("metrics_enabled", .bool s.metricsEnabled),
   ("production", .bool s.isProduction), ("bind", .text s.address)]⟩
instance : ToJson QueueSettings := ⟨fun s => .object
  [("capacity", ofUInt64 s.capacity), ("max_retained_jobs", ofUInt64 s.retained)]⟩
instance : ToJson StorageSettings := ⟨fun s => .object
  [("uploads_dir", .text s.uploads), ("outputs_dir", .text s.outputs),
   ("error_log_path", .text s.failureLog), ("public_base_url", .text s.publicAddress)]⟩
instance : ToJson RenderSettings := ⟨fun s => .object
  [("work_dir", .text s.workDirectory), ("engines", ofList Engine.toJson s.engines),
   ("ffmpeg_path", ofOption .text s.encoder),
   ("render_timeout_factor", ofBinary64Shown s.limitFactor),
   ("render_timeout_min_ms", ofNat s.leastLimit.milliseconds),
   ("render_timeout_max_ms", ofNat s.greatestLimit.milliseconds),
   ("fetch_max_retries", ofUInt32 s.maxRetries), ("fetch_retry_base_ms", ofUInt64 s.retryBase),
   ("fetch_timeout_ms", ofNat s.fetchLimit.milliseconds),
   ("logs_tail_lines", ofUInt64 s.keptLines), ("default_quality", s.defaultQuality.toJson)]⟩
instance : ToJson ClientSettings := ⟨fun s => .object
  [("base_url", .text s.baseUrl), ("timeout_ms", ofNat s.timeLimit.milliseconds),
   ("max_retries", ofUInt32 s.maxRetries)]⟩

instance : FromJson Plan := ⟨Plan.decoder⟩
instance : FromJson Container := ⟨Container.decoder⟩
instance : FromJson Quality := ⟨Quality.decoder⟩
instance : FromJson OutputFormat := ⟨OutputFormat.decoder⟩
instance : FromJson TextOverlay := ⟨TextOverlay.decoder⟩
instance : FromJson VideoFilter := ⟨VideoFilter.decoder⟩
instance : FromJson Issue := ⟨Issue.decoder⟩
instance : FromJson Fault := ⟨Fault.decoder⟩
instance : FromJson Capability := ⟨Capability.decoder⟩
instance : FromJson Engine := ⟨Engine.decoder⟩
instance : FromJson Routing := ⟨Routing.decoder⟩
instance : FromJson TransformOptions := ⟨TransformOptions.decoder⟩
instance : FromJson SourceInfo := ⟨SourceInfo.decoder⟩
instance : FromJson Encoding := ⟨Encoding.decoder⟩
instance : FromJson CompiledCommand := ⟨CompiledCommand.decoder⟩
instance : FromJson Job := ⟨Job.decoder⟩
instance : FromJson JobStatus := ⟨JobStatus.decoder⟩
instance : FromJson JobArtifacts := ⟨JobArtifacts.decoder⟩
instance : FromJson RenderOutput := ⟨RenderOutput.decoder⟩
instance : FromJson Stage := ⟨Stage.decoder⟩

end RenderGateway
