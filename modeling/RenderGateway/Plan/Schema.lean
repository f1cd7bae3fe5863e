import RenderGateway.Plan.Wire

/-!
# The fields of a plan document

For each record of the plan's wire form the names of its fields and of those
that have no default.
-/

namespace RenderGateway

structure RecordSchema where
  name : String
  properties : List String
  required : List String
deriving DecidableEq, Repr

namespace Plan

def schema : RecordSchema where
  name := "ExecutionPlan"
  properties := fieldNames
  required := ["plan_id", "output_format", "timeline"]

/-- The records inside a plan. -/
def partSchemas : List RecordSchema :=
  [{ name := "AudioTrack"
     properties := AudioTrack.fieldNames
     required := ["audio_id", "trim_start_ms", "trim_end_ms", "timeline_start_ms"] },
   { name := "OutputFormat"
     properties := ["container", "width", "height", "fps", "video_bitrate", "audio_bitrate",
       "codec_hint", "quality"]
     required := ["width", "height"] },
   { name := "PlanValidation"
     properties := PlanSummary.fieldNames
     required := ["segment_count", "base_segment_count", "layer_segment_count",
       "audio_track_count", "text_overlay_count", "output_duration_ms"] },
   { name := "SourceRef"
     properties := ["id", "url", "width", "height", "container", "duration_ms"]
     required := ["id", "url"] },
   { name := "TextBackground"
     properties := ["color", "opacity", "padding"]
     required := [] },
   { name := "TextOverlay"
     properties := TextOverlay.fieldNames
     required := ["text_id", "content", "timeline_start_ms", "timeline_end_ms"] },
   { name := "TimelineSegment"
     properties := Segment.fieldNames
     required := ["segment_id", "trim_start_ms", "trim_end_ms", "timeline_start_ms",
       "timeline_end_ms", "output_duration_ms"] },
   { name := "Transition"
     properties := ["kind", "duration_ms"]
     required := ["duration_ms"] }]

end Plan

end RenderGateway
