import RenderGateway.Json.Decoder
import RenderGateway.Plan.Basic

/-!
# Plans as JSON

The wire form of a plan and its parts. An optional value that is absent and an
optional list that is empty are left out; what is left out reads as absent,
empty, or the default of its field.
-/

namespace RenderGateway

open Json Json.Decoder

namespace Container

def toJson (c : Container) : Json := .text c.name

def decoder : Decoder Container := Decoder.name ofName?

end Container

namespace Codec

def toJson (c : Codec) : Json := .text c.name

def decoder : Decoder Codec := Decoder.name ofName?

end Codec

namespace Quality

def toJson (q : Quality) : Json := .text q.name

def decoder : Decoder Quality := Decoder.name ofName?

end Quality

namespace OutputFormat

def toJson (f : OutputFormat) : Json := .object <|
  [("container", f.container.toJson),
   ("width", ofUInt32 f.width),
   ("height", ofUInt32 f.height),
   ("fps", ofUInt32 f.fps)] ++
  optionalField "video_bitrate" .text f.videoBitrate ++
  [("audio_bitrate", .text f.audioBitrate)] ++
  optionalField "codec_hint" Codec.toJson f.codecHint ++
  optionalField "quality" Quality.toJson f.quality

def decoder : Decoder OutputFormat :=
  record ["container", "width", "height", "fps", "video_bitrate", "audio_bitrate",
      "codec_hint", "quality"] fun r => do
    let container ← r.withDefault "container" .mp4 Container.decoder
    let width ← r.required "width" uint32
    let height ← r.required "height" uint32
    let fps ← r.withDefault "fps" defaultFps uint32
    let videoBitrate ← r.optional "video_bitrate" string
    let audioBitrate ← r.withDefault "audio_bitrate" defaultAudioBitrate string
    let codecHint ← r.optional "codec_hint" Codec.decoder
    let quality ← r.optional "quality" Quality.decoder
    return { container, width, height, fps, videoBitrate, audioBitrate, codecHint, quality }

end OutputFormat

namespace Source

def toJson (s : Source) : Json := .object <|
  [("id", .text s.id), ("url", .text s.url)] ++
  optionalField "width" ofUInt32 s.width ++
  optionalField "height" ofUInt32 s.height ++
  optionalField "container" Container.toJson s.container ++
  optionalField "duration_ms" ofInt64 s.duration

def decoder : Decoder Source :=
  record ["id", "url", "width", "height", "container", "duration_ms"] fun r => do
    let id ← r.required "id" string
    let url ← r.required "url" string
    let width ← r.optional "width" uint32
    let height ← r.optional "height" uint32
    let container ← r.optional "container" Container.decoder
    let duration ← r.optional "duration_ms" int64
    return { id, url, width, height, container, duration }

end Source

namespace VideoFilter

def defaultSigma : Binary64 := 4

def kind : VideoFilter → String
  | grayscale => "grayscale"
  | blur _ => "blur"
  | sharpen => "sharpen"
  | brightness _ => "brightness"
  | contrast _ => "contrast"
  | saturation _ => "saturation"

def parameters : VideoFilter → List (String × Json)
  | grayscale | sharpen => []
  | blur sigma => [("sigma", ofBinary64 sigma)]
  | brightness value | contrast value | saturation value => [("value", ofBinary64 value)]

def toJson (f : VideoFilter) : Json := .object (("type", .text f.kind) :: f.parameters)

/-- The parameters of a filter of a given kind: fields, or items in order. -/
def ofKind? (kind : String) : Decoder VideoFilter := fun r j =>
  if kind = "grayscale" then bare grayscale j
  else if kind = "sharpen" then bare sharpen j
  else if kind = "blur" then
    record ["sigma"] (fun r => (r.withDefault "sigma" defaultSigma binary64).map blur) r j
  else if kind = "brightness" then valued brightness r j
  else if kind = "contrast" then valued contrast r j
  else if kind = "saturation" then valued saturation r j
  else none
where
  bare (f : VideoFilter) : Json → Option VideoFilter
    | .array (_ :: _) => none
    | _ => some f
  valued (f : Binary64 → VideoFilter) : Decoder VideoFilter :=
    record ["value"] fun r => (r.required "value" binary64).map f

/-- A filter as an object with its kind under `type`, or as an array that the
kind opens. The kind is never repeated, and neither is a known parameter. -/
def decoder : Decoder VideoFilter := fun r j =>
  match j with
  | .object fields =>
    if r = .refused ∧ Record.repeatsName ["type"] fields then none
    else match lookup "type" fields with
      | some (.text kind) => ofKind? kind r (.object fields)
      | _ => none
  | .array (.text kind :: items) => ofKind? kind r (.array items)
  | _ => none

end VideoFilter

namespace Transition

def toJson (t : Transition) : Json :=
  .object [("kind", .text t.kind.name), ("duration_ms", ofInt64 t.duration)]

def decoder : Decoder Transition :=
  record ["kind", "duration_ms"] fun r => do
    let kind ← r.withDefault "kind" .fade (Decoder.name TransitionKind.ofName?)
    let duration ← r.required "duration_ms" int64
    return { kind, duration }

end Transition

namespace Segment

def defaultTrack : String := "video"

def fieldNames : List String :=
  ["segment_id", "source_video_id", "source_segment_id", "asset_url", "trim_start_ms",
   "trim_end_ms", "source_duration_ms", "timeline_start_ms", "timeline_end_ms",
   "output_duration_ms", "speed_multiplier", "track", "layer", "filters", "transition_in"]

def toJson (s : Segment) : Json := .object <|
  [("segment_id", .text s.id)] ++
  optionalField "source_video_id" .text s.sourceId ++
  optionalField "source_segment_id" .text s.sourceSegmentId ++
  optionalField "asset_url" .text s.assetUrl ++
  [("trim_start_ms", ofInt64 s.trimStart), ("trim_end_ms", ofInt64 s.trimEnd)] ++
  optionalField "source_duration_ms" ofInt64 s.sourceDuration ++
  [("timeline_start_ms", ofInt64 s.timelineStart),
   ("timeline_end_ms", ofInt64 s.timelineEnd),
   ("output_duration_ms", ofInt64 s.outputDuration),
   ("speed_multiplier", ofBinary64 s.speed),
   ("track", .text s.track),
   ("layer", ofUInt32 s.layer)] ++
  nonEmptyField "filters" VideoFilter.toJson s.filters ++
  optionalField "transition_in" Transition.toJson s.transition

def decoder : Decoder Segment :=
  record fieldNames fun r => do
    let id ← r.required "segment_id" string
    let sourceId ← r.optional "source_video_id" string
    let sourceSegmentId ← r.optional "source_segment_id" string
    let assetUrl ← r.optional "asset_url" string
    let trimStart ← r.required "trim_start_ms" int64
    let trimEnd ← r.required "trim_end_ms" int64
    let sourceDuration ← r.optional "source_duration_ms" int64
    let timelineStart ← r.required "timeline_start_ms" int64
    let timelineEnd ← r.required "timeline_end_ms" int64
    let outputDuration ← r.required "output_duration_ms" int64
    let speed ← r.withDefault "speed_multiplier" 1 binary64
    let track ← r.withDefault "track" defaultTrack string
    let layer ← r.withDefault "layer" 0 uint32
    let filters ← r.withDefault "filters" [] (list VideoFilter.decoder)
    let transition ← r.optional "transition_in" Transition.decoder
    return { id, sourceId, sourceSegmentId, assetUrl, trimStart, trimEnd, sourceDuration,
             timelineStart, timelineEnd, outputDuration, speed, track, layer, filters,
             transition }

end Segment

namespace AudioTrack

def defaultTrack : String := "music"

def fieldNames : List String :=
  ["audio_id", "asset_url", "source_video_id", "trim_start_ms", "trim_end_ms",
   "timeline_start_ms", "timeline_end_ms", "volume", "fade_in_ms", "fade_out_ms",
   "speed_multiplier", "track"]

def toJson (t : AudioTrack) : Json := .object <|
  [("audio_id", .text t.id)] ++
  optionalField "asset_url" .text t.assetUrl ++
  optionalField "source_video_id" .text t.sourceId ++
  [("trim_start_ms", ofInt64 t.trimStart),
   ("trim_end_ms", ofInt64 t.trimEnd),
   ("timeline_start_ms", ofInt64 t.timelineStart)] ++
  optionalField "timeline_end_ms" ofInt64 t.timelineEnd ++
  [("volume", ofBinary64 t.volume),
   ("fade_in_ms", ofInt64 t.fadeIn),
   ("fade_out_ms", ofInt64 t.fadeOut),
   ("speed_multiplier", ofBinary64 t.speed),
   ("track", .text t.track)]

def decoder : Decoder AudioTrack :=
  record fieldNames fun r => do
    let id ← r.required "audio_id" string
    let assetUrl ← r.optional "asset_url" string
    let sourceId ← r.optional "source_video_id" string
    let trimStart ← r.required "trim_start_ms" int64
    let trimEnd ← r.required "trim_end_ms" int64
    let timelineStart ← r.required "timeline_start_ms" int64
    let timelineEnd ← r.optional "timeline_end_ms" int64
    let volume ← r.withDefault "volume" 1 binary64
    let fadeIn ← r.withDefault "fade_in_ms" 0 int64
    let fadeOut ← r.withDefault "fade_out_ms" 0 int64
    let speed ← r.withDefault "speed_multiplier" 1 binary64
    let track ← r.withDefault "track" defaultTrack string
    return { id, assetUrl, sourceId, trimStart, trimEnd, timelineStart, timelineEnd, volume,
             fadeIn, fadeOut, speed, track }

end AudioTrack

namespace TextBackground

def defaultColor : String := "black"

def defaultOpacity : Binary64 := .ofRat (mkRat 1 2)

def defaultPadding : UInt32 := 12

def toJson (b : TextBackground) : Json :=
  .object [("color", .text b.color), ("opacity", ofBinary64 b.opacity),
    ("padding", ofUInt32 b.padding)]

def decoder : Decoder TextBackground :=
  record ["color", "opacity", "padding"] fun r => do
    let color ← r.withDefault "color" defaultColor string
    let opacity ← r.withDefault "opacity" defaultOpacity binary64
    let padding ← r.withDefault "padding" defaultPadding uint32
    return { color, opacity, padding }

end TextBackground

namespace TextOverlay

def defaultFontSize : UInt32 := 48

def defaultFontColor : String := "white"

def fieldNames : List String :=
  ["text_id", "content", "timeline_start_ms", "timeline_end_ms", "font_size", "font_color",
   "font_file", "position", "x", "y", "background"]

def toJson (o : TextOverlay) : Json := .object <|
  [("text_id", .text o.id),
   ("content", .text o.content),
   ("timeline_start_ms", ofInt64 o.timelineStart),
   ("timeline_end_ms", ofInt64 o.timelineEnd),
   ("font_size", ofUInt32 o.fontSize),
   ("font_color", .text o.fontColor)] ++
  optionalField "font_file" .text o.fontFile ++
  [("position", .text o.position.name)] ++
  optionalField "x" .text o.x ++
  optionalField "y" .text o.y ++
  optionalField "background" TextBackground.toJson o.background

def decoder : Decoder TextOverlay :=
  record fieldNames fun r => do
    let id ← r.required "text_id" string
    let content ← r.required "content" string
    let timelineStart ← r.required "timeline_start_ms" int64
    let timelineEnd ← r.required "timeline_end_ms" int64
    let fontSize ← r.withDefault "font_size" defaultFontSize uint32
    let fontColor ← r.withDefault "font_color" defaultFontColor string
    let fontFile ← r.optional "font_file" string
    let position ← r.withDefault "position" .bottom (Decoder.name TextPosition.ofName?)
    let x ← r.optional "x" string
    let y ← r.optional "y" string
    let background ← r.optional "background" TextBackground.decoder
    return { id, content, timelineStart, timelineEnd, fontSize, fontColor, fontFile, position,
             x, y, background }

end TextOverlay

namespace PlanSummary

def fieldNames : List String :=
  ["segment_count", "base_segment_count", "layer_segment_count", "audio_track_count",
   "text_overlay_count", "output_duration_ms", "warnings"]

def toJson (v : PlanSummary) : Json := .object <|
  [("segment_count", ofUInt64 v.segments),
   ("base_segment_count", ofUInt64 v.baseSegments),
   ("layer_segment_count", ofUInt64 v.layerSegments),
   ("audio_track_count", ofUInt64 v.audioTracks),
   ("text_overlay_count", ofUInt64 v.textOverlays),
   ("output_duration_ms", ofInt64 v.outputDuration)] ++
  nonEmptyField "warnings" .text v.warnings

def decoder : Decoder PlanSummary :=
  record fieldNames fun r => do
    let segments ← r.required "segment_count" uint64
    let baseSegments ← r.required "base_segment_count" uint64
    let layerSegments ← r.required "layer_segment_count" uint64
    let audioTracks ← r.required "audio_track_count" uint64
    let textOverlays ← r.required "text_overlay_count" uint64
    let outputDuration ← r.required "output_duration_ms" int64
    let warnings ← r.withDefault "warnings" [] (list string)
    return { segments, baseSegments, layerSegments, audioTracks, textOverlays, outputDuration,
             warnings }

end PlanSummary

namespace Plan

def fieldNames : List String :=
  ["plan_id", "project_id", "source_video_url", "sources", "output_format", "timeline",
   "audio_tracks", "text_overlays", "validation"]

def toJson (p : Plan) : Json := .object <|
  [("plan_id", .text p.id)] ++
  optionalField "project_id" .text p.projectId ++
  optionalField "source_video_url" .text p.defaultUrl ++
  nonEmptyField "sources" Source.toJson p.sources ++
  [("output_format", p.format.toJson),
   ("timeline", ofList Segment.toJson p.timeline),
   ("audio_tracks", ofList AudioTrack.toJson p.audioTracks),
   ("text_overlays", ofList TextOverlay.toJson p.textOverlays)] ++
  optionalField "validation" PlanSummary.toJson p.summary

def decoder : Decoder Plan :=
  record fieldNames fun r => do
    let id ← r.required "plan_id" string
    let projectId ← r.optional "project_id" string
    let defaultUrl ← r.optional "source_video_url" string
    let sources ← r.withDefault "sources" [] (list Source.decoder)
    let format ← r.required "output_format" OutputFormat.decoder
    let timeline ← r.required "timeline" (list Segment.decoder)
    let audioTracks ← r.withDefault "audio_tracks" [] (list AudioTrack.decoder)
    let textOverlays ← r.withDefault "text_overlays" [] (list TextOverlay.decoder)
    let summary ← r.optional "validation" PlanSummary.decoder
    return { id, projectId, defaultUrl, sources, format, timeline, audioTracks, textOverlays,
             summary }

end Plan

end RenderGateway
