import RenderGateway.Fault
import RenderGateway.Transform.Options

/-!
# Planning a transform

A transform becomes a plan of one segment. What the request leaves open comes
from what is known of the source. The source's own sound is a track of the plan
when it is known to exist and is not muted.
-/

namespace RenderGateway

/-- What is known about a source before planning. -/
structure SourceInfo where
  duration : Option Int64
  width : Option UInt32
  height : Option UInt32
  hasAudio : Option Bool
deriving DecidableEq, Repr

namespace SourceInfo

open Json Json.Decoder

def unknown : SourceInfo := ⟨none, none, none, none⟩

def toJson (i : SourceInfo) : Json :=
  .object [("duration_ms", ofOption ofInt64 i.duration),
    ("width", ofOption ofUInt32 i.width),
    ("height", ofOption ofUInt32 i.height),
    ("has_audio", ofOption Json.bool i.hasAudio)]

def decoder : Decoder SourceInfo :=
  record ["duration_ms", "width", "height", "has_audio"] fun r => do
    let duration ← r.mentioned "duration_ms" int64
    let width ← r.mentioned "width" uint32
    let height ← r.mentioned "height" uint32
    let hasAudio ← r.mentioned "has_audio" boolean
    return { duration, width, height, hasAudio }

end SourceInfo

/-- Why a transform cannot be planned. -/
inductive PlanningError
  | violations (list : List Violation)
  | blankSource
  | unknownDuration
  | emptyWindow (start stop : Int64)
  | beyondSource (stop duration : Int64)
  | oddSize
deriving DecidableEq, Repr

namespace PlanningError

def reason : PlanningError → String
  | violations list => "; ".intercalate (list.map Violation.text)
  | blankSource => "sourcePath is required"
  | unknownDuration => "Could not determine source duration; provide trim.endMs"
  | emptyWindow start stop => s!"Trim window {start}..{stop}ms is empty"
  | beyondSource stop duration => s!"trim.endMs {stop} exceeds source duration {duration}ms"
  | oddSize => "resize width and height must be even"

def message (e : PlanningError) : String := s!"Invalid request: {e.reason}"

def fault (e : PlanningError) : Fault := .ofMessage .input e.message

end PlanningError

namespace TransformOptions

/-- The frame size when neither the request nor the source has one. -/
def fallbackSize : UInt32 × UInt32 := (1280, 720)

def sourceId : String := "source"

def even (n : UInt32) : UInt32 := n - n % 2

/-- The size of the output: the one asked for, which has to be even, or that of
the source cut down to the largest even size in range. -/
def frameSize (o : TransformOptions) (source : SourceInfo) :
    Except PlanningError (UInt32 × UInt32) :=
  match o.resize with
  | some r =>
    if r.width % 2 ≠ 0 ∨ r.height % 2 ≠ 0 then .error .oddSize else .ok (r.width, r.height)
  | none =>
    match source.width, source.height with
    | some w, some h =>
      if 2 ≤ w ∧ 2 ≤ h then .ok (even (min w maxDimension), even (min h maxDimension))
      else .ok fallbackSize
    | _, _ => .ok fallbackSize

/-- The window of the source to play. -/
def window (o : TransformOptions) (source : SourceInfo) : Except PlanningError (Int64 × Int64) :=
  let start := (o.trim.map TrimOptions.start).getD 0
  match o.trimEnd.or source.duration with
  | none => .error .unknownDuration
  | some stop =>
    if stop.toInt ≤ start.toInt then .error (.emptyWindow start stop)
    else match source.duration with
      | some d =>
        if d.toInt < stop.toInt then .error (.beyondSource stop d) else .ok (start, stop)
      | none => .ok (start, stop)

def segment (o : TransformOptions) (source : SourceInfo) (start stop : Int64) : Segment :=
  let speed := o.speed.getD 1
  let played := playedDuration start stop speed
  { id := "main"
    sourceId := some sourceId
    sourceSegmentId := none
    assetUrl := none
    trimStart := start
    trimEnd := stop
    sourceDuration := source.duration
    timelineStart := 0
    timelineEnd := played
    outputDuration := played
    speed := speed
    track := "video"
    layer := 0
    filters := o.filters
    transition := none }

def audioTracks (o : TransformOptions) (source : SourceInfo) (start stop : Int64) :
    List AudioTrack :=
  let audio := o.audio.getD .default
  let speed := o.speed.getD 1
  if !audio.mute && source.hasAudio = some true then
    [{ id := "source-audio"
       assetUrl := none
       sourceId := some sourceId
       trimStart := start
       trimEnd := stop
       timelineStart := 0
       timelineEnd := some (playedDuration start stop speed)
       volume := audio.volume.getD 1
       fadeIn := audio.fadeIn.getD 0
       fadeOut := audio.fadeOut.getD 0
       speed := speed
       track := "source" }]
  else []

/-- The plan of a transform of the source at `url`, under a given id. -/
def toPlan (o : TransformOptions) (id url : String) (source : SourceInfo) :
    Except PlanningError Plan :=
  match o.violations with
  | v :: vs => .error (.violations (v :: vs))
  | [] =>
    if Text.isBlankText url then .error .blankSource
    else do
      let (start, stop) ← o.window source
      let (width, height) ← o.frameSize source
      let container := Container.ofPath? url
      return {
        id := id
        projectId := none
        defaultUrl := some url
        sources := [{
          id := sourceId
          url := url
          width := source.width
          height := source.height
          container := container
          duration := source.duration }]
        format := { OutputFormat.ofSize width height with
          container := (o.format.or container).getD .mp4
          quality := o.quality }
        timeline := [o.segment source start stop]
        audioTracks := o.audioTracks source start stop
        textOverlays := []
        summary := none }

end TransformOptions

end RenderGateway
