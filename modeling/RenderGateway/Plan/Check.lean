import RenderGateway.Number.Decimal
import RenderGateway.Plan.Asset
import RenderGateway.Plan.Wire

/-!
# Checking a plan

A plan is renderable when its format can be written, its timeline is an ordered
sequence of windows that agree with their trims, its tracks and overlays are in
range, and no text of an overlay can leave its place in the filter graph. The
check lists every issue with the path of the value at fault. A gap in the base
layer is only a warning: the base segments are joined.
-/

namespace RenderGateway

/-- One problem in a plan and where it is. -/
structure Issue where
  path : String
  message : String
deriving DecidableEq, Repr

namespace Issue

open Json Json.Decoder

def toJson (i : Issue) : Json := .object [("path", .text i.path), ("message", .text i.message)]

def decoder : Decoder Issue :=
  record ["path", "message"] fun r => do
    let path ← r.required "path" string
    let message ← r.required "message" string
    return { path, message }

/-- The issue at a path, if the condition holds. -/
def report (condition : Bool) (path message : String) : List Issue :=
  if condition then [⟨path, message⟩] else []

@[simp] theorem report_eq_nil_iff {condition : Bool} {path message : String} :
    report condition path message = [] ↔ condition = false := by
  cases condition <;> simp [report]

end Issue

open Issue (report)

/-- How far a duration may be from the one that is expected. -/
def durationTolerance : Int := 1

def maxSpeed : Binary64 := 16

def maxVolume : Binary64 := 2

def maxDimension : UInt32 := 7680

def maxFps : UInt32 := 120

/-- The distance is that of words. -/
def offBy (actual expected : Int) : Bool :=
  durationTolerance < Word.magnitude (Word.wrap (actual - expected))

theorem offBy_eq_false_iff {actual expected : Int} : offBy actual expected = false ↔
    Word.magnitude (Word.wrap (actual - expected)) ≤ 1 := by
  rw [offBy, decide_eq_false_iff_not]
  exact Int.not_lt

def speedInRange (speed : Binary64) : Bool := 0 < speed && speed ≤ maxSpeed

theorem speedInRange_iff {speed : Binary64} :
    speedInRange speed = true ↔ 0 < speed ∧ speed ≤ 16 := by
  rw [speedInRange, Bool.and_eq_true, decide_eq_true_eq, decide_eq_true_eq]
  rfl

theorem volumeInRange_iff {volume : Binary64} :
    (decide (0 ≤ volume) && decide (volume ≤ maxVolume)) = true ↔ 0 ≤ volume ∧ volume ≤ 2 := by
  rw [Bool.and_eq_true, decide_eq_true_eq, decide_eq_true_eq]
  rfl

def speedMessage : String := s!"must be in (0, {maxSpeed.display}]"

def danglingMessage : String :=
  "dangling reference: no asset_url, known source_video_id or source_video_url"

namespace OutputFormat

def dimensionIssues (name : String) (value : UInt32) : List Issue :=
  if value = 0 ∨ maxDimension < value then
    [⟨s!"output_format.{name}", s!"must be between 1 and {maxDimension}"⟩]
  else report (value % 2 ≠ 0) s!"output_format.{name}" "must be even for yuv420p output"

def issues (f : OutputFormat) : List Issue :=
  dimensionIssues "width" f.width ++ dimensionIssues "height" f.height ++
  report (f.fps = 0 || maxFps < f.fps) "output_format.fps" "must be between 1 and 120" ++
  report (!f.codec.fits f.container) "output_format.codec_hint"
    s!"{f.codec.title} cannot be written to a {f.container.name} container"

end OutputFormat

namespace Segment

def sameLane (s t : Segment) : Bool := s.track = t.track && s.layer = t.layer

def trimIssues (s : Segment) (path : String → String) : List Issue :=
  report (s.trimStart.toInt < 0) (path "trim_start_ms") "must not be negative" ++
  report (s.trimEnd.toInt ≤ s.trimStart.toInt) (path "trim_end_ms")
    "must be after trim_start_ms" ++
  (match s.sourceDuration with
    | some d => report (d.toInt < s.trimEnd.toInt) (path "trim_end_ms")
        s!"exceeds source duration {d}ms"
    | none => [])

def speedIssues (s : Segment) (path : String → String) : List Issue :=
  if !speedInRange s.speed then [⟨path "speed_multiplier", speedMessage⟩]
  else if s.trimStart.toInt < s.trimEnd.toInt then
    let expected := playedDuration s.trimStart s.trimEnd s.speed
    report (offBy s.outputDuration.toInt expected.toInt) (path "output_duration_ms")
      s!"expected {expected}ms for the trim window at {s.speed.display}x"
  else []

def windowIssues (s : Segment) (path : String → String) : List Issue :=
  report (s.timelineStart.toInt < 0) (path "timeline_start_ms") "must not be negative" ++
  report (offBy (s.timelineEnd.toInt - s.timelineStart.toInt) s.outputDuration.toInt)
    (path "timeline_end_ms") "must equal timeline_start_ms + output_duration_ms"

/-- The place of a segment after the earlier ones, the nearest of which is first. -/
def orderIssues (s : Segment) (earlier : List Segment) (path : String → String) : List Issue :=
  (match earlier.head? with
    | some last => report (s.timelineStart.toInt < last.timelineStart.toInt)
        (path "timeline_start_ms") "timeline must be ordered by timeline_start_ms"
    | none => []) ++
  (match earlier.find? fun t => s.sameLane t with
    | some t => report (s.timelineStart.toInt < t.timelineEnd.toInt) (path "timeline_start_ms")
        s!"overlaps segment '{t.id}' on track '{s.track}' layer {s.layer}"
    | none => [])

def transitionIssues (s : Segment) (path : String → String) : List Issue :=
  match s.transition with
  | some t => report (t.duration.toInt ≤ 0 || s.outputDuration.toInt < t.duration.toInt)
      (path "transition_in.duration_ms") "must be positive and fit inside the segment"
  | none => []

/-- The index of the last earlier segment with the same id. -/
def duplicateOf? (s : Segment) (earlier : List Segment) : Option Nat :=
  (earlier.findIdx? fun t => t.id = s.id).map fun i => earlier.length - 1 - i

/-- The issues of a segment of a plan after the earlier ones, the nearest first. -/
def issues (p : Plan) (earlier : List Segment) (s : Segment) : List Issue :=
  let path (field : String) := s!"timeline[{earlier.length}].{field}"
  (match s.duplicateOf? earlier with
    | some i => [⟨path "segment_id", s!"duplicates timeline[{i}]"⟩]
    | none => []) ++
  report (p.segmentAsset s).isNone (path "asset_url") danglingMessage ++
  s.trimIssues path ++ s.speedIssues path ++ s.windowIssues path ++
  s.orderIssues earlier path ++ s.transitionIssues path

/-- The gap between a base segment and the base segment before it. -/
def warnings (earlier : List Segment) (s : Segment) : List String :=
  if s.isBase then
    match earlier.find? fun t => t.isBase with
    | some t =>
      if t.timelineEnd.toInt < s.timelineStart.toInt then
        let gap := Word.wrap (s.timelineStart.toInt - t.timelineEnd.toInt)
        [s!"gap of {gap}ms before segment '{s.id}' is closed by concatenation"]
      else []
    | none => []
  else []

end Segment

namespace AudioTrack

def fadeIssues (t : AudioTrack) (path : String → String) : List Issue :=
  if t.fadeIn.toInt < 0 ∨ t.fadeOut.toInt < 0 then
    [⟨path "fade_in_ms", "fades must not be negative"⟩]
  else
    report (0 < t.outputDuration.toInt &&
        t.outputDuration.toInt < Word.wrap (t.fadeIn.toInt + t.fadeOut.toInt))
      (path "fade_out_ms") "fade in + fade out exceed the track duration"

def endIssues (t : AudioTrack) (path : String → String) : List Issue :=
  match t.timelineEnd with
  | some e => report (offBy (e.toInt - t.timelineStart.toInt) t.outputDuration.toInt)
      (path "timeline_end_ms") s!"expected {t.outputDuration}ms after timeline_start_ms"
  | none => []

/-- The issues of the track at an index; one without a usable speed has no
length that fades and end could be held against. -/
def issues (p : Plan) (index : Nat) (t : AudioTrack) : List Issue :=
  let path (field : String) := s!"audio_tracks[{index}].{field}"
  report (p.audioAsset t).isNone (path "asset_url") danglingMessage ++
  report (t.trimStart.toInt < 0) (path "trim_start_ms") "must not be negative" ++
  report (t.trimEnd.toInt ≤ t.trimStart.toInt) (path "trim_end_ms")
    "must be after trim_start_ms" ++
  report (t.timelineStart.toInt < 0) (path "timeline_start_ms") "must not be negative" ++
  report (!(0 ≤ t.volume && t.volume ≤ maxVolume)) (path "volume")
    s!"must be between 0 and {maxVolume.display}" ++
  (if !speedInRange t.speed then [⟨path "speed_multiplier", speedMessage⟩]
   else t.fadeIssues path ++ t.endIssues path)

end AudioTrack

namespace TextOverlay

/-- Letters, digits and number signs of ASCII. -/
def isColorChar (c : Char) : Bool := c = '#' || c.isAlphanum

def isAlphaChar (c : Char) : Bool := c = '.' || c.isDigit

/-- A color name or `#RRGGBB`, with an opacity after an at sign if there is one. -/
def isColor (s : String) : Bool :=
  let (name, rest) := s.toList.span isColorChar
  name ≠ [] && match rest with
    | [] => true
    | '@' :: alpha => alpha ≠ [] && alpha.all isAlphaChar
    | _ => false

/-- The characters that end an option of a filter or open a node of the graph. -/
def graphSyntax : List Char := [';', '[', ']', ',', '\'', '\\']

def isExpression (s : String) : Bool :=
  !Text.isBlankText s && s.toList.all fun c => c ∉ graphSyntax

def expressionIssues (field : String) (value : Option String) : List Issue :=
  match value with
  | some s => report (!isExpression s) field
      "must be non-empty and free of ; [ ] , ' and backslashes"
  | none => []

/-- What in an overlay could leave its node of the filter graph. -/
def syntaxIssues (o : TextOverlay) : List Issue :=
  report (!isColor o.fontColor) "font_color"
    "must be a color name or #RRGGBB, optionally @alpha" ++
  (match o.background with
    | some b => report (!isColor b.color || b.color.toList.contains '@') "background.color"
        "must be a color name or #RRGGBB"
    | none => []) ++
  expressionIssues "x" o.x ++ expressionIssues "y" o.y ++ expressionIssues "font_file" o.fontFile

def issues (index : Nat) (o : TextOverlay) : List Issue :=
  let path (field : String) := s!"text_overlays[{index}].{field}"
  report (o.content = "") (path "content") "must not be empty" ++
  report (o.timelineStart.toInt < 0) (path "timeline_start_ms") "must not be negative" ++
  report (o.timelineEnd.toInt ≤ o.timelineStart.toInt) (path "timeline_end_ms")
    "must be after timeline_start_ms" ++
  report (o.fontSize = 0) (path "font_size") "must be positive" ++
  (match o.background with
    | some b => report (!(0 ≤ b.opacity && b.opacity ≤ 1)) (path "background.opacity")
        "must be between 0 and 1"
    | none => []) ++
  o.syntaxIssues.map fun i => { i with path := path i.path }

end TextOverlay

namespace Plan

/-- The issues of the segments that follow the earlier ones, the nearest first. -/
def timelineIssuesFrom (p : Plan) (earlier : List Segment) : List Segment → List Issue
  | [] => []
  | s :: rest => s.issues p earlier ++ p.timelineIssuesFrom (s :: earlier) rest

def timelineWarningsFrom (earlier : List Segment) : List Segment → List String
  | [] => []
  | s :: rest => s.warnings earlier ++ timelineWarningsFrom (s :: earlier) rest

def issues (p : Plan) : List Issue :=
  p.format.issues ++
  report p.baseSegments.isEmpty "timeline" "must contain at least one segment on layer 0" ++
  p.timelineIssuesFrom [] p.timeline ++
  (p.audioTracks.mapIdx fun i t => t.issues p i).flatten ++
  (p.textOverlays.mapIdx fun i o => o.issues i).flatten

def warnings (p : Plan) : List String := timelineWarningsFrom [] p.timeline

def summarize (p : Plan) : PlanSummary where
  segments := Word.ofNat p.timeline.length
  baseSegments := Word.ofNat p.baseSegments.length
  layerSegments := Word.ofNat p.layerSegments.length
  audioTracks := Word.ofNat p.audioTracks.length
  textOverlays := Word.ofNat p.textOverlays.length
  outputDuration := Word.clampInt64 p.outputDuration
  warnings := p.warnings

/-- The summary of a plan without issues, or else its issues. -/
def check (p : Plan) : Except (List Issue) PlanSummary :=
  match p.issues with
  | [] => .ok p.summarize
  | issues => .error issues

end Plan

end RenderGateway
