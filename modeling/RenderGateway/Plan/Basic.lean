import RenderGateway.Number.Arithmetic
import RenderGateway.Plan.Format

/-!
# Plans

A plan describes an edit: segments of source clips on a timeline, audio tracks
that are mixed, text drawn over the picture, and the format to write. Segments
of layer 0 are the base and follow each other; the segments above it are
composited at their time. Times are milliseconds.
-/

namespace RenderGateway

/-- What is known of a source file. -/
structure Source where
  id : String
  url : String
  width : Option UInt32
  height : Option UInt32
  container : Option Container
  duration : Option Int64
deriving DecidableEq, Repr

inductive VideoFilter
  | grayscale
  | blur (sigma : Binary64)
  | sharpen
  | brightness (value : Binary64)
  | contrast (value : Binary64)
  | saturation (value : Binary64)
deriving DecidableEq, Repr

inductive TransitionKind
  | fade
deriving DecidableEq, Repr

namespace TransitionKind

def name : TransitionKind → String
  | fade => "fade"

def ofName? (s : String) : Option TransitionKind := if s = "fade" then some fade else none

end TransitionKind

/-- A transition into a segment. -/
structure Transition where
  kind : TransitionKind
  duration : Int64
deriving DecidableEq, Repr

/-- The length of a trimmed window at a speed, rounded to the millisecond. -/
def playedDuration (trimStart trimEnd : Int64) (speed : Binary64) : Int64 :=
  (Binary64.ofInt (Word.wrap (trimEnd.toInt - trimStart.toInt)) / speed).roundToInt64

structure Segment where
  id : String
  sourceId : Option String
  sourceSegmentId : Option String
  assetUrl : Option String
  trimStart : Int64
  trimEnd : Int64
  sourceDuration : Option Int64
  timelineStart : Int64
  timelineEnd : Int64
  outputDuration : Int64
  speed : Binary64
  track : String
  layer : UInt32
  filters : List VideoFilter
  transition : Option Transition
deriving DecidableEq, Repr

namespace Segment

def isBase (s : Segment) : Bool := s.layer = 0

def changesSpeed (s : Segment) : Bool := s.speed.differsFromOne

/-- Whether two segments share some of the timeline. -/
def overlaps (s t : Segment) : Bool :=
  s.timelineStart.toInt < t.timelineEnd.toInt && t.timelineStart.toInt < s.timelineEnd.toInt

end Segment

structure AudioTrack where
  id : String
  assetUrl : Option String
  sourceId : Option String
  trimStart : Int64
  trimEnd : Int64
  timelineStart : Int64
  timelineEnd : Option Int64
  volume : Binary64
  fadeIn : Int64
  fadeOut : Int64
  speed : Binary64
  track : String
deriving DecidableEq, Repr

namespace AudioTrack

def outputDuration (t : AudioTrack) : Int64 := playedDuration t.trimStart t.trimEnd t.speed

def hasFade (t : AudioTrack) : Bool := 0 < t.fadeIn.toInt || 0 < t.fadeOut.toInt

def changesSpeed (t : AudioTrack) : Bool := t.speed.differsFromOne

end AudioTrack

inductive TextPosition
  | top
  | center
  | bottom
deriving DecidableEq, Repr

namespace TextPosition

def all : List TextPosition := [top, center, bottom]

def name : TextPosition → String
  | top => "top"
  | center => "center"
  | bottom => "bottom"

def ofName? (s : String) : Option TextPosition := all.find? fun p => p.name = s

end TextPosition

/-- The box behind a text. -/
structure TextBackground where
  color : String
  opacity : Binary64
  padding : UInt32
deriving DecidableEq, Repr

structure TextOverlay where
  id : String
  content : String
  timelineStart : Int64
  timelineEnd : Int64
  fontSize : UInt32
  fontColor : String
  fontFile : Option String
  position : TextPosition
  x : Option String
  y : Option String
  background : Option TextBackground
deriving DecidableEq, Repr

/-- What a check of a plan found in it. -/
structure PlanSummary where
  segments : UInt64
  baseSegments : UInt64
  layerSegments : UInt64
  audioTracks : UInt64
  textOverlays : UInt64
  outputDuration : Int64
  warnings : List String
deriving DecidableEq, Repr

structure Plan where
  id : String
  projectId : Option String
  defaultUrl : Option String
  sources : List Source
  format : OutputFormat
  timeline : List Segment
  audioTracks : List AudioTrack
  textOverlays : List TextOverlay
  summary : Option PlanSummary
deriving DecidableEq, Repr

namespace Plan

def baseSegments (p : Plan) : List Segment := p.timeline.filter fun s => s.isBase

def layerSegments (p : Plan) : List Segment := p.timeline.filter fun s => !s.isBase

/-- The lengths of the base segments, one after the other. -/
def joinedDuration (p : Plan) : Int :=
  (p.baseSegments.map fun s => max 0 s.outputDuration.toInt).foldr (· + ·) 0

/-- The length of the rendered file, as far as a word holds it. -/
def outputDuration (p : Plan) : Int := Word.wrap p.joinedDuration

/-- The places of segments that overlap, each pair once and in order. -/
def overlappingPairs (p : Plan) : List (Nat × Nat) :=
  let indexed := p.timeline.zipIdx
  indexed.flatMap fun (s, i) =>
    (indexed.filter fun (t, k) => i < k ∧ s.overlaps t).map fun (_, k) => (i, k)

end Plan

end RenderGateway
