import RenderGateway.Graph.Basic
import RenderGateway.Engine
import RenderGateway.Plan.Check

/-!
# The graph of a plan

Every segment and every track gets a chain of its own. The base segments are
joined, the segments above them are laid on in the order of their layers, and
the texts are drawn last, in the order of their times. The tracks are mixed; a
plan without tracks gets silence.
-/

namespace RenderGateway

/-- Why a plan has no graph. -/
inductive CompileError
  | noDuration
  | segmentWithoutAsset (id : String)
  | noBaseSegment
  | overlaySyntax (id : String) (issue : Issue)
  | trackWithoutAsset (id : String)
deriving DecidableEq, Repr

namespace CompileError

def message : CompileError → String
  | noDuration => "plan has no base-layer duration"
  | segmentWithoutAsset id => s!"segment '{id}' has no asset"
  | noBaseSegment => "plan has no base-layer segment"
  | overlaySyntax id issue => s!"text overlay '{id}' {issue.path}: {issue.message}"
  | trackWithoutAsset id => s!"audio track '{id}' has no asset"

end CompileError

namespace Segment

open RenderGateway.Graph

/-- Trim, clock, frame, rate, effects and fade of a segment. A segment above the
base is moved to its time, so that compositing finds it there. -/
def chain (s : Segment) (f : OutputFormat) : List Filter :=
  let shift := if s.isBase then none else some s.timelineStart.toInt
  [.trim s.trimStart.toInt s.trimEnd.toInt,
   .retime (if s.changesSpeed then some s.speed else none) shift] ++
  fitFrame f.width f.height ++ [.frameRate f.fps] ++ s.filters.map .effect ++
  (match s.transition with
    | some t => [.fadeIn (shift.getD 0) t.duration.toInt]
    | none => [])

end Segment

namespace AudioTrack

open RenderGateway.Graph

def fadeChain (t : AudioTrack) : List Filter :=
  (if 0 < t.fadeIn.toInt then [.audioFadeIn t.fadeIn.toInt] else []) ++
  (if 0 < t.fadeOut.toInt then
    [.audioFadeOut (max 0 (Word.wrap (t.outputDuration.toInt - t.fadeOut.toInt))) t.fadeOut.toInt]
   else [])

/-- Trim, format, tempo, volume, fades and delay of a track. -/
def chain (t : AudioTrack) : List Filter :=
  [.audioTrim t.trimStart.toInt t.trimEnd.toInt, .audioRestart, .audioFormat] ++
  (tempoStages t.speed).map .tempo ++ [.volume t.volume] ++ t.fadeChain ++
  (if 0 < t.timelineStart.toInt then [.delay t.timelineStart.toInt] else [])

end AudioTrack

namespace Graph

/-- The inputs with an asset among them, and its index there. -/
def withInput (inputs : List String) (asset : String) : List String × Nat :=
  match inputs.findIdx? fun a => a = asset with
  | some i => (inputs, i)
  | none => (inputs ++ [asset], inputs.length)

/-- The nodes of items that each read one stream of their asset, from an index on,
and the inputs after them. A node is made of its item, index and input. -/
def streamNodes (asset? : α → Option String) (missing : α → CompileError)
    (node : α → Nat → Nat → Node) (inputs : List String) (index : Nat) :
    List α → Except CompileError (List String × List Node)
  | [] => .ok (inputs, [])
  | a :: rest =>
    match asset? a with
    | none => .error (missing a)
    | some asset => do
      let (inputs, k) := withInput inputs asset
      let (inputs, nodes) ← streamNodes asset? missing node inputs (index + 1) rest
      return (inputs, node a index k :: nodes)

def segmentNode (f : OutputFormat) (s : Segment) (index input : Nat) : Node :=
  ⟨[.video input], s.chain f, .segment index⟩

def trackNode (t : AudioTrack) (index input : Nat) : Node := ⟨[.audio input], t.chain, .track index⟩

/-- The chains of the segments from an index on, and the inputs after them. -/
def segmentNodes (p : Plan) : List String → Nat → List Segment →
    Except CompileError (List String × List Node) :=
  streamNodes p.segmentAsset (fun s => .segmentWithoutAsset s.id) (segmentNode p.format)

/-- The chains of the tracks from an index on, and the inputs after them. -/
def trackNodes (p : Plan) : List String → Nat → List AudioTrack →
    Except CompileError (List String × List Node) :=
  streamNodes p.audioAsset (fun t => .trackWithoutAsset t.id) trackNode

/-- The labels of the base segments, in timeline order. -/
def baseLabels (p : Plan) : List Label :=
  (p.timeline.zipIdx.filter fun (s, _) => s.isBase).map fun (_, i) => .segment i

/-- The segments above the base with their indices, the lower layers first. -/
def upperSegments (p : Plan) : List (Segment × Nat) :=
  (p.timeline.zipIdx.filter fun (s, _) => !s.isBase).mergeSort fun a b => a.1.layer ≤ b.1.layer

/-- The texts in the order in which they are drawn. -/
def orderedTexts (p : Plan) : List TextOverlay :=
  p.textOverlays.mergeSort fun a b => a.timelineStart.toInt ≤ b.timelineStart.toInt

/-- The label of the joined base, and the node that joins it if one is needed. -/
def joinBase : List Label → Except CompileError (Label × List Node)
  | [] => .error .noBaseSegment
  | [l] => .ok (l, [])
  | labels => .ok (.base, [⟨labels.map .output, [.concat labels.length], .base⟩])

/-- The label before step `k` of a sequence of steps that begins at `first`. -/
def stepInput (first : Label) (step : Nat → Label) : Nat → Label
  | 0 => first
  | k + 1 => step k

def compositeNode (first : Label) (k : Nat) (upper : Segment × Nat) : Node :=
  ⟨[.output (stepInput first .composite k), .output (.segment upper.2)],
   [.overlay upper.1.timelineStart.toInt upper.1.timelineEnd.toInt], .composite k⟩

def captionNode (first : Label) (k : Nat) (o : TextOverlay) : Node :=
  ⟨[.output (stepInput first .caption k)], [.drawText o], .caption k⟩

/-- The first text that could leave its node. -/
def syntaxError? (texts : List TextOverlay) : Option CompileError :=
  texts.findSome? fun o => o.syntaxIssues.head?.map (.overlaySyntax o.id)

/-- The node of the sound: the mix of all tracks, or silence, cut to a length. -/
def soundNode (tracks : Nat) (duration : Int) : Node :=
  if tracks = 0 then ⟨[], [.silence, .audioEnd duration], .sound⟩
  else
    ⟨(List.range tracks).map fun j => .output (.track j),
     [.mix tracks, .audioPad, .audioEnd duration, .audioRestart], .sound⟩

def ofPlan (p : Plan) : Except CompileError Graph :=
  let duration := p.outputDuration
  if duration ≤ 0 then .error .noDuration
  else do
    let (inputs, segments) ← segmentNodes p [] 0 p.timeline
    let (bottom, join) ← joinBase (baseLabels p)
    let upper := upperSegments p
    let composites := upper.mapIdx (compositeNode bottom)
    let composed := stepInput bottom .composite upper.length
    let texts := orderedTexts p
    match syntaxError? texts with
    | some e => .error e
    | none => do
      let captions := texts.mapIdx (captionNode composed)
      let (inputs, tracks) ← trackNodes p inputs 0 p.audioTracks
      return {
        inputs
        nodes := segments ++ join ++ composites ++ captions ++ tracks ++
          [soundNode p.audioTracks.length duration]
        picture := stepInput composed .caption texts.length
        duration }

end Graph

end RenderGateway
