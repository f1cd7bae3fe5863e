import RenderGateway.Plan.Asset
import RenderGateway.Json.Decoder

/-!
# Capabilities

The processing features that a plan needs. What is not known of a source is
taken to differ from the output, so that it needs the feature.
-/

namespace RenderGateway

inductive Capability
  | trim
  | speedChange
  | resize
  | formatConvert
  | segmentReplace
  | audioMux
  | audioFade
  | advancedFilters
  | overlay
  | transition
  | textOverlay
deriving DecidableEq, Repr

namespace Capability

def all : List Capability :=
  [trim, speedChange, resize, formatConvert, segmentReplace, audioMux, audioFade,
   advancedFilters, overlay, transition, textOverlay]

def name : Capability → String
  | trim => "trim"
  | speedChange => "speed_change"
  | resize => "resize"
  | formatConvert => "format_convert"
  | segmentReplace => "segment_replace"
  | audioMux => "audio_mux"
  | audioFade => "audio_fade"
  | advancedFilters => "advanced_filters"
  | overlay => "overlay"
  | transition => "transition"
  | textOverlay => "text_overlay"

def ofName? (s : String) : Option Capability := all.find? fun c => c.name = s

def toJson (c : Capability) : Json := .text c.name

def decoder : Json.Decoder Capability := Json.Decoder.name ofName?

/-- The members of a list, once each and in the order of declaration. -/
def ordered (cs : List Capability) : List Capability := all.filter fun c => c ∈ cs

theorem mem_all (c : Capability) : c ∈ all := by cases c <;> decide

theorem mem_ordered {c : Capability} {cs : List Capability} : c ∈ ordered cs ↔ c ∈ cs := by
  simp [ordered, mem_all]

end Capability

namespace Segment

def trimsSource (s : Segment) : Bool :=
  0 < s.trimStart.toInt || match s.sourceDuration with
    | some d => s.trimEnd.toInt < d.toInt
    | none => true

end Segment

namespace Plan

def keepsSize (p : Plan) (s : Segment) : Bool :=
  match p.segmentSource s with
  | some { width := some w, height := some h, .. } => w = p.format.width && h = p.format.height
  | _ => false

/-- The container of a segment's asset, declared or else suggested by its url. -/
def sourceContainer (p : Plan) (s : Segment) : Option Container :=
  match (p.segmentSource s).bind Source.container with
  | some c => some c
  | none => (p.segmentAsset s).bind Container.ofPath?

/-- Whether a segment above the base shares its time with one of the base. -/
def overlapsBase (p : Plan) : Bool :=
  p.layerSegments.any fun upper => p.baseSegments.any fun base => upper.overlaps base

def requires (p : Plan) : Capability → Bool
  | .trim => p.timeline.any fun s => s.trimsSource
  | .speedChange =>
    p.timeline.any (fun s => s.changesSpeed) || p.audioTracks.any fun t => t.changesSpeed
  | .resize => p.timeline.any fun s => !p.keepsSize s
  | .formatConvert => p.timeline.any fun s => p.sourceContainer s ≠ some p.format.container
  | .segmentReplace => 1 < p.baseSegments.length
  | .audioMux => !p.audioTracks.isEmpty
  | .audioFade => p.audioTracks.any fun t => t.hasFade
  | .advancedFilters => p.timeline.any fun s => !s.filters.isEmpty
  | .overlay => p.overlapsBase
  | .transition => p.timeline.any fun s => s.transition.isSome
  | .textOverlay => !p.textOverlays.isEmpty

/-- The capabilities that a plan needs, in the order of declaration. -/
def requiredCapabilities (p : Plan) : List Capability := Capability.all.filter p.requires

theorem mem_requiredCapabilities {p : Plan} {c : Capability} :
    c ∈ p.requiredCapabilities ↔ p.requires c = true := by
  simp [requiredCapabilities, Capability.mem_all]

end Plan

end RenderGateway
