import RenderGateway.Plan.Wire
import RenderGateway.Plan.Check

/-!
# Transform requests

A transform trims, retimes, resizes and filters one source. Its options are
checked field by field; the order of a trim window is only looked at when both
of its ends are in range.
-/

namespace RenderGateway

structure TrimOptions where
  start : Int64
  stop : Option Int64
deriving DecidableEq, Repr

structure ResizeOptions where
  width : UInt32
  height : UInt32
deriving DecidableEq, Repr

structure AudioOptions where
  mute : Bool
  volume : Option Binary64
  fadeIn : Option Int64
  fadeOut : Option Int64
deriving DecidableEq, Repr

structure TransformOptions where
  trim : Option TrimOptions
  speed : Option Binary64
  resize : Option ResizeOptions
  filters : List VideoFilter
  audio : Option AudioOptions
  format : Option Container
  quality : Option Quality
deriving DecidableEq, Repr

/-- An option out of range: its path, the rule it breaks, and the message of the
rule if it has one. -/
structure Violation where
  field : String
  rule : String
  message : Option String
deriving DecidableEq, Repr

namespace Violation

def range (ok : Bool) (field : String) : List Violation :=
  if ok then [] else [⟨field, "range", none⟩]

def text (v : Violation) : String :=
  match v.message with
  | some message => s!"{v.field}: {message}"
  | none => s!"{v.field}: Validation error: {v.rule}"

end Violation

open Violation (range)

/-- An optional value passes a test that it is there to fail. -/
def absentOr (test : α → Bool) : Option α → Bool
  | none => true
  | some a => test a

namespace TrimOptions

def fieldViolations (t : TrimOptions) : List Violation :=
  range (absentOr (fun e => 1 ≤ e.toInt) t.stop) "trim.end_ms" ++
  range (0 ≤ t.start.toInt) "trim.start_ms"

def windowViolations (t : TrimOptions) : List Violation :=
  if absentOr (fun e => t.start.toInt < e.toInt) t.stop then []
  else [⟨"trim.__all__", "trim_window", some "trim.endMs must be greater than trim.startMs"⟩]

def violations (t : TrimOptions) : List Violation :=
  match t.fieldViolations with
  | [] => t.windowViolations
  | violations => violations

end TrimOptions

namespace ResizeOptions

def inRange (edge : UInt32) : Bool := 2 ≤ edge && edge ≤ maxDimension

def violations (r : ResizeOptions) : List Violation :=
  range (inRange r.height) "resize.height" ++ range (inRange r.width) "resize.width"

end ResizeOptions

namespace AudioOptions

def default : AudioOptions := ⟨false, none, none, none⟩

/-- A range with its ends rejects what lies beyond one of them, so that it passes what is no
number. -/
def volumePasses (volume : Binary64) : Bool := !(volume < 0) && !(maxVolume < volume)

def violations (a : AudioOptions) : List Violation :=
  range (absentOr (fun f => 0 ≤ f.toInt) a.fadeIn) "audio.fade_in_ms" ++
  range (absentOr (fun f => 0 ≤ f.toInt) a.fadeOut) "audio.fade_out_ms" ++
  range (absentOr volumePasses a.volume) "audio.volume"

end AudioOptions

namespace TransformOptions

def default : TransformOptions := ⟨none, none, none, [], none, none, none⟩

/-- Every violation, in the order of the fields' names. -/
def violations (o : TransformOptions) : List Violation :=
  (o.audio.map AudioOptions.violations).getD [] ++
  (o.resize.map ResizeOptions.violations).getD [] ++
  range (absentOr speedInRange o.speed) "speed" ++
  (o.trim.map TrimOptions.violations).getD []

def trimEnd (o : TransformOptions) : Option Int64 := o.trim.bind TrimOptions.stop

def isMuted (o : TransformOptions) : Bool := (o.audio.map AudioOptions.mute).getD false

/-- Whether the plan depends on what only a probe of the source can tell. -/
def needsProbe (o : TransformOptions) : Bool :=
  o.trimEnd.isNone || o.resize.isNone || !o.isMuted

end TransformOptions

open Json Json.Decoder

namespace TrimOptions

def toJson (t : TrimOptions) : Json := .object <|
  ("startMs", ofInt64 t.start) :: optionalField "endMs" ofInt64 t.stop

def decoder : Decoder TrimOptions :=
  record ["startMs", "endMs"] fun r => do
    let start ← r.withDefault "startMs" 0 int64
    let stop ← r.optional "endMs" int64
    return { start, stop }

end TrimOptions

namespace ResizeOptions

def toJson (r : ResizeOptions) : Json :=
  .object [("width", ofUInt32 r.width), ("height", ofUInt32 r.height)]

def decoder : Decoder ResizeOptions :=
  record ["width", "height"] fun r => do
    let width ← r.required "width" uint32
    let height ← r.required "height" uint32
    return { width, height }

end ResizeOptions

namespace AudioOptions

def toJson (a : AudioOptions) : Json := .object <|
  ("mute", .bool a.mute) :: optionalField "volume" ofBinary64 a.volume ++
  optionalField "fadeInMs" ofInt64 a.fadeIn ++ optionalField "fadeOutMs" ofInt64 a.fadeOut

def decoder : Decoder AudioOptions :=
  record ["mute", "volume", "fadeInMs", "fadeOutMs"] fun r => do
    let mute ← r.withDefault "mute" false boolean
    let volume ← r.optional "volume" binary64
    let fadeIn ← r.optional "fadeInMs" int64
    let fadeOut ← r.optional "fadeOutMs" int64
    return { mute, volume, fadeIn, fadeOut }

end AudioOptions

namespace TransformOptions

def toJson (o : TransformOptions) : Json := .object <|
  optionalField "trim" TrimOptions.toJson o.trim ++
  optionalField "speed" ofBinary64 o.speed ++
  optionalField "resize" ResizeOptions.toJson o.resize ++
  nonEmptyField "filters" VideoFilter.toJson o.filters ++
  optionalField "audio" AudioOptions.toJson o.audio ++
  optionalField "format" Container.toJson o.format ++
  optionalField "quality" Quality.toJson o.quality

def decoder : Decoder TransformOptions :=
  record ["trim", "speed", "resize", "filters", "audio", "format", "quality"] fun r => do
    let trim ← r.optional "trim" TrimOptions.decoder
    let speed ← r.optional "speed" binary64
    let resize ← r.optional "resize" ResizeOptions.decoder
    let filters ← r.withDefault "filters" [] (list VideoFilter.decoder)
    let audio ← r.optional "audio" AudioOptions.decoder
    let format ← r.optional "format" Container.decoder
    let quality ← r.optional "quality" Quality.decoder
    return { trim, speed, resize, filters, audio, format, quality }

end TransformOptions

end RenderGateway
