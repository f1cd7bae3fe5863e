import RenderGateway.Graph.DrawText

/-!
# Filters

The filters that a compiled graph is made of, each with its text. Times are
milliseconds.
-/

namespace RenderGateway

open RenderGateway.Graph

namespace VideoFilter

/-- The filter expression of a visual effect. -/
def expression : VideoFilter → String
  | grayscale => "hue=s=0"
  | blur sigma => "gblur=sigma=" ++ factor sigma
  | sharpen => "unsharp=5:5:1.0:5:5:0.0"
  | brightness value => "eq=brightness=" ++ factor value
  | contrast value => "eq=contrast=" ++ factor value
  | saturation value => "eq=saturation=" ++ factor value

end VideoFilter

namespace Graph

inductive Filter
  /-- Keeps the frames of a window of the source. -/
  | trim (start stop : Int)
  /-- Starts the clock anew, divides it by a speed and moves it by a shift. -/
  | retime (speed : Option Binary64) (shift : Option Int)
  | fit (width height : UInt32)
  | pad (width height : UInt32)
  | squarePixels
  | frameRate (fps : UInt32)
  | effect (filter : VideoFilter)
  | fadeIn (start duration : Int)
  | concat (count : Nat)
  /-- Lays a picture over another within a window. -/
  | overlay (start stop : Int)
  | drawText (caption : TextOverlay)
  | audioTrim (start stop : Int)
  | audioRestart
  | audioFormat
  | tempo (stage : Binary64)
  | volume (level : Binary64)
  | audioFadeIn (duration : Int)
  | audioFadeOut (start duration : Int)
  | delay (duration : Int)
  | silence
  | mix (count : Nat)
  | audioPad
  | audioEnd (stop : Int)
deriving DecidableEq, Repr

namespace Filter

def sizeText (width height : UInt32) : String := toString width ++ ":" ++ toString height

/-- The presentation time of a frame after a retiming. -/
def clockText (speed : Option Binary64) (shift : Option Int) : String :=
  (match speed with
    | some s => "(PTS-STARTPTS)/" ++ factor s
    | none => "PTS-STARTPTS") ++
  (match shift with
    | some ms => "+" ++ seconds ms ++ "/TB"
    | none => "")

def text : Filter → String
  | trim start stop => "trim=start=" ++ seconds start ++ ":end=" ++ seconds stop
  | retime speed shift => "setpts=" ++ clockText speed shift
  | fit width height =>
    "scale=" ++ sizeText width height ++ ":force_original_aspect_ratio=decrease"
  | pad width height => "pad=" ++ sizeText width height ++ ":(ow-iw)/2:(oh-ih)/2"
  | squarePixels => "setsar=1"
  | frameRate fps => "fps=" ++ toString fps
  | effect filter => filter.expression
  | fadeIn start duration => "fade=t=in:st=" ++ seconds start ++ ":d=" ++ seconds duration
  | concat count => "concat=n=" ++ toString count ++ ":v=1:a=0"
  | overlay start stop => "overlay=eof_action=pass:" ++ (enableOption start stop).text
  | drawText caption => caption.drawText
  | audioTrim start stop => "atrim=start=" ++ seconds start ++ ":end=" ++ seconds stop
  | audioRestart => "asetpts=PTS-STARTPTS"
  | audioFormat => "aformat=sample_fmts=fltp:sample_rates=48000:channel_layouts=stereo"
  | tempo stage => "atempo=" ++ factor stage
  | volume level => "volume=" ++ factor level
  | audioFadeIn duration => "afade=t=in:st=0:d=" ++ seconds duration
  | audioFadeOut start duration =>
    "afade=t=out:st=" ++ seconds start ++ ":d=" ++ seconds duration
  | delay duration => "adelay=" ++ toString duration ++ ":all=1"
  | silence => "anullsrc=channel_layout=stereo:sample_rate=48000"
  | mix count =>
    "amix=inputs=" ++ toString count ++ ":duration=longest:dropout_transition=0:normalize=0"
  | audioPad => "apad"
  | audioEnd stop => "atrim=end=" ++ seconds stop

end Filter

/-- Filters in sequence. -/
def chainText (chain : List Filter) : String := ",".intercalate (chain.map Filter.text)

/-- Scales into a frame without distortion and fills up the rest. -/
def fitFrame (width height : UInt32) : List Filter :=
  [.fit width height, .pad width height, .squarePixels]

end Graph

end RenderGateway
