import RenderGateway.Plan.Wire

/-!
# Encoder settings

Codec, rate control and container options for an output format. Quality picks
the rate factor unless the plan fixes a bitrate.
-/

namespace RenderGateway

structure Encoding where
  codec : String
  preset : Option String
  rateFactor : UInt8
  videoBitrate : Option String
  audioCodec : String
  audioBitrate : String
  fps : UInt32
  extraArgs : List String
deriving DecidableEq, Repr

namespace Quality

def preset : Quality → String
  | high => "slow"
  | medium => "medium"
  | low => "veryfast"

/-- The rate factor of a codec; lower is better. -/
def rateFactor : Quality → Codec → UInt8
  | high, .h264 => 18
  | medium, .h264 => 23
  | low, .h264 => 28
  | high, .hevc => 23
  | medium, .hevc => 28
  | low, .hevc => 33
  | high, .vp9 => 24
  | medium, .vp9 => 32
  | low, .vp9 => 40

end Quality

namespace Codec

def encoder : Codec → String
  | h264 => "libx264"
  | hevc => "libx265"
  | vp9 => "libvpx-vp9"

def takesPreset (c : Codec) : Bool := c ≠ vp9

end Codec

namespace Encoding

def containerArgs (container : Container) (codec : Codec) : List String :=
  match container with
  | .webm => ["-row-mt", "1"]
  | .mp4 | .mov =>
    ["-movflags", "+faststart"] ++ if codec = .hevc then ["-tag:v", "hvc1"] else []

def ofFormat (f : OutputFormat) (quality : Quality) : Encoding where
  codec := f.codec.encoder
  preset := if f.codec.takesPreset then some quality.preset else none
  rateFactor := quality.rateFactor f.codec
  videoBitrate := f.videoBitrate
  audioCodec := match f.container with
    | .webm => "libopus"
    | .mp4 | .mov => "aac"
  audioBitrate := f.audioBitrate
  fps := f.fps
  extraArgs := ["-pix_fmt", "yuv420p"] ++ containerArgs f.container f.codec

/-- A fixed bitrate, or a rate factor. VP9 keeps constant quality only with an
explicit bitrate of zero. -/
def rateArgs (e : Encoding) : List String :=
  match e.videoBitrate with
  | some bitrate => ["-b:v", bitrate]
  | none =>
    ["-crf", toString e.rateFactor] ++ if e.codec = Codec.vp9.encoder then ["-b:v", "0"] else []

def args (e : Encoding) : List String :=
  ["-c:v", e.codec] ++
  (match e.preset with
    | some preset => ["-preset", preset]
    | none => []) ++
  e.rateArgs ++
  ["-r", toString e.fps, "-c:a", e.audioCodec, "-b:a", e.audioBitrate] ++ e.extraArgs

open Json Json.Decoder

def toJson (e : Encoding) : Json :=
  .object [("codec", .text e.codec),
    ("preset", ofOption .text e.preset),
    ("crf", ofUInt8 e.rateFactor),
    ("video_bitrate", ofOption .text e.videoBitrate),
    ("audio_codec", .text e.audioCodec),
    ("audio_bitrate", .text e.audioBitrate),
    ("fps", ofUInt32 e.fps),
    ("extra_args", texts e.extraArgs)]

def decoder : Decoder Encoding :=
  record ["codec", "preset", "crf", "video_bitrate", "audio_codec", "audio_bitrate", "fps",
      "extra_args"] fun r => do
    let codec ← r.required "codec" string
    let preset ← r.mentioned "preset" string
    let rateFactor ← r.required "crf" uint8
    let videoBitrate ← r.mentioned "video_bitrate" string
    let audioCodec ← r.required "audio_codec" string
    let audioBitrate ← r.required "audio_bitrate" string
    let fps ← r.required "fps" uint32
    let extraArgs ← r.required "extra_args" (list string)
    return { codec, preset, rateFactor, videoBitrate, audioCodec, audioBitrate, fps, extraArgs }

end Encoding

end RenderGateway
