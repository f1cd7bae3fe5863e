import RenderGateway.Text.Basic

/-!
# Output formats

Containers, codecs, quality tiers, and the format that a plan asks for.
-/

namespace RenderGateway

inductive Container
  | mp4
  | webm
  | mov
deriving DecidableEq, Repr

namespace Container

def all : List Container := [mp4, webm, mov]

def name : Container → String
  | mp4 => "mp4"
  | webm => "webm"
  | mov => "mov"

def ofName? (s : String) : Option Container := all.find? fun c => c.name = s

def extension (c : Container) : String := c.name

def mimeType : Container → String
  | mp4 => "video/mp4"
  | webm => "video/webm"
  | mov => "video/quicktime"

def ofExtension? (ext : String) : Option Container :=
  if ext = "mp4" ∨ ext = "m4v" then some mp4
  else if ext = "webm" then some webm
  else if ext = "mov" ∨ ext = "qt" then some mov
  else none

/-- The container that the name of a file or the path of a url suggests; a query
and a fragment do not count. -/
def ofPath? (path : String) : Option Container :=
  let path := path.toList.takeWhile fun c => c ≠ '?' ∧ c ≠ '#'
  (Text.splitLast? '.' path).bind fun (_, ext) => ofExtension? (Text.lower (String.ofList ext))

end Container

inductive Codec
  | h264
  | hevc
  | vp9
deriving DecidableEq, Repr

namespace Codec

def all : List Codec := [h264, hevc, vp9]

def name : Codec → String
  | h264 => "h264"
  | hevc => "hevc"
  | vp9 => "vp9"

def ofName? (s : String) : Option Codec := all.find? fun c => c.name = s

def title : Codec → String
  | h264 => "H264"
  | hevc => "Hevc"
  | vp9 => "Vp9"

/-- Whether the codec can be written into the container. -/
def fits : Codec → Container → Bool
  | vp9, container => container ≠ .mov
  | h264, container | hevc, container => container ≠ .webm

end Codec

inductive Quality
  | low
  | medium
  | high
deriving DecidableEq, Repr

namespace Quality

def all : List Quality := [low, medium, high]

def name : Quality → String
  | low => "low"
  | medium => "medium"
  | high => "high"

def ofName? (s : String) : Option Quality := all.find? fun q => q.name = s

/-- A quality as people type it, in any letter case and with blanks around it. -/
def ofText (s : String) : Except String Quality :=
  let word := Text.lower (Text.trim s)
  match ofName? word with
  | some q => .ok q
  | none => .error s!"unknown quality '{word}'"

end Quality

structure OutputFormat where
  container : Container
  width : UInt32
  height : UInt32
  fps : UInt32
  videoBitrate : Option String
  audioBitrate : String
  codecHint : Option Codec
  quality : Option Quality
deriving DecidableEq, Repr

namespace OutputFormat

def defaultFps : UInt32 := 30

def defaultAudioBitrate : String := "128k"

/-- The default format of a frame size. -/
def ofSize (width height : UInt32) : OutputFormat where
  container := .mp4
  width := width
  height := height
  fps := defaultFps
  videoBitrate := none
  audioBitrate := defaultAudioBitrate
  codecHint := none
  quality := none

/-- The codec asked for, else the natural one of the container. -/
def codec (f : OutputFormat) : Codec :=
  f.codecHint.getD (match f.container with
    | .webm => .vp9
    | .mp4 | .mov => .h264)

end OutputFormat

end RenderGateway
