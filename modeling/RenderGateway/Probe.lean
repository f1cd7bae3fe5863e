import RenderGateway.Json.Reader
import RenderGateway.Media
import RenderGateway.Transform.Planning

/-!
# Inspecting sources

The report of a media prober, read for the first video stream, and the version
of an encoder from its banner.
-/

namespace RenderGateway

/-- What a tool printed and how it exited. -/
structure ToolRun where
  stdout : String
  stderr : String
  exitCode : Int
deriving DecidableEq, Repr

structure VideoInfo where
  duration : Option Int64
  width : UInt32
  height : UInt32
  fps : Binary64
  codec : String
  hasAudio : Bool
  size : UInt64
deriving DecidableEq, Repr

namespace VideoInfo

def nonZero (edge : UInt32) : Option UInt32 := if edge = 0 then none else some edge

def sourceInfo (v : VideoInfo) : SourceInfo :=
  ⟨v.duration, nonZero v.width, nonZero v.height, some v.hasAudio⟩

end VideoInfo

namespace Probe

open Json Json.Decoder

structure ReportFormat where
  duration : Option String
  size : Option String
deriving Repr

structure ReportStream where
  kind : String
  codec : Option String
  width : Option UInt32
  height : Option UInt32
  realRate : Option String
  averageRate : Option String
deriving Repr

structure Report where
  format : ReportFormat
  streams : List ReportStream
deriving Repr

def formatDecoder : Decoder ReportFormat :=
  record ["duration", "size"] fun r => do
    let duration ← r.mentioned "duration" string
    let size ← r.mentioned "size" string
    return { duration, size }

def streamDecoder : Decoder ReportStream :=
  record ["codec_type", "codec_name", "width", "height", "r_frame_rate", "avg_frame_rate"]
    fun r => do
      let kind ← r.required "codec_type" string
      let codec ← r.mentioned "codec_name" string
      let width ← r.mentioned "width" uint32
      let height ← r.mentioned "height" uint32
      let realRate ← r.mentioned "r_frame_rate" string
      let averageRate ← r.mentioned "avg_frame_rate" string
      return { kind, codec, width, height, realRate, averageRate }

def reportDecoder : Decoder Report :=
  record ["format", "streams"] fun r => do
    let format ← r.required "format" formatDecoder
    let streams ← r.withDefault "streams" [] (list streamDecoder)
    return { format, streams }

/-- A frame rate as a fraction with a positive denominator, or as one number. -/
def frameRate? (s : String) : Option Binary64 :=
  match Text.splitOnce? '/' s.toList with
  | some (num, den) => do
    let num ← Binary64.ofChars? num
    let den ← Binary64.ofChars? den
    if 0 < den then some (num / den) else none
  | none => Binary64.ofText? s

/-- A duration in seconds, as milliseconds; only a positive finite one counts. -/
def durationOf? (s : String) : Option Int64 :=
  ((Binary64.ofText? s).filter fun d => d.isFinite && 0 < d).map fun d => (d * 1000).roundToInt64

def defaultRate : Binary64 := 30

def Report.video (r : Report) (stream : ReportStream) : VideoInfo where
  duration := r.format.duration.bind durationOf?
  width := stream.width.getD 0
  height := stream.height.getD 0
  fps := ((stream.averageRate.or stream.realRate).bind frameRate?).getD defaultRate
  codec := stream.codec.getD ""
  hasAudio := r.streams.any fun s => s.kind = "audio"
  size := ((r.format.size.bind (Numeral.natBelow? (2 ^ 64))).map UInt64.ofNat).getD 0

/-- The information in the text of a report. -/
def ofReport (text : String) : Except MediaFailure VideoInfo :=
  match (Json.read? text).bind (reportDecoder .refused) with
  | none => .error (.unreadableReport "unexpected report")
  | some report =>
    match report.streams.find? fun s => s.kind = "video" with
    | some stream => .ok (report.video stream)
    | none => .error (.invalidVideo "No video stream found")

def isRemote (source : String) : Bool :=
  Text.hasPrefix "http://" source || Text.hasPrefix "https://" source

/-- Inspects a url, or a file that has to exist, with a prober if there is one. -/
def inspect (source : String) (fileExists : Bool) (prober : Option ToolRun) :
    Except MediaFailure VideoInfo :=
  if !isRemote source && !fileExists then .error (.fileMissing source)
  else match prober with
    | none => .error .proberMissing
    | some run =>
      if run.exitCode = 0 then ofReport run.stdout
      else .error (.probingFailed "FFprobe failed" (some run.stderr))

end Probe

/-- The encoder that a health report shows. -/
structure EncoderInfo where
  available : Bool
  path : Option String
  version : Option String
deriving DecidableEq, Repr

namespace EncoderInfo

open Json

def unavailable : EncoderInfo := ⟨false, none, none⟩

/-- The text up to the first line end. -/
def firstLine (cs : List Char) : List Char :=
  let line := cs.takeWhile (· ≠ '\n')
  if line.length < cs.length ∧ line.getLast? = some '\r' then line.dropLast else line

/-- The first word after the name of the program on the first line. -/
def versionOf? (stdout : String) : Option String := do
  let rest ← Text.afterPrefix? "ffmpeg version ".toList (firstLine stdout.toList)
  let word := (Text.trimStart rest).takeWhile fun c => !Text.isBlank c
  if word.isEmpty then none else some (String.ofList word)

/-- The encoder at a path, from a run that asks for its version. -/
def ofRun (path : String) (run : ToolRun) : EncoderInfo :=
  if run.exitCode = 0 then ⟨true, some path, versionOf? run.stdout⟩ else unavailable

def toJson (i : EncoderInfo) : Json :=
  .object [("available", .bool i.available), ("path", ofOption .text i.path),
    ("version", ofOption .text i.version)]

end EncoderInfo

end RenderGateway
