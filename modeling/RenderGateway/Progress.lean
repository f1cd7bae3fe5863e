import RenderGateway.Number.Arithmetic
import RenderGateway.Number.Decimal
import RenderGateway.Text.Basic

/-!
# Encoder progress

The encoder reports progress as `key=value` lines among its diagnostics. A line
with a known key updates the running report, a `progress` line closes a block
and yields a snapshot, and every other line belongs to the log.
-/

namespace RenderGateway

structure Progress where
  frame : UInt64
  fps : Binary64
  outTime : Int64
  speed : Binary64
  isComplete : Bool
deriving DecidableEq, Repr

/-- What a line of the encoder's output is. -/
inductive ProgressLine
  | snapshot (progress : Progress)
  | update
  | log
deriving DecidableEq, Repr

namespace Progress

def initial : Progress := ⟨0, 0, 0, 0, false⟩

def keys : List String :=
  ["frame", "fps", "bitrate", "total_size", "out_time_us", "out_time_ms", "out_time",
   "dup_frames", "drop_frames", "speed", "progress"]

def isKey (key : String) : Bool := key ∈ keys || Text.hasPrefix "stream_" key

/-- The trimmed key and value of a report line. -/
def entry? (line : String) : Option (String × String) :=
  match Text.splitOnce? '=' (Text.trimChars line.toList) with
  | none => none
  | some (key, value) =>
    let key := String.ofList (Text.trimChars key)
    if isKey key then some (key, String.ofList (Text.trimChars value)) else none

/-- Both spellings of the output time count microseconds. -/
def outTimeOf? (value : String) : Option Int64 :=
  (Numeral.int64? value).map fun us => Int64.ofInt (us.toInt.tdiv 1000)

/-- A speed is a factor with an `x` after it. -/
def speedOf? (value : String) : Option Binary64 :=
  (Text.beforeSuffix? ['x'] value.toList).bind fun cs => Binary64.ofChars? (Text.trimChars cs)

/-- The report after an entry; a value that does not read changes nothing. -/
def update (p : Progress) (key value : String) : Progress :=
  if key = "out_time_us" ∨ key = "out_time_ms" then
    { p with outTime := (outTimeOf? value).getD p.outTime }
  else if key = "frame" then
    { p with frame := ((Numeral.natBelow? (2 ^ 64) value).map UInt64.ofNat).getD p.frame }
  else if key = "fps" then { p with fps := (Binary64.ofText? value).getD p.fps }
  else if key = "speed" then { p with speed := (speedOf? value).getD p.speed }
  else if key = "progress" then { p with isComplete := p.isComplete || value = "end" }
  else p

/-- Takes one line of output. -/
def feed (p : Progress) (line : String) : Progress × ProgressLine :=
  match entry? line with
  | none => (p, .log)
  | some (key, value) =>
    let p := p.update key value
    (p, if key = "progress" then .snapshot p else .update)

/-- The kinds of the lines of a whole output. -/
def feedAll (p : Progress) : List String → List ProgressLine
  | [] => []
  | line :: rest => (p.feed line).2 :: feedAll (p.feed line).1 rest

/-- The part of the total that is done, at most 99 before the end of the run. -/
def percent (p : Progress) (total : Int64) : UInt8 :=
  if total.toInt ≤ 0 ∨ p.outTime.toInt ≤ 0 then 0
  else
    let part := Binary64.ofInt p.outTime.toInt / Binary64.ofInt total.toInt * 100
    UInt8.ofNat (part.floorWithin 0 99).toNat

/-- The seconds that are left at the present speed. -/
def remainingSeconds (p : Progress) (total : Int64) : Option Binary64 :=
  if p.speed ≤ 0 ∨ p.outTime.toInt ≤ 0 then none
  else
    let rest := Word.wrap (total.toInt - p.outTime.toInt)
    if rest ≤ 0 then some 0 else some (Binary64.ofInt rest / 1000 / p.speed)

end Progress

end RenderGateway
