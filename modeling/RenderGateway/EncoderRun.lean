import RenderGateway.Media
import RenderGateway.Progress

/-!
# Runs of the encoder

What a run of the encoder shows while it lasts and how it ends. Its output is
read line by line: diagnostics are trimmed on the right, blank ones are dropped,
and the last of them are kept for the report of a failure.
-/

namespace RenderGateway

/-- Something observed while the encoder runs. -/
inductive RunEvent
  | progress (snapshot : Progress)
  | log (line : String)
deriving DecidableEq, Repr

namespace RunEvent

def logLine? : RunEvent → Option String
  | log line => some line
  | progress _ => none

end RunEvent

namespace EncoderRun

/-- How a child process ended. -/
inductive Fate
  | notFound
  | notStarted (reason : String)
  | exited (code : Int)
  | killed
  | timedOut (limitMs : UInt64)
  | cancelled
  | lost (reason : String)
deriving DecidableEq, Repr

/-- How far the output of a child has been read when a run ends. What the child has started in its
turn can hold the output open, and a run waits for the end of it five seconds at most. -/
inductive Reading
  | ended
  | behind (lines : Nat)
deriving DecidableEq, Repr

/-- The lines that have been read. -/
def Reading.reached : Reading → List String → List String
  | ended, lines => lines
  | behind n, lines => lines.take n

/-- The lines of an output without their ends, up to the first one that is not
UTF-8. -/
def lines (bytes : List UInt8) : List String :=
  decode ((bytes.splitOn 10).map fun line =>
    if line.getLast? = some 13 then line.dropLast else line)
where
  decode : List (List UInt8) → List String
    | [] => []
    | [last] => if last.isEmpty then [] else text last
    | line :: rest =>
      match String.fromUTF8? ⟨line.toArray⟩ with
      | some s => s :: decode rest
      | none => []
  text (line : List UInt8) : List String := (String.fromUTF8? ⟨line.toArray⟩).toList

/-- What is kept while an output is read. -/
structure Reader where
  report : Progress
  tail : List String
deriving DecidableEq, Repr

namespace Reader

def initial : Reader := ⟨.initial, []⟩

/-- Adds a line to the tail; a full tail loses its first one. -/
def keep (r : Reader) (room : Nat) (line : String) : Reader :=
  let rest := if r.tail.length = room then r.tail.drop 1 else r.tail
  { r with tail := rest ++ [line] }

/-- Takes one line, which may be worth an event. -/
def read (room : Nat) (r : Reader) (line : String) : Reader × Option RunEvent :=
  let (report, kind) := r.report.feed line
  let r := { r with report }
  match kind with
  | .snapshot p => (r, some (.progress p))
  | .update => (r, none)
  | .log =>
    let text := String.ofList (Text.trimEnd line.toList)
    if text = "" then (r, none) else (r.keep room text, some (.log text))

/-- Takes the lines that are left. -/
def readAll (room : Nat) (r : Reader) : List String → Reader × List RunEvent
  | [] => (r, [])
  | line :: rest =>
    let (r, event) := r.read room line
    let (r, events) := r.readAll room rest
    (r, event.toList ++ events)

end Reader

/-- The bytes that one text takes up: three words. -/
def textSize : Nat := 24

/-- The most texts that a piece of memory can be asked to hold. -/
def mostTexts : Nat := (2 ^ 63 - 1) / textSize

/-- The texts that there is to be memory for: a tail has one line at least. -/
def roomFor (keep : Nat) : Nat := max keep 1

/-- The events and the tail of an output. The memory for the tail is asked for in advance, and
nothing is read if no memory could be that large. The tail is given up with a reader that is not
done in time. -/
def readOutput (keep : Nat) (stderr : List UInt8) (reading : Reading) :
    List RunEvent × List String :=
  if mostTexts < roomFor keep then ([], [])
  else
    let (r, events) := Reader.initial.readAll (roomFor keep) (reading.reached (lines stderr))
    (events, if reading = .ended then r.tail else [])

def exitFailure (status : String) (tail : List String) (code : Option Int) : MediaFailure :=
  .encodingFailed s!"FFmpeg exited with status {status}" tail code

/-- What a child that wrote to its standard error and met a fate shows and yields. -/
def observe (keep : Nat) (stderr : List UInt8) (fate : Fate) (reading : Reading := .ended) :
    List RunEvent × Except MediaFailure (List String) :=
  let (seen, tail) := readOutput keep stderr reading
  match fate with
  | .notFound => ([], .error .encoderMissing)
  | .notStarted reason => ([], .error (.system reason))
  | .exited code =>
    (seen, if code = 0 then .ok tail else .error (exitFailure (toString code) tail (some code)))
  | .killed => (seen, .error (exitFailure "signal" tail none))
  | .timedOut limit => (seen, .error (.timedOut (limit / 1000)))
  | .cancelled => (seen, .error .cancelled)
  | .lost reason => (seen, .error (.system reason))

/-- A child that was there. -/
def Fate.isRun : Fate → Bool
  | notFound | notStarted _ => false
  | exited _ | killed | timedOut _ | cancelled | lost _ => true

/-- A run where pieces of memory have a largest size. The program does not survive it if the memory
for the tail, which could be that large, is refused. -/
def run (memory keep : Nat) (stderr : List UInt8) (fate : Fate) (reading : Reading) :
    Option (List RunEvent × Except MediaFailure (List String)) :=
  if fate.isRun ∧ roomFor keep ≤ mostTexts ∧ memory < roomFor keep * textSize then none
  else some (observe keep stderr fate reading)

end EncoderRun

end RenderGateway
