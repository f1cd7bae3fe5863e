import RenderGateway.Engine
import RenderGateway.Fault

/-!
# Failures of media work

What can go wrong while a plan is compiled, a source is inspected or the encoder
runs, and the fault that callers see of it. The output of a process goes into
the details only.
-/

namespace RenderGateway

inductive MediaFailure
  | encoderMissing
  | proberMissing
  | encodingFailed (reason : String) (stderrTail : List String) (exitCode : Option Int)
  | probingFailed (reason : String) (stderr : Option String)
  | fileMissing (path : String)
  | cancelled
  | timedOut (seconds : UInt64)
  | engineWithoutCompiler (engine : Engine)
  | planNotCompilable (reason : String)
  | invalidVideo (reason : String)
  | system (reason : String)
  | unreadableReport (reason : String)
deriving DecidableEq, Repr

namespace MediaFailure

open Json

def message : MediaFailure → String
  | encoderMissing => "FFmpeg not found in PATH"
  | proberMissing => "FFprobe not found in PATH"
  | encodingFailed reason _ _ => s!"FFmpeg command failed: {reason}"
  | probingFailed reason _ => s!"FFprobe command failed: {reason}"
  | fileMissing path => s!"File not found: {path}"
  | cancelled => "Operation cancelled"
  | timedOut seconds => s!"Operation timed out after {seconds} seconds"
  | engineWithoutCompiler engine => s!"Engine {engine.name} has no command compiler"
  | planNotCompilable reason => s!"Plan cannot be compiled: {reason}"
  | invalidVideo reason => s!"Invalid video file: {reason}"
  | system reason => s!"IO error: {reason}"
  | unreadableReport reason => s!"JSON parse error: {reason}"

def code : MediaFailure → FaultCode
  | fileMissing _ | invalidVideo _ => .input
  | planNotCompilable _ | engineWithoutCompiler _ => .plan
  | _ => .ffmpeg

/-- An exit code; systems give it 32 bits. -/
def exitCodeJson (code : Option Int) : Json := ofOption (fun n => ofInt64 (Int64.ofInt n)) code

def fault : MediaFailure → Fault
  | encodingFailed _ tail exitCode =>
    (Fault.ofMessage .ffmpeg "Rendering failed while encoding the output").withDetails
      (.object [("exitCode", exitCodeJson exitCode), ("stderrTail", texts tail)])
  | timedOut seconds =>
    (Fault.ofMessage .ffmpeg s!"Rendering exceeded the {seconds}s time limit").withDetails
      (.object [("reason", .text "timeout"), ("timeoutSecs", ofUInt64 seconds)])
  | cancelled =>
    (Fault.ofMessage .ffmpeg "Rendering was cancelled").withDetails
      (.object [("reason", .text "cancelled")])
  | probingFailed _ stderr =>
    { code := .input
      message := "Source media could not be inspected"
      details := stderr.map fun s => .object [("stderrTail", .text s)] }
  | e => .ofMessage e.code e.message

instance : Reported MediaFailure := ⟨message, fault⟩

end MediaFailure

end RenderGateway
