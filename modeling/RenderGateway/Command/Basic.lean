import RenderGateway.Command.Shell
import RenderGateway.Json.Decoder

/-!
# Encoder commands

An invocation of the encoder as its inputs, its graph and its output options,
and the arguments that these amount to.
-/

namespace RenderGateway

/-- One input with the arguments in front of it. -/
structure InputFile where
  args : List String
  source : String
deriving DecidableEq, Repr

structure Invocation where
  inputs : List InputFile
  graph : Option String
  outputArgs : List String
  logLevel : String
  reportsProgress : Bool
  output : String
deriving DecidableEq, Repr

namespace Invocation

/-- An invocation that writes to a path. -/
def writing (output : String) : Invocation := ⟨[], none, [], "error", true, output⟩

def withInput (i : Invocation) (args : List String) (source : String) : Invocation :=
  { i with inputs := i.inputs ++ [⟨args, source⟩] }

def withOutputArgs (i : Invocation) (args : List String) : Invocation :=
  { i with outputArgs := i.outputArgs ++ args }

/-- Sends a stream or a label of the graph to the output. -/
def withMap (i : Invocation) (stream : String) : Invocation := i.withOutputArgs ["-map", stream]

def inputArgs (f : InputFile) : List String := f.args ++ ["-i", f.source]

def args (i : Invocation) : List String :=
  ["-y", "-hide_banner", "-v", i.logLevel] ++
  (if i.reportsProgress then ["-progress", "pipe:2", "-nostats"] else []) ++
  i.inputs.flatMap inputArgs ++
  (match i.graph with
    | some graph => ["-filter_complex", graph]
    | none => []) ++
  i.outputArgs ++ [i.output]

end Invocation

/-- A command that is ready to run or to be handed out. -/
structure CompiledCommand where
  program : String
  args : List String
  graph : String
  duration : Int64
deriving DecidableEq, Repr

namespace CompiledCommand

open Json.Decoder

def inputCount (c : CompiledCommand) : Nat := (c.args.filter fun a => a = "-i").length

def commandLine (c : CompiledCommand) : String := Shell.commandLine (c.program :: c.args)

def decoder : Json.Decoder CompiledCommand :=
  record ["program", "args", "filterGraph", "totalDurationMs"] fun r => do
    let program ← r.required "program" string
    let args ← r.required "args" (list string)
    let graph ← r.required "filterGraph" string
    let duration ← r.required "totalDurationMs" int64
    return { program, args, graph, duration }

end CompiledCommand

end RenderGateway
