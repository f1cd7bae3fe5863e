import RenderGateway.Command.Basic
import RenderGateway.Command.Encoding
import RenderGateway.Graph.OfPlan
import RenderGateway.Media

/-!
# Compiling plans

The command that renders a plan. It depends on the plan and the output path
alone. Exporting a plan compiles the same command as rendering it.
-/

namespace RenderGateway

def encoderProgram : String := "ffmpeg"

namespace Graph

/-- The invocation that renders the graph into a file. -/
def invocation (g : Graph) (encoding : Encoding) (output : String) : Invocation :=
  let opened := g.inputs.foldl (fun i source => i.withInput [] source) (Invocation.writing output)
  ((({ opened with graph := some g.text }).withMap (Pad.output g.picture).text).withMap
    (Pad.output .sound).text).withOutputArgs
    (encoding.args ++ ["-t", seconds g.duration])

end Graph

namespace Plan

def encoding (p : Plan) : Encoding := .ofFormat p.format (p.format.quality.getD .medium)

/-- The command that renders the plan into a file. -/
def command (p : Plan) (output : String) : Except MediaFailure CompiledCommand :=
  match Graph.ofPlan p with
  | .error e => .error (.planNotCompilable e.message)
  | .ok g => .ok {
      program := encoderProgram
      args := (g.invocation p.encoding output).args
      graph := g.text
      duration := Word.clampInt64 g.duration }

/-- The command of an engine; only those that the gateway runs have one. -/
def compile (p : Plan) (engine : Engine) (output : String) : Except MediaFailure CompiledCommand :=
  match engine with
  | .serverFfmpeg | .planExport => p.command output
  | .webcodecs | .cloudinary => .error (.engineWithoutCompiler engine)

end Plan

end RenderGateway
