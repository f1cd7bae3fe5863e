import RenderGateway.Graph.Filter

/-!
# Filter graphs

A graph is a list of nodes. A node reads streams of input files and outputs of
earlier nodes, passes them through a chain of filters and names its output.
-/

namespace RenderGateway

namespace Graph

/-- The names of node outputs. -/
inductive Label
  | segment (index : Nat)
  | base
  | composite (index : Nat)
  | caption (index : Nat)
  | track (index : Nat)
  | sound
deriving DecidableEq, Repr

namespace Label

def text : Label → String
  | segment i => "v" ++ toString i
  | base => "vbase"
  | composite k => "ov" ++ toString k
  | caption k => "txt" ++ toString k
  | track j => "a" ++ toString j
  | sound => "aout"

end Label

/-- What a node reads: the video or the audio of an input file, or a node's output. -/
inductive Pad
  | video (input : Nat)
  | audio (input : Nat)
  | output (label : Label)
deriving DecidableEq, Repr

namespace Pad

def text : Pad → String
  | video k => "[" ++ toString k ++ ":v]"
  | audio k => "[" ++ toString k ++ ":a]"
  | output l => "[" ++ l.text ++ "]"

end Pad

structure Node where
  pads : List Pad
  chain : List Filter
  label : Label
deriving DecidableEq, Repr

namespace Node

def text (n : Node) : String :=
  String.join (n.pads.map Pad.text) ++ chainText n.chain ++ (Pad.output n.label).text

end Node

end Graph

/-- A graph over input files, with the label of its picture and the length of
its output in milliseconds. The label of its sound is always the same. -/
structure Graph where
  inputs : List String
  nodes : List Graph.Node
  picture : Graph.Label
  duration : Int
deriving DecidableEq, Repr

namespace Graph

def text (g : Graph) : String := ";".intercalate (g.nodes.map Node.text)

end Graph

end RenderGateway
