import ToneGraph.Graph
/-!
# Listings of graphs

A graph is shown as the tree under its root, one line to a path, an input two spaces further in
than the node that reads it. What several nodes read is shown under each of them.

## Main definitions

* `formatFrequency`: a frequency with its unit.
* `Graph.lines`, `Graph.listing`: the lines of a graph, and its text.
* `Graph.dump`: the arena as one line of constructors.
-/

namespace ToneGraph

open Number Synth

/-- A frequency with one digit after the point, in Hz below 1000 and in kHz from there on. -/
def formatFrequency (hertz : Float) : String :=
  if 1000.0 ≤ hertz.abs then rounded 1 (ofFloat (hertz / 1000.0)) ++ "kHz"
  else rounded 1 (ofFloat hertz) ++ "Hz"

/-- What a listing says about a node besides its number. -/
def Node.headline : Node → String
  | .oscillator waveform (.constant hertz) => waveform.name ++ " " ++ formatFrequency hertz
  | .constant value => plain (ofFloat value)
  | .arithmetic op _ _ => op.symbol.toString
  | node => node.name

/-- What a listing shows under a node: its inputs, unless the headline has them. -/
def Node.listedInputs : Node → List Signal
  | .oscillator _ (.constant _) => []
  | node => node.inputs

namespace Graph

/-- A line of a listing at some depth. -/
def indent (depth : Nat) (text : String) : String :=
  String.ofList (List.replicate (2 * depth) ' ') ++ text

/-- The lines under a signal. The fuel bounds how many nodes a path may have; a path under the
root of a checked graph has no node twice. -/
def linesOf (nodes : Array Node) : Nat → Nat → Signal → List String
  | _, depth, .constant value => [indent depth (plain (ofFloat value))]
  | 0, _, .node _ => []
  | fuel + 1, depth, .node id =>
    match nodes[id]? with
    | none => []
    | some node =>
      indent depth (s!"#{id} " ++ node.headline) ::
        node.listedInputs.flatMap (linesOf nodes fuel (depth + 1))

/-- The lines of a graph, the root first. -/
def lines (g : Graph) : List String :=
  linesOf g.nodes g.nodes.size 0 (.node g.root)

/-- The lines of a graph as one text, each ended by a newline. -/
def listing (g : Graph) : String :=
  String.join (g.lines.map (· ++ "\n"))

end Graph

/-! ## Dumps -/

/-- A name as a constructor: its first letter is a capital. -/
def constructorName (name : String) : String :=
  match name.toList with
  | [] => ""
  | c :: rest => String.ofList (c.toUpper :: rest)

/-- The constructor of an operator. -/
def BinaryOp.constructor : BinaryOp → String
  | .add => "Add"
  | .sub => "Sub"
  | .mul => "Mul"
  | .div => "Div"

/-- A signal as a constructor. -/
def Signal.dump : Signal → String
  | .constant value => "Constant(" ++ debug (ofFloat value) ++ ")"
  | .node id => s!"Node(NodeId({id}))"

/-- Texts in square brackets. -/
def dumpList (items : List String) : String :=
  "[" ++ String.intercalate ", " items ++ "]"

/-- A constructor with named fields. -/
def dumpFields (name : String) (fields : List (String × String)) : String :=
  name ++ " \x7b " ++
    String.intercalate ", " (fields.map fun field => field.1 ++ ": " ++ field.2) ++ " \x7d"

/-- A node as a constructor. -/
def Node.dump : Node → String
  | .oscillator waveform frequency =>
    dumpFields "Oscillator"
      [("waveform", constructorName waveform.name), ("frequency", frequency.dump)]
  | .noise color => dumpFields "Noise" [("color", constructorName color.name)]
  | .random => "Random"
  | .time => "Time"
  | .ramp start finish duration =>
    dumpFields "Ramp" [("from", start.dump), ("to", finish.dump), ("duration", duration.dump)]
  | .math op inputs =>
    dumpFields "MathFn"
      [("op", constructorName op.name), ("inputs", dumpList (inputs.map Signal.dump))]
  | .arithmetic op left right =>
    dumpFields "Arithmetic"
      [("op", op.constructor), ("left", left.dump), ("right", right.dump)]
  | .effect kind input params =>
    dumpFields "Effect"
      [("kind", constructorName kind.name), ("input", input.dump),
        ("params", dumpList (params.map Signal.dump))]
  | .constant value => dumpFields "Constant" [("value", debug (ofFloat value))]

/-- A graph as a constructor: its nodes, its root, its clock and its generation. -/
def Graph.dump (g : Graph) : String :=
  dumpFields "SignalGraph"
    [("nodes", dumpList (g.nodes.toList.map Node.dump)), ("root", s!"NodeId({g.root})"),
      ("tick", toString g.clock.tick), ("generation", toString g.generation)]

end ToneGraph
