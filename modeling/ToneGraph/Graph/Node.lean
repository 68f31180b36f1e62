import ToneGraph.Expr
import ToneGraph.Number.Text
import ToneGraph.Vocabulary
/-!
# Nodes of a signal graph

A node is one unit with its inputs, an input is a constant or the output of another node. Nodes
live in an arena and know each other by their place in it.
-/

namespace ToneGraph

open Synth

/-- The value of an operator at two samples. Division by zero gives an infinity or no number. -/
def BinaryOp.apply : BinaryOp → Float → Float → Float
  | .add, a, b => a + b
  | .sub, a, b => a - b
  | .mul, a, b => a * b
  | .div, a, b => a / b

/-- What a unit reads in every tick: always the same value, or what another node gives. -/
inductive Signal where
  | constant (value : Float)
  | node (id : Nat)
  deriving DecidableEq

namespace Signal

/-- The node that is read. -/
def node? : Signal → Option Nat
  | constant _ => none
  | node id => some id

/-- The signal as a listing shows it. -/
def describe : Signal → String
  | constant value => Number.plain (Number.ofFloat value)
  | node id => s!"#{id}"

end Signal

/-- One unit of a graph. -/
inductive Node where
  | oscillator (waveform : Waveform) (frequency : Signal)
  | noise (color : NoiseColor)
  /-- A new uniform value every tick. -/
  | random
  /-- The seconds since the graph started. -/
  | time
  | ramp (start finish duration : Signal)
  | math (op : MathOp) (inputs : List Signal)
  | arithmetic (op : BinaryOp) (left right : Signal)
  | effect (kind : EffectKind) (input : Signal) (params : List Signal)
  | constant (value : Float)
  deriving DecidableEq

namespace Node

/-- What the node reads, in the order of its arguments. -/
def inputs : Node → List Signal
  | oscillator _ frequency => [frequency]
  | noise _ => []
  | random => []
  | time => []
  | ramp start finish duration => [start, finish, duration]
  | math _ inputs => inputs
  | arithmetic _ left right => [left, right]
  | effect _ input params => input :: params
  | constant _ => []

/-- The nodes that the node reads, in the order of its arguments. -/
def inputNodes (n : Node) : List Nat :=
  n.inputs.filterMap Signal.node?

/-- How many inputs the unit needs. -/
def arity : Node → Nat
  | oscillator _ _ => 1
  | noise _ => 0
  | random => 0
  | time => 0
  | ramp _ _ _ => 3
  | math op _ => op.arity
  | arithmetic _ _ _ => 2
  | effect kind _ _ => 1 + kind.paramCount
  | constant _ => 0

/-- The short name of the unit. -/
def name : Node → String
  | oscillator waveform _ => waveform.name
  | noise color => color.name
  | random => "random"
  | time => "time"
  | ramp _ _ _ => "ramp"
  | math op _ => op.name
  | arithmetic _ _ _ => "arithmetic"
  | effect kind _ _ => kind.name
  | constant _ => "constant"

end Node

end ToneGraph
