import ToneGraph.Checked
import ToneGraph.Graph
/-!
# From expressions to graphs

Every part of a checked expression that is not a number becomes a node of its own, placed after
the nodes of its parts, so places follow the expression from the left and from the inside out. A
number becomes a constant input; only an expression that is a number alone gets a node for it.
-/

namespace ToneGraph

open Synth

/-- The node of a function and its inputs, if there are as many as the function needs. -/
def Function.node? : Function → List Signal → Option Node
  | .oscillator waveform, [frequency] => some (.oscillator waveform frequency)
  | .noise color, [] => some (.noise color)
  | .random, [] => some .random
  | .ramp, [start, finish, duration] => some (.ramp start finish duration)
  | .math op, inputs => if inputs.length = op.arity then some (.math op inputs) else none
  | .effect kind, input :: params =>
    if params.length = kind.paramCount then some (.effect kind input params) else none
  | _, _ => none

/-- Adds a node to an arena and gives the signal that reads it. -/
def Arena.add (arena : Arena) (node : Node) (origin : Nat) : Signal × Arena :=
  (.node arena.size, arena.push ⟨node, some origin⟩)

namespace Checked

mutual

/-- Adds the nodes of an expression to an arena and gives the signal of its value. -/
def lower : Checked → Arena → Except BuildError (Signal × Arena)
  | number value _, arena => .ok (.constant value, arena)
  | context .time offset, arena => .ok (arena.add .time offset)
  | call function _ args offset, arena => do
    let (inputs, arena) ← lowerAll args arena
    match function.node? inputs with
    | some node => return arena.add node offset
    | none => .error (.arity function.name function.arity inputs.length (some offset))
  | binary op left right offset, arena => do
    let (left, arena) ← lower left arena
    let (right, arena) ← lower right arena
    return arena.add (.arithmetic op left right) offset
  | negate operand offset, arena => do
    let (operand, arena) ← lower operand arena
    return arena.add (.arithmetic .sub (.constant 0.0) operand) offset

/-- Adds the nodes of several expressions, from the left. -/
def lowerAll : List Checked → Arena → Except BuildError (List Signal × Arena)
  | [], arena => .ok ([], arena)
  | e :: rest, arena => do
    let (signal, arena) ← lower e arena
    let (signals, arena) ← lowerAll rest arena
    return (signal :: signals, arena)

end

/-- The arena of an expression and the place of its root. -/
def toArena (e : Checked) : Except BuildError (Nat × Arena) := do
  match ← e.lower #[] with
  | (.node root, arena) => return (root, arena)
  | (.constant value, arena) => return (arena.size, (arena.add (.constant value) e.offset).2)

/-- The graph of a checked expression. -/
def build (settings : BuildSettings) (e : Checked) : Except BuildError Graph := do
  let (root, arena) ← e.toArena
  arena.finish settings root

end Checked

end ToneGraph
