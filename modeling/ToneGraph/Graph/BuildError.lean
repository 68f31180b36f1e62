import ToneGraph.Number.Text
/-!
# Build errors

Why an arena of nodes is no graph. Errors about one node know where in the source the node came
from, if it came from one.
-/

namespace ToneGraph

/-- The ways in which building a graph fails. -/
inductive BuildError where
  | invalidSampleRate (rate : Float)
  | missingRoot (root : Nat)
  | danglingInput (node input : Nat) (origin : Option Nat)
  | cycle (node : Nat) (origin : Option Nat)
  | arity (name : String) (expected got : Nat) (origin : Option Nat)
  | variableDelay (origin : Option Nat)
  | delayOutOfRange (seconds limit : Float) (origin : Option Nat)
  deriving DecidableEq

namespace BuildError

/-- Where in the source the failing node came from. -/
def origin : BuildError → Option Nat
  | invalidSampleRate _ => none
  | missingRoot _ => none
  | danglingInput _ _ origin => origin
  | cycle _ origin => origin
  | arity _ _ _ origin => origin
  | variableDelay origin => origin
  | delayOutOfRange _ _ origin => origin

/-- The wording of an error. -/
def message : BuildError → String
  | invalidSampleRate rate =>
    "sample rate must be a positive number, got " ++ Number.plain (Number.ofFloat rate)
  | missingRoot root => s!"root node #{root} does not exist"
  | danglingInput node input _ => s!"node #{node} refers to missing node #{input}"
  | cycle node _ => s!"node #{node} feeds back into itself"
  | arity name expected got _ => name ++ s!" expects {expected} inputs, got {got}"
  | variableDelay _ => "delay time must be a constant number of seconds"
  | delayOutOfRange seconds limit _ =>
    "delay time " ++ Number.plain (Number.ofFloat seconds) ++ "s is outside 0..=" ++
      Number.plain (Number.ofFloat limit) ++ "s"

end BuildError

end ToneGraph
