import ToneGraph.Synth.Sample
/-!
# Functions of numbers

The functions that an expression may apply to every sample on its own, with no memory.
-/

namespace ToneGraph.Synth

/-- The functions of numbers. -/
inductive MathOp where
  | abs | min | max | floor | ceil | round | sqrt | pow | exp | log
  | sin | cos | tan | atan2 | lerp
  deriving DecidableEq, Repr

namespace MathOp

/-- Every function once. -/
def all : List MathOp :=
  [abs, min, max, floor, ceil, round, sqrt, pow, exp, log, sin, cos, tan, atan2, lerp]

/-- The name of a function. -/
def name : MathOp → String
  | abs => "abs"
  | min => "min"
  | max => "max"
  | floor => "floor"
  | ceil => "ceil"
  | round => "round"
  | sqrt => "sqrt"
  | pow => "pow"
  | exp => "exp"
  | log => "log"
  | sin => "sin"
  | cos => "cos"
  | tan => "tan"
  | atan2 => "atan2"
  | lerp => "lerp"

/-- How many arguments a function takes. -/
def arity : MathOp → Nat
  | min | max | pow | atan2 => 2
  | lerp => 3
  | _ => 1

/-- The value at three arguments, of which the first `arity` count. Halves are rounded away from
zero, and the smaller or larger of a value and no number is the value. -/
def apply (op : MathOp) (x y z : Float) : Float :=
  match op with
  | abs => x.abs
  | min => smaller x y
  | max => larger x y
  | floor => x.floor
  | ceil => x.ceil
  | round => x.round
  | sqrt => x.sqrt
  | pow => x.pow y
  | exp => x.exp
  | log => x.log
  | sin => x.sin
  | cos => x.cos
  | tan => x.tan
  | atan2 => x.atan2 y
  | lerp => x + (y - x) * z

/-- The value at a list of arguments: the first three, zeros for missing ones. -/
def applyList (op : MathOp) (xs : List Float) : Float :=
  op.apply (xs.getD 0 0.0) (xs.getD 1 0.0) (xs.getD 2 0.0)

end MathOp

end ToneGraph.Synth
