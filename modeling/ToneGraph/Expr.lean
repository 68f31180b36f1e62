/-!
# Expressions

A program is one expression. Each of its nodes remembers the byte offset of the token that brought
it in: the number, the identifier or the operator.
-/

namespace ToneGraph

/-- The operators between two expressions. -/
inductive BinaryOp where
  | add | sub | mul | div
  deriving DecidableEq, Repr

/-- The character of a binary operator. -/
def BinaryOp.symbol : BinaryOp → Char
  | .add => '+'
  | .sub => '-'
  | .mul => '*'
  | .div => '/'

/-- An expression as it was written; names are not looked up yet. -/
inductive Expr where
  | number (value : Float) (offset : Nat)
  /-- A name that stands for itself, such as `time`. -/
  | identifier (name : String) (offset : Nat)
  | call (callee : String) (args : List Expr) (offset : Nat)
  | binary (op : BinaryOp) (left right : Expr) (offset : Nat)
  | negate (operand : Expr) (offset : Nat)

namespace Expr

/-- Where the token stands that brought the node in. -/
def offset : Expr → Nat
  | number _ offset => offset
  | identifier _ offset => offset
  | call _ _ offset => offset
  | binary _ _ _ offset => offset
  | negate _ offset => offset

mutual

/-- The number of nodes on the longest path from the root to a leaf. -/
def height : Expr → Nat
  | number _ _ => 1
  | identifier _ _ => 1
  | call _ args _ => heights args + 1
  | binary _ left right _ => max (height left) (height right) + 1
  | negate operand _ => height operand + 1

/-- The height of the highest of several expressions. -/
def heights : List Expr → Nat
  | [] => 0
  | e :: rest => max (height e) (heights rest)

end

end Expr

end ToneGraph
