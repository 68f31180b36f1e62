import ToneGraph.Expr
import ToneGraph.Vocabulary
/-!
# Checked expressions

An expression whose names are looked up: every call carries the function it means, every other
name the context value it stands for. Checking keeps shape, numbers and offsets, and the first
node that fails, read from the left with a call before its arguments, gives the error.

## Main definitions

* `SemanticError`: a name that means nothing, or a wrong number of arguments.
* `Checked`: the checked tree.
* `Expr.check`: from a tree to a checked tree.
-/

namespace ToneGraph

/-- Why an expression of the right shape means nothing. -/
inductive SemanticError where
  | unknownFunction (name : String) (offset : Nat)
  | unknownIdentifier (name : String) (offset : Nat)
  | arity (name : String) (expected got : Nat) (offset : Nat)
  deriving DecidableEq, Repr

namespace SemanticError

/-- Where the name stands. -/
def offset : SemanticError → Nat
  | unknownFunction _ offset => offset
  | unknownIdentifier _ offset => offset
  | arity _ _ _ offset => offset

/-- The wording without the place. -/
def message : SemanticError → String
  | unknownFunction name _ => "unknown function '" ++ name ++ "'"
  | unknownIdentifier name _ => "unknown identifier '" ++ name ++ "'"
  | arity name expected got _ =>
    let plural := if expected = 1 then "" else "s"
    "'" ++ name ++ "' expects " ++ toString expected ++ " argument" ++ plural ++ ", got " ++
      toString got

/-- The error as one line. -/
def describe (e : SemanticError) : String :=
  match e with
  | arity _ _ _ offset => e.message ++ s!" (offset {offset})"
  | _ => e.message ++ s!" at offset {e.offset}"

end SemanticError

/-- An expression with its names looked up. -/
inductive Checked where
  | number (value : Float) (offset : Nat)
  | context (value : ContextName) (offset : Nat)
  | call (function : Function) (name : String) (args : List Checked) (offset : Nat)
  | binary (op : BinaryOp) (left right : Checked) (offset : Nat)
  | negate (operand : Checked) (offset : Nat)

/-- Where the token stands that brought the node in. -/
def Checked.offset : Checked → Nat
  | number _ offset => offset
  | context _ offset => offset
  | call _ _ _ offset => offset
  | binary _ _ _ offset => offset
  | negate _ offset => offset

namespace Expr

mutual

/-- Looks up the names of an expression. -/
def check : Expr → Except SemanticError Checked
  | number value offset => .ok (.number value offset)
  | identifier name offset =>
    match lookupContext name with
    | some value => .ok (.context value offset)
    | none => .error (.unknownIdentifier name offset)
  | call callee args offset =>
    match lookup callee with
    | none => .error (.unknownFunction callee offset)
    | some word =>
      if args.length ≠ word.arity then .error (.arity callee word.arity args.length offset)
      else do
        let args ← checkAll args
        return .call word.function callee args offset
  | binary op left right offset => do
    let left ← check left
    let right ← check right
    return .binary op left right offset
  | negate operand offset => do
    let operand ← check operand
    return .negate operand offset

/-- Looks up the names of several expressions, from the left. -/
def checkAll : List Expr → Except SemanticError (List Checked)
  | [] => .ok []
  | e :: rest => do
    let e ← check e
    let rest ← checkAll rest
    return e :: rest

end

end Expr

end ToneGraph
