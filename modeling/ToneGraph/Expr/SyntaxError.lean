import ToneGraph.Token
/-!
# Syntax errors

Why a token list is no expression, and where.
-/

namespace ToneGraph

/-- The ways in which a token list fails to be an expression. -/
inductive SyntaxFault where
  | emptyInput
  | tooDeep
  /-- A token that the scanner could not make sense of. -/
  | lexical (issue : LexIssue)
  | unmatchedOpen
  | unmatchedClose
  | unexpectedEnd
  | unexpected (kind : TokenKind)
  | trailing (kind : TokenKind)
  /-- A name that is not reserved and is not called. -/
  | expectedCall (name : String)
  | stringLiteral
  | expectedSeparator (kind : TokenKind)
  /-- A fault worded by whoever reports it. -/
  | other (isLexical : Bool) (text : String)
  deriving DecidableEq

namespace SyntaxFault

/-- Whether the fault was found while scanning. -/
def isLexical : SyntaxFault → Bool
  | .lexical _ => true
  | .other isLexical _ => isLexical
  | _ => false

/-- The wording of a fault. -/
def message : SyntaxFault → String
  | emptyInput => "empty input"
  | tooDeep => "expression nested too deeply"
  | lexical issue => issue.message
  | unmatchedOpen => "unmatched '('"
  | unmatchedClose => "unmatched ')'"
  | unexpectedEnd => "unexpected end of input"
  | unexpected kind => "unexpected " ++ kind.describe
  | trailing kind => "unexpected " ++ kind.describe ++ " after complete expression"
  | expectedCall name => "expected '(' after '" ++ name ++ "'"
  | stringLiteral => "string literals are not supported in expressions"
  | expectedSeparator kind => "expected ',' or ')', got " ++ kind.describe
  | other _ text => text

end SyntaxFault

/-- A fault and the byte offset it is reported at. -/
structure SyntaxError where
  fault : SyntaxFault
  offset : Nat
  deriving DecidableEq

/-- The error as one line. -/
def SyntaxError.describe (e : SyntaxError) : String :=
  s!"syntax error at offset {e.offset}: " ++ e.fault.message

end ToneGraph
