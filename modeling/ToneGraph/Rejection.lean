import ToneGraph.Checked
import ToneGraph.Expr.SyntaxError
import ToneGraph.Graph.BuildError
import ToneGraph.Text.Position
/-!
# Rejections

The one report that a user gets about a source that cannot be played: which stage refused it, at
which byte, and why.
-/

namespace ToneGraph

/-- The stages a source goes through. -/
inductive Stage where
  | lexer | parser | validator | builder
  deriving DecidableEq, Repr

/-- How a report names a stage. -/
def Stage.name : Stage → String
  | lexer => "lexer"
  | parser => "parser"
  | validator => "validator"
  | builder => "builder"

/-- Why a source is refused. -/
structure Rejection where
  stage : Stage
  offset : Nat
  message : String
  deriving DecidableEq, Repr

namespace Rejection

/-- A syntax error as a report: faults of words come from the first stage. -/
def ofSyntax (e : SyntaxError) : Rejection :=
  ⟨if e.fault.isLexical then .lexer else .parser, e.offset, e.fault.message⟩

/-- A semantic error as a report. -/
def ofSemantic (e : SemanticError) : Rejection :=
  ⟨.validator, e.offset, e.message⟩

/-- A build error as a report. One that came from nowhere points at the start. -/
def ofBuild (e : BuildError) : Rejection :=
  ⟨.builder, e.origin.getD 0, e.message⟩

/-- The report as one line, with the byte offset. -/
def describe (r : Rejection) : String :=
  r.stage.name ++ s!" error at offset {r.offset}: " ++ r.message

/-- Line and column of the report in its source. -/
def lineColumn (r : Rejection) (source : String) : Nat × Nat :=
  Text.lineColumn source r.offset

/-- The report as one line, with line and column. -/
def locate (r : Rejection) (source : String) : String :=
  let (line, column) := r.lineColumn source
  r.stage.name ++ s!" error at {line}:{column}: " ++ r.message

end Rejection

end ToneGraph
