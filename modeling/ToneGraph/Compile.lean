import ToneGraph.Expr.Parse
import ToneGraph.Graph.Lowering
import ToneGraph.Rejection
import ToneGraph.Token.Scan
/-!
# Compiling a source

The stages in a row: words, expression, checked expression, graph. The first that fails gives the
report.
-/

namespace ToneGraph

/-- Settings for a sample rate, with the default seed and the default limit on delays. -/
def BuildSettings.ofSampleRate (sampleRate : Float) : BuildSettings :=
  ⟨sampleRate, defaultSeed, defaultMaxDelay⟩

/-- The expression of a source. -/
def parseSource (source : String) : Except Rejection Expr :=
  (Expr.parse (Token.scan source)).mapError Rejection.ofSyntax

/-- The checked expression of a source. Nothing is built. -/
def checkSource (source : String) : Except Rejection Checked := do
  let e ← parseSource source
  e.check.mapError Rejection.ofSemantic

/-- The graph of a source. -/
def compile (settings : BuildSettings) (source : String) : Except Rejection Graph := do
  let e ← checkSource source
  (e.build settings).mapError Rejection.ofBuild

end ToneGraph
