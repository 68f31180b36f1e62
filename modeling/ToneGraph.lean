import ToneGraph.Main
import ToneGraph.Proofs.Except
import ToneGraph.Proofs.Token.Gap
import ToneGraph.Proofs.Token.Word
import ToneGraph.Proofs.Token.Layout
import ToneGraph.Proofs.Token.Relayout
import ToneGraph.Proofs.Text.Position
import ToneGraph.Proofs.Expr.Grammar
import ToneGraph.Proofs.Expr.Readers
import ToneGraph.Proofs.Expr.Parse
import ToneGraph.Proofs.Expr.Height
import ToneGraph.Proofs.Expr.Halt
import ToneGraph.Proofs.Expr.Refusal
import ToneGraph.Proofs.Expr.ErrorPosition
import ToneGraph.Proofs.Expr.Relocation
import ToneGraph.Proofs.Expr.Names
import ToneGraph.Proofs.Expr.Lookup
import ToneGraph.Proofs.Synth.Encoding
import ToneGraph.Proofs.Token.NumberForm
import ToneGraph.Proofs.Token.Munch
import ToneGraph.Proofs.Synth.Rounding
import ToneGraph.Proofs.Synth.Magnitude
import ToneGraph.Proofs.Synth.Value
import ToneGraph.Proofs.Synth.Monotone
import ToneGraph.Proofs.Synth.Headroom
import ToneGraph.Proofs.Synth.SweptHeadroom
import ToneGraph.Proofs.Synth.Memory
import ToneGraph.Proofs.Graph.Checks
import ToneGraph.Proofs.Graph.Order
import ToneGraph.Proofs.Graph.Search
import ToneGraph.Proofs.Graph.Tick
import ToneGraph.Proofs.Graph.Acceptance
import ToneGraph.Proofs.Graph.Calls
import ToneGraph.Proofs.Graph.Constants
import ToneGraph.Proofs.Graph.DelayLimit
import ToneGraph.Proofs.Graph.Listing
import ToneGraph.Proofs.Graph.Stream
import ToneGraph.Proofs.Graph.Pairing
import ToneGraph.Proofs.Graph.Reseeding
import ToneGraph.Proofs.Graph.Interpreter
import ToneGraph.Proofs.Synth.Ring
import ToneGraph.Proofs.Synth.Reverb
import ToneGraph.Proofs.Synth.SweptTap
import ToneGraph.Proofs.Synth.FilterCache
import ToneGraph.Proofs.Graph.Parts
import ToneGraph.Proofs.Graph.Filling
import ToneGraph.Proofs.Graph.Lowering
import ToneGraph.Proofs.Graph.Relocation
import ToneGraph.Proofs.Graph.Building
import ToneGraph.Proofs.Compile.Relocation
import ToneGraph.Proofs.Compile.Layout
import ToneGraph.Proofs.Compile.ErrorPlace
import ToneGraph.Proofs.Playback.Interleaving
import ToneGraph.Proofs.Playback.Agreement
import ToneGraph.Proofs.Playback.History
import ToneGraph.Proofs.Playback.Custody
import ToneGraph.Proofs.Playback.InForce
import ToneGraph.Proofs.Playback.Continuity
import ToneGraph.Proofs.Playback.Guard
import ToneGraph.Proofs.Playback.RefusedRun
import ToneGraph.Proofs.Playback.Blocks
import ToneGraph.Proofs.Playback.Scope
import ToneGraph.Proofs.Playback.WaveFrames
