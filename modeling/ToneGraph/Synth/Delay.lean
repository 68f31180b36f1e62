import ToneGraph.Synth.Ring
import ToneGraph.Synth.Sample
/-!
# Delay lines

A delay line gives its input back some ticks later. A line of no length is a wire.
-/

namespace ToneGraph.Synth

/-- A ring as long as the delay. -/
structure DelayLine where
  ring : Ring

namespace DelayLine

/-- A line that delays by `length` ticks and holds silence. -/
def silent (length : Nat) : DelayLine :=
  ⟨.silent length⟩

/-- How many ticks a delay of `seconds` takes at a sample rate, rounded up. -/
def lengthFor (seconds sampleRate : Float) : Nat :=
  toCountUp (seconds * sampleRate)

/-- The length of the line in ticks. -/
def length (d : DelayLine) : Nat :=
  d.ring.length

/-- Reads the oldest value and writes the input over it, or silence if the input is not finite. -/
def step (d : DelayLine) (input : Float) : Float × DelayLine :=
  if d.length = 0 then (input, d)
  else (d.ring.oldest, ⟨d.ring.push (finiteOrZero input)⟩)

end DelayLine

end ToneGraph.Synth
