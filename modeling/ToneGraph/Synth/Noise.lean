import ToneGraph.Synth.RandomStream
import ToneGraph.Synth.Sample
/-!
# Noise

White noise draws every sample anew. Pink noise passes the draws through six leaky sums of
different lengths and a delayed one, brown noise adds them up in small steps. All stay between
minus one and one.
-/

namespace ToneGraph.Synth

/-- The spectra of noise. -/
inductive NoiseColor where
  | white | pink | brown
  deriving DecidableEq, Repr

namespace NoiseColor

/-- Every colour once. -/
def all : List NoiseColor := [white, pink, brown]

/-- The name of a colour. -/
def name : NoiseColor → String
  | white => "white"
  | pink => "pink"
  | brown => "brown"

end NoiseColor

/-- The sums that shape pink noise. -/
structure PinkFilter where
  b0 : Float
  b1 : Float
  b2 : Float
  b3 : Float
  b4 : Float
  b5 : Float
  b6 : Float

namespace PinkFilter

def silent : PinkFilter :=
  ⟨0.0, 0.0, 0.0, 0.0, 0.0, 0.0, 0.0⟩

/-- The filtered value of a draw, scaled to about unit size. -/
def step (p : PinkFilter) (white : Float) : Float × PinkFilter :=
  let b0 := 0.99886 * p.b0 + white * 0.0555179
  let b1 := 0.99332 * p.b1 + white * 0.0750759
  let b2 := 0.96900 * p.b2 + white * 0.1538520
  let b3 := 0.86650 * p.b3 + white * 0.3104856
  let b4 := 0.55000 * p.b4 + white * 0.5329522
  let b5 := -0.7616 * p.b5 - white * 0.0168980
  let sum := b0 + b1 + b2 + b3 + b4 + b5 + p.b6 + white * 0.5362
  (clamp (-1.0) 1.0 (sum * 0.11), ⟨b0, b1, b2, b3, b4, b5, white * 0.115926⟩)

end PinkFilter

/-- A seeded source of noise of one colour. -/
structure NoiseSource where
  color : NoiseColor
  stream : RandomStream
  pink : PinkFilter
  brown : Float

namespace NoiseSource

/-- The source of a seed, before its first sample. -/
def ofSeed (color : NoiseColor) (seed : UInt64) : NoiseSource :=
  ⟨color, .ofSeed seed, .silent, 0.0⟩

/-- The same colour from the start of another seed. -/
def reseed (n : NoiseSource) (seed : UInt64) : NoiseSource :=
  ofSeed n.color seed

/-- The next sample. -/
def step (n : NoiseSource) : Float × NoiseSource :=
  let (word, stream) := n.stream.draw
  let white := symmetric word
  match n.color with
  | .white => (white, { n with stream })
  | .pink =>
    let (out, pink) := n.pink.step white
    (out, { n with stream, pink })
  | .brown =>
    let brown := clamp (-1.0) 1.0 (n.brown + white * 0.02)
    (brown, { n with stream, brown })

end NoiseSource

/-- A seeded source of uniform values in `[0, 1)`. -/
structure RandomSource where
  stream : RandomStream

namespace RandomSource

/-- The source of a seed, before its first value. -/
def ofSeed (seed : UInt64) : RandomSource :=
  ⟨.ofSeed seed⟩

/-- The next value. -/
def step (r : RandomSource) : Float × RandomSource :=
  let (word, stream) := r.stream.draw
  (uniform word, ⟨stream⟩)

end RandomSource

end ToneGraph.Synth
