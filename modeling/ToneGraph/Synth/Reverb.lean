import ToneGraph.Synth.Ring
import ToneGraph.Synth.Sample
/-!
# Reverberation

Four damped combs side by side, their sum sent through two allpasses. The lengths are tuned for
44100 samples a second and scale with the sample rate.

## Main definitions

* `Comb`: a ring that feeds back a smoothed copy of its output.
* `Allpass`: a ring that spreads its input over time.
* `Reverb`: the bank and the chain, mixed with the dry input.
-/

namespace ToneGraph.Synth

/-- The share of the smoothed output that a comb feeds back. -/
def combFeedback : Float := 0.84

/-- The share of its past that a comb's smoothing keeps. -/
def combDamping : Float := 0.2

/-- The share of its output that an allpass feeds back. -/
def allpassFeedback : Float := 0.5

/-- The input is this much quieter in front of the combs. -/
def reverbInputGain : Float := 0.03

/-- The reverberation is this much louder behind the allpasses. -/
def reverbOutputGain : Float := 3.0

/-- The lengths of the combs at 44100 samples a second. -/
def combTunings : List Nat := [1116, 1188, 1277, 1356]

/-- The lengths of the allpasses at 44100 samples a second. -/
def allpassTunings : List Nat := [556, 441]

/-- A ring and the smoothed output it feeds back. -/
structure Comb where
  ring : Ring
  store : Float

namespace Comb

/-- A comb of some length, at least one, holding silence. -/
def silent (length : Nat) : Comb :=
  ⟨.silent (max length 1), 0.0⟩

/-- Gives the oldest value, smooths it, and writes the input with the smoothed value fed back. -/
def step (c : Comb) (input : Float) : Float × Comb :=
  let out := c.ring.oldest
  let store := out * (1.0 - combDamping) + c.store * combDamping
  (out, ⟨c.ring.push (input + store * combFeedback), store⟩)

end Comb

/-- A ring between a path forward and a path back. -/
structure Allpass where
  ring : Ring

namespace Allpass

/-- An allpass of some length, at least one, holding silence. -/
def silent (length : Nat) : Allpass :=
  ⟨.silent (max length 1)⟩

/-- Gives the oldest value less the input, and writes the input with the oldest value fed back. -/
def step (a : Allpass) (input : Float) : Float × Allpass :=
  let delayed := a.ring.oldest
  (delayed - input, ⟨a.ring.push (input + delayed * allpassFeedback)⟩)

end Allpass

/-- Sends one input through every comb and adds the outputs to `sum`, in order. -/
def stepCombs (feed : Float) : Float → List Comb → Float × List Comb
  | sum, [] => (sum, [])
  | sum, c :: rest =>
    let (out, c) := c.step feed
    let (sum, rest) := stepCombs feed (sum + out) rest
    (sum, c :: rest)

/-- Sends a value through one allpass after the other. -/
def stepAllpasses : Float → List Allpass → Float × List Allpass
  | x, [] => (x, [])
  | x, a :: rest =>
    let (x, a) := a.step x
    let (x, rest) := stepAllpasses x rest
    (x, a :: rest)

/-- A bank of combs and a chain of allpasses. -/
structure Reverb where
  combs : List Comb
  allpasses : List Allpass

namespace Reverb

/-- A tuned length at another sample rate, cut to a whole number. -/
def scaledLength (sampleRate : Float) (tuning : Nat) : Nat :=
  toCount (Float.ofNat tuning * (sampleRate / 44100.0))

/-- A reverberation that holds silence. -/
def silent (sampleRate : Float) : Reverb :=
  ⟨combTunings.map fun t => .silent (scaledLength sampleRate t),
    allpassTunings.map fun t => .silent (scaledLength sampleRate t)⟩

/-- One sample, of which `amount` is reverberation. -/
def step (r : Reverb) (input amount : Float) : Float × Reverb :=
  let amount := share amount
  let input := finiteOrZero input
  let (sum, combs) := stepCombs (input * reverbInputGain) 0.0 r.combs
  let (wet, allpasses) := stepAllpasses sum r.allpasses
  (input * (1.0 - amount) + wet * reverbOutputGain * amount, ⟨combs, allpasses⟩)

end Reverb

end ToneGraph.Synth
