import ToneGraph.Synth.Ring
import ToneGraph.Synth.Sample
/-!
# Swept effects

Chorus, flanger and phaser follow a slow sine wave. The first two read a delay line at a moving,
fractional age; the phaser moves the break frequency of a cascade of allpasses.

## Main definitions

* `SlowSine`: the wave that sweeps.
* `SweptDelay`: a delay line with a moving tap, as a chorus or a flanger.
* `Phaser`: the cascade.
-/

namespace ToneGraph.Synth

/-- A sine wave between minus one and one, known by its phase. -/
structure SlowSine where
  phase : Float

namespace SlowSine

/-- The wave at its start. -/
def start : SlowSine := ⟨0.0⟩

/-- The value at the phase, and the wave moved on by one tick. -/
def step (l : SlowSine) (rate sampleRate : Float) : Float × SlowSine :=
  ((2.0 * pi * l.phase).sin, ⟨advancePhase l.phase (rate / sampleRate)⟩)

end SlowSine

/-- How long the line of a swept delay is, around what age its tap moves and how far, all in
seconds, and how much of its output is fed back. -/
structure SweepShape where
  buffer : Float
  base : Float
  depth : Float
  feedback : Float

/-- A tap of 15 ± 5 milliseconds in a line of 50. -/
def chorusShape : SweepShape := ⟨0.050, 0.015, 0.005, 0.0⟩

/-- A tap of 3 ± 2 milliseconds in a line of 10, with half of the output fed back. -/
def flangerShape : SweepShape := ⟨0.010, 0.003, 0.002, 0.5⟩

/-- A delay line with a moving tap. -/
structure SweptDelay where
  ring : Ring
  sweep : SlowSine
  sampleRate : Float
  shape : SweepShape
  lastWet : Float

namespace SweptDelay

/-- A line that holds silence. It has two slots more than its length in ticks. -/
def silent (shape : SweepShape) (sampleRate : Float) : SweptDelay :=
  ⟨.silent (toCount (sampleRate * shape.buffer) + 2), .start, sampleRate, shape, 0.0⟩

/-- A chorus that holds silence. -/
def chorus (sampleRate : Float) : SweptDelay :=
  silent chorusShape sampleRate

/-- A flanger that holds silence. -/
def flanger (sampleRate : Float) : SweptDelay :=
  silent flangerShape sampleRate

end SweptDelay

/-- The value of a ring at a fractional age: the line between the two values around it. -/
def Ring.tap (r : Ring) (age : Float) : Float :=
  let whole := toCount age
  let fraction := age - Float.ofNat whole
  let newer := r.slotAgo whole
  let older := r.slotBefore newer
  let s0 := r.get newer
  let s1 := r.get older
  s0 + fraction * (s1 - s0)

/-- The age at which a tap reads: at least one tick, and at most the last that a ring of the given
length holds. -/
def SweepShape.tapAge (shape : SweepShape) (sampleRate : Float) (length : Nat) (sweep : Float) :
    Float :=
  let longest := larger (Float.ofNat (length - 2)) 1.0
  clamp 1.0 longest ((shape.base + shape.depth * sweep) * sampleRate)

/-- One sample: the input and what is fed back are written, the tap is read at its age, and `mix`
of the result is the tap. -/
def SweptDelay.step : SweptDelay → Float → Float → Float → Float × SweptDelay
  | ⟨ring, sweep, sampleRate, shape, lastWet⟩, input, rate, mix =>
    let input := finiteOrZero input
    let (value, sweep) := sweep.step rate sampleRate
    let ring := ring.put (input + lastWet * shape.feedback)
    let wet := ring.tap (shape.tapAge sampleRate ring.length value)
    let mix := share mix
    (input * (1.0 - mix) + wet * mix, ⟨ring.move, sweep, sampleRate, shape, wet⟩)

/-- The lowest break frequency of a phaser. -/
def phaserLowest : Float := 200.0

/-- The highest break frequency of a phaser. -/
def phaserHighest : Float := 2000.0

/-- Sends a value through allpasses of the first order, each with one memory. -/
def cascade (a : Float) : Float → List Float → Float × List Float
  | x, [] => (x, [])
  | x, z :: rest =>
    let y := a * x + z
    let (out, rest) := cascade a y rest
    (out, (x - a * y) :: rest)

/-- A cascade of allpasses and the wave that sweeps it. -/
structure Phaser where
  sweep : SlowSine
  sampleRate : Float
  stages : List Float

namespace Phaser

/-- A phaser of four stages that hold silence. -/
def silent (sampleRate : Float) : Phaser :=
  ⟨.start, sampleRate, [0.0, 0.0, 0.0, 0.0]⟩

/-- The coefficient of the allpasses at a point of the sweep. -/
def coefficient (sampleRate value : Float) : Float :=
  let sweep := (value + 1.0) * 0.5
  let frequency := phaserLowest + (phaserHighest - phaserLowest) * sweep
  let frequency := smaller frequency (sampleRate * 0.45)
  let t := (pi * frequency / sampleRate).tan
  (t - 1.0) / (t + 1.0)

/-- One sample, of which `mix` has gone through the cascade. -/
def step (p : Phaser) (input rate mix : Float) : Float × Phaser :=
  let (value, sweep) := p.sweep.step rate p.sampleRate
  let input := finiteOrZero input
  let (wet, stages) := cascade (coefficient p.sampleRate value) input p.stages
  let mix := share mix
  (input * (1.0 - mix) + wet * mix, { p with sweep, stages })

end Phaser

/-- Bends a value towards plus or minus one. A drive that is negative or no number counts as
zero. -/
def distort (input drive : Float) : Float :=
  let drive := if 0.0 < drive then drive else 0.0
  (drive * input).tanh

end ToneGraph.Synth
