import ToneGraph.Synth.Sample
/-!
# Oscillators

A waveform is a shape over one cycle; an oscillator walks through it. The frequency is given anew
for every sample, so it may be modulated.
-/

namespace ToneGraph.Synth

/-- The shapes of a cycle. -/
inductive Waveform where
  | sine | saw | square | triangle
  deriving DecidableEq, Repr

namespace Waveform

/-- Every waveform once. -/
def all : List Waveform := [sine, saw, square, triangle]

/-- The name of a waveform. -/
def name : Waveform → String
  | sine => "sine"
  | saw => "saw"
  | square => "square"
  | triangle => "triangle"

/-- The shape at a phase between zero and one. -/
def sample (w : Waveform) (phase : Float) : Float :=
  match w with
  | sine => (phase * 2.0 * pi).sin
  | saw => 2.0 * phase - 1.0
  | square => if phase < 0.5 then 1.0 else -1.0
  | triangle =>
    if phase < 0.25 then 4.0 * phase
    else if phase < 0.75 then 2.0 - 4.0 * phase
    else 4.0 * phase - 4.0

end Waveform

/-- A waveform and where in its cycle it is. -/
structure Oscillator where
  waveform : Waveform
  phase : Float

namespace Oscillator

/-- An oscillator at the start of its cycle. -/
def start (waveform : Waveform) : Oscillator :=
  ⟨waveform, 0.0⟩

/-- The sample at the phase, and the oscillator moved on by one tick. -/
def step (o : Oscillator) (frequency sampleRate : Float) : Float × Oscillator :=
  (o.waveform.sample o.phase,
    { o with phase := advancePhase o.phase (frequency / sampleRate) })

end Oscillator

end ToneGraph.Synth
