import ToneGraph.Checked
import ToneGraph.Graph.Memory
/-!
# Streams of expressions

What a checked expression means, read off the tree: every part of it gives a stream of samples.  A
number gives itself, and every other part runs a fresh unit of its own on the streams of its
parts.  There is no arena here, no memory that several kinds of units share, and no plan.

Parts that are not numbers are counted from the left and from the inside out, and a source of noise
draws from the seed plus its own count.

## Main definitions

* `Synth.outputs`: the outputs of a unit that runs from a first state.
* `Synth.EffectKind.stream`: the stream of an effect.
* `Function.stream`: the stream of a call from the streams of its arguments.
* `Checked.stream`: the stream of an expression.
-/

namespace ToneGraph

namespace Synth

variable {State : Type} (step : Nat → State → Float × State) (start : State)

/-- The state of a unit before a tick. -/
def states : Nat → State
  | 0 => start
  | n + 1 => (step n (states n)).2

/-- The outputs of a unit that starts in a state and takes one step in every tick. -/
def outputs (n : Nat) : Float :=
  (step n (states step start n)).1

/-- An argument of a call: its stream, and its value if that is known before the first tick. -/
structure Argument where
  known : Option Float
  stream : Nat → Float

/-- The stream of an effect on a signal.  Every case but the distortion runs a unit of its own. -/
def EffectKind.stream (rate : Float) (x : Nat → Float) : EffectKind → List Argument → Nat → Float
  | .delay, [⟨some seconds, _⟩] =>
    outputs (fun n unit => unit.step (x n)) (DelayLine.silent (DelayLine.lengthFor seconds rate))
  | .reverb, [amount] =>
    outputs (fun n unit => unit.step (x n) (amount.stream n)) (Reverb.silent rate)
  | .lowpass, [cutoff] =>
    outputs (fun n unit => (unit.setParams (cutoff.stream n) defaultQuality).step (x n))
      (Biquad.rest .lowpass rate)
  | .highpass, [cutoff] =>
    outputs (fun n unit => (unit.setParams (cutoff.stream n) defaultQuality).step (x n))
      (Biquad.rest .highpass rate)
  | .bandpass, [centre, quality] =>
    outputs (fun n unit => (unit.setParams (centre.stream n) (quality.stream n)).step (x n))
      (Biquad.rest .bandpass rate)
  | .distortion, [drive] => fun n => distort (x n) (drive.stream n)
  | .chorus, [speed, mix] =>
    outputs (fun n unit => unit.step (x n) (speed.stream n) (mix.stream n))
      (SweptDelay.chorus rate)
  | .flanger, [speed, mix] =>
    outputs (fun n unit => unit.step (x n) (speed.stream n) (mix.stream n))
      (SweptDelay.flanger rate)
  | .phaser, [speed, mix] =>
    outputs (fun n unit => unit.step (x n) (speed.stream n) (mix.stream n)) (Phaser.silent rate)
  | _, _ => fun _ => 0.0

end Synth

open Synth

/-- The stream of a call from its arguments in the order of the text.  The first argument of an
effect is its signal. -/
def Function.stream (rate : Float) (seed : UInt64) : Function → List Argument → Nat → Float
  | .oscillator waveform, [frequency] =>
    outputs (fun n unit => unit.step (frequency.stream n) rate) (Oscillator.start waveform)
  | .noise color, [] => outputs (fun _ unit => unit.step) (NoiseSource.ofSeed color seed)
  | .random, [] => outputs (fun _ unit => unit.step) (RandomSource.ofSeed seed)
  | .ramp, [start, finish, duration] => fun n =>
    rampAt (start.stream n) (finish.stream n) (duration.stream n) (Float.ofNat n / rate)
  | .math op, args => fun n => op.applyList (args.map fun arg => arg.stream n)
  | .effect kind, input :: params => kind.stream rate input.stream params
  | _, _ => fun _ => 0.0

namespace Checked

mutual

/-- How many parts of an expression are not numbers. -/
def units : Checked → Nat
  | number _ _ => 0
  | context _ _ => 1
  | call _ _ args _ => unitsAll args + 1
  | binary _ left right _ => units left + units right + 1
  | negate operand _ => units operand + 1

/-- How many parts of several expressions are not numbers. -/
def unitsAll : List Checked → Nat
  | [] => 0
  | e :: rest => units e + unitsAll rest

end

mutual

/-- The value of an expression of numbers, operators and functions of numbers alone. -/
def known : Checked → Option Float
  | number value _ => some value
  | context _ _ => none
  | call function _ args _ =>
    match function with
    | .math op => do
      let xs ← knownAll args
      return op.applyList xs
    | _ => none
  | binary op left right _ => do
    let a ← known left
    let b ← known right
    return op.apply a b
  | negate operand _ => do
    let x ← known operand
    return 0.0 - x

/-- The values of several expressions, if all are known. -/
def knownAll : List Checked → Option (List Float)
  | [] => some []
  | e :: rest => do
    let x ← known e
    let xs ← knownAll rest
    return x :: xs

end

mutual

/-- The stream of an expression behind `k` parts that are not numbers. -/
def stream (settings : BuildSettings) (k : Nat) : Checked → Nat → Float
  | number value _ => fun _ => value
  | context .time _ => fun n => Float.ofNat n / settings.sampleRate
  | call function _ args _ =>
    function.stream settings.sampleRate (settings.seed + UInt64.ofNat (k + unitsAll args))
      (streamAll settings k args)
  | binary op left right _ => fun n =>
    op.apply (stream settings k left n) (stream settings (k + units left) right n)
  | negate operand _ => fun n => 0.0 - stream settings k operand n

/-- The arguments that several expressions give, from the left. -/
def streamAll (settings : BuildSettings) (k : Nat) : List Checked → List Argument
  | [] => []
  | e :: rest => ⟨known e, stream settings k e⟩ :: streamAll settings (k + units e) rest

end

end Checked

end ToneGraph
