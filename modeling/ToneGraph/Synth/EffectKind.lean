/-!
# Kinds of effects

The effects that an expression may send a signal through, and how many parameters each takes.
-/

namespace ToneGraph.Synth

/-- The effects. -/
inductive EffectKind where
  /-- Takes the time in seconds, which must be known when the graph is built. -/
  | delay
  /-- Takes the amount. -/
  | reverb
  /-- Takes the cutoff. -/
  | lowpass
  /-- Takes the cutoff. -/
  | highpass
  /-- Takes the centre and the quality. -/
  | bandpass
  /-- Takes the drive. -/
  | distortion
  /-- Takes the rate and the mix. -/
  | chorus
  /-- Takes the rate and the mix. -/
  | flanger
  /-- Takes the rate and the mix. -/
  | phaser
  deriving DecidableEq, Repr

namespace EffectKind

/-- Every effect once. -/
def all : List EffectKind :=
  [delay, reverb, lowpass, highpass, bandpass, distortion, chorus, flanger, phaser]

/-- The name of an effect. -/
def name : EffectKind → String
  | delay => "delay"
  | reverb => "reverb"
  | lowpass => "lowpass"
  | highpass => "highpass"
  | bandpass => "bandpass"
  | distortion => "distortion"
  | chorus => "chorus"
  | flanger => "flanger"
  | phaser => "phaser"

/-- How many parameters follow the signal. -/
def paramCount : EffectKind → Nat
  | bandpass | chorus | flanger | phaser => 2
  | _ => 1

end EffectKind

end ToneGraph.Synth
