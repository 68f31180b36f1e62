/-!
# Clocks

Time is a whole count of samples, so it never drifts; seconds are computed from it on demand.
-/

namespace ToneGraph.Synth

/-- How many samples have passed, and how many make a second. -/
structure Clock where
  tick : Nat
  sampleRate : Float

namespace Clock

/-- A clock at its first sample. -/
def start (sampleRate : Float) : Clock :=
  ⟨0, sampleRate⟩

/-- The time in seconds. -/
def seconds (c : Clock) : Float :=
  Float.ofNat c.tick / c.sampleRate

/-- One sample later. -/
def advance (c : Clock) : Clock :=
  { c with tick := c.tick + 1 }

end Clock

end ToneGraph.Synth
