/-!
# Settings

What a user may set once for all sessions. Every setting has a default.
-/

namespace ToneGraph

/-- Settings of sessions and of the device. -/
structure Settings where
  /-- Samples per second; none leaves it to the device. -/
  sampleRate : Option UInt32
  /-- Samples per frame; none leaves it to the device. -/
  channels : Option UInt16
  /-- Frames per block when a file is written. -/
  blockSize : UInt64
  /-- Where random numbers start. -/
  seed : UInt64
  /-- The volume at the start. -/
  masterVolume : Float32
  /-- The ceiling of the limiter. -/
  ceiling : Float32
  /-- The longest delay that a graph may hold. -/
  maxDelaySeconds : Float
  /-- How many commands may wait for the audio side. -/
  commandCapacity : UInt64
  /-- How many samples the scope holds. With zero there is no scope. -/
  scopeCapacity : UInt64

namespace Settings

/-- The settings of a user who sets nothing. -/
def default : Settings where
  sampleRate := none
  channels := none
  blockSize := 512
  seed := 42
  masterVolume := 0.8
  ceiling := 1.0
  maxDelaySeconds := 10.0
  commandCapacity := 64
  scopeCapacity := 8192

/-- Whether two settings have equal values. What is no number equals nothing. -/
def agree (a b : Settings) : Bool :=
  a.sampleRate == b.sampleRate && a.channels == b.channels && a.blockSize == b.blockSize &&
    a.seed == b.seed && a.masterVolume == b.masterVolume && a.ceiling == b.ceiling &&
    a.maxDelaySeconds == b.maxDelaySeconds && a.commandCapacity == b.commandCapacity &&
    a.scopeCapacity == b.scopeCapacity

end Settings

end ToneGraph
