import ToneGraph.Playback.OfflineSink
import ToneGraph.Wave
/-!
# Recordings

A source played from its start for some seconds into a wave. The blocks are asked for one by one, as
a device would.
-/

namespace ToneGraph

open Synth

/-- How many whole frames fit in some seconds. What is negative or no number counts as no time. -/
def frameCount (seconds : Float) (sampleRate : UInt32) : Nat :=
  let seconds := if 0.0 < seconds then seconds else 0.0
  (seconds * Float.ofNat sampleRate.toNat).toUInt64.toNat

/-- Adds the samples of some frames to those already there, in blocks of at most `block` frames. -/
def OfflineSink.recordOnto (block : Nat) (positive : 0 < block) (out : Array Float32)
    (frames : Nat) (sink : OfflineSink) : Array Float32 × OfflineSink :=
  if frames = 0 then (out, sink)
  else
    let now := min block frames
    let (samples, sink) := sink.block now
    recordOnto block positive (out ++ samples) (frames - now) sink
termination_by frames

/-- The samples of some frames. -/
def OfflineSink.record (sink : OfflineSink) (settings : Settings) (frames : Nat) :
    Array Float32 :=
  (sink.recordOnto (max settings.blockSize.toNat 1) (max_one_pos _) #[] frames).1

/-- The wave of a source. It says of its channels what the settings say, one if they say
nothing. -/
def recordSource (settings : Settings) (sampleRate : UInt32) (seconds : Float) (source : String) :
    Except RunError Wave := do
  let channels := settings.channels.getD 1
  let sink := OfflineSink.closed sampleRate channels.toNat
  let sink ← (sink.attach settings).mapError .audio
  let (result, sink) := sink.withSession (·.run source)
  result.getD (.ok ())
  let samples := sink.record settings (frameCount seconds sampleRate)
  return ⟨sampleRate, channels, samples.map wholeSample⟩

end ToneGraph
