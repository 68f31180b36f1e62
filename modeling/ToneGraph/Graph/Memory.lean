import ToneGraph.Graph.Arena
import ToneGraph.Synth.Biquad
import ToneGraph.Synth.Delay
import ToneGraph.Synth.Reverb
import ToneGraph.Synth.Sweep
/-!
# Memories of nodes

Every node of a running graph has a memory of its own kind. This module makes the memory of a node
when the graph is built and takes one step of a node in a tick.

## Main definitions

* `Memory`: what a node keeps from tick to tick.
* `Memory.forNode`: the memory a node starts with, or why it cannot have one.
* `Node.step`: one tick of one node.
-/

namespace ToneGraph

open Synth

/-- What a node keeps from tick to tick. -/
inductive Memory where
  | none
  | oscillator (unit : Oscillator)
  | noise (unit : NoiseSource)
  | random (unit : RandomSource)
  | delay (unit : DelayLine)
  | reverb (unit : Reverb)
  | filter (unit : Biquad)
  | swept (unit : SweptDelay)
  | phaser (unit : Phaser)

/-- What a graph is built for. -/
structure BuildSettings where
  sampleRate : Float
  /-- The node at place `i` draws from this plus `i`. -/
  seed : UInt64
  /-- The longest delay in seconds. -/
  maxDelay : Float

/-- The seed of graphs that are built with no other. -/
def defaultSeed : UInt64 := 42

/-- The longest delay of graphs that are built with no other limit. -/
def defaultMaxDelay : Float := 10.0

/-- The seed of the node at a place, counted modulo two to the 64th power. -/
def nodeSeed (seed : UInt64) (index : Nat) : UInt64 :=
  seed + UInt64.ofNat index

namespace Memory

/-- The delay line of a node whose time is a constant within the limit. -/
def delayLine (settings : BuildSettings) (arena : Arena) (cell : Cell) (params : List Signal) :
    Except BuildError Memory :=
  match params.head?.bind arena.constant? with
  | Option.none => .error (.variableDelay cell.origin)
  | some seconds =>
    if !seconds.isFinite || seconds < 0.0 || settings.maxDelay < seconds then
      .error (.delayOutOfRange seconds settings.maxDelay cell.origin)
    else .ok (.delay (.silent (DelayLine.lengthFor seconds settings.sampleRate)))

/-- The memory that the cell at a place starts with. -/
def forNode (settings : BuildSettings) (arena : Arena) (index : Nat) (cell : Cell) :
    Except BuildError Memory :=
  let seed := nodeSeed settings.seed index
  let rate := settings.sampleRate
  match cell.node with
  | .oscillator waveform _ => .ok (.oscillator (.start waveform))
  | .noise color => .ok (.noise (.ofSeed color seed))
  | .random => .ok (.random (.ofSeed seed))
  | .effect kind _ params =>
    match kind with
    | .delay => delayLine settings arena cell params
    | .reverb => .ok (.reverb (.silent rate))
    | .lowpass => .ok (.filter (.rest .lowpass rate))
    | .highpass => .ok (.filter (.rest .highpass rate))
    | .bandpass => .ok (.filter (.rest .bandpass rate))
    | .chorus => .ok (.swept (.chorus rate))
    | .flanger => .ok (.swept (.flanger rate))
    | .phaser => .ok (.phaser (.silent rate))
    | .distortion => .ok .none
  | _ => .ok .none

/-- Sources of random numbers start again from another seed; all other memories stay. -/
def reseed (seed : UInt64) : Memory → Memory
  | noise unit => noise (unit.reseed seed)
  | random _ => random (.ofSeed seed)
  | memory => memory

end Memory

/-- The value of a line from `start` to `finish` at a time. A line of no duration is at its end. -/
def rampAt (start finish duration time : Float) : Float :=
  if duration ≤ 0.0 || duration ≤ time then finish
  else start + (finish - start) * time / duration

/-- One tick of an effect: the signal, the parameters, and the memory. -/
def stepEffect (kind : EffectKind) (memory : Memory) (x : Float) (params : List Float) :
    Float × Memory :=
  let p (i : Nat) := params.getD i 0.0
  match kind, memory with
  | .delay, .delay unit =>
    let (out, unit) := unit.step x
    (out, .delay unit)
  | .reverb, .reverb unit =>
    let (out, unit) := unit.step x (p 0)
    (out, .reverb unit)
  | .lowpass, .filter unit =>
    let (out, unit) := (unit.setParams (p 0) defaultQuality).step x
    (out, .filter unit)
  | .highpass, .filter unit =>
    let (out, unit) := (unit.setParams (p 0) defaultQuality).step x
    (out, .filter unit)
  | .bandpass, .filter unit =>
    let (out, unit) := (unit.setParams (p 0) (p 1)).step x
    (out, .filter unit)
  | .distortion, memory => (distort x (p 0), memory)
  | .chorus, .swept unit =>
    let (out, unit) := unit.step x (p 0) (p 1)
    (out, .swept unit)
  | .flanger, .swept unit =>
    let (out, unit) := unit.step x (p 0) (p 1)
    (out, .swept unit)
  | .phaser, .phaser unit =>
    let (out, unit) := unit.step x (p 0) (p 1)
    (out, .phaser unit)
  | _, memory => (0.0, memory)

/-- One tick of a node: its output and its memory after it. `read` gives the values of its inputs
in this tick. A memory of another kind than the node's gives silence and stays. -/
def Node.step (node : Node) (memory : Memory) (read : Signal → Float) (time sampleRate : Float) :
    Float × Memory :=
  match node, memory with
  | .constant value, memory => (value, memory)
  | .time, memory => (time, memory)
  | .oscillator _ frequency, .oscillator unit =>
    let (out, unit) := unit.step (read frequency) sampleRate
    (out, .oscillator unit)
  | .noise _, .noise unit =>
    let (out, unit) := unit.step
    (out, .noise unit)
  | .random, .random unit =>
    let (out, unit) := unit.step
    (out, .random unit)
  | .ramp start finish duration, memory =>
    (rampAt (read start) (read finish) (read duration) time, memory)
  | .math op inputs, memory => (op.applyList ((inputs.take 3).map read), memory)
  | .arithmetic op left right, memory => (op.apply (read left) (read right), memory)
  | .effect kind input params, memory => stepEffect kind memory (read input) (params.map read)
  | _, memory => (0.0, memory)

end ToneGraph
