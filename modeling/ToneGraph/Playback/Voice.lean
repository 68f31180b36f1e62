import ToneGraph.BoundedQueue
import ToneGraph.Graph
import ToneGraph.Number.Binary
import ToneGraph.Synth.Limiter
/-!
# Voices

The audio side of a session. A voice plays at most one graph. It obeys commands between blocks only,
and never lets go of a graph itself: a graph that it stops playing goes to a queue, from which the
control side collects it.

## Main definitions

* `Voice.obey`: one command.
* `Voice.play`: the frames of one block.
-/

namespace ToneGraph

open Synth

/-- A count that is never zero. -/
theorem max_one_pos (n : Nat) : 0 < max n 1 :=
  Nat.le_max_right n 1

/-- What the control side can ask of a voice. -/
inductive Command where
  | play (graph : Graph)
  | stop
  | setVolume (volume : Float32)

/-- The audio side of a session. -/
structure Voice where
  graph : Option Graph
  volume : Float32
  limiter : Limiter
  /-- Samples per frame. -/
  channels : Nat
  channels_pos : 0 < channels

namespace Voice

/-- A voice that plays nothing, with at least one channel. -/
def silent (volume : Float32) (limiter : Limiter) (channels : Nat) : Voice :=
  ⟨none, clamp32 0.0 1.0 volume, limiter, max channels 1, max_one_pos channels⟩

/-- Which graph plays, by its generation. -/
def generation? (v : Voice) : Option Nat :=
  v.graph.map Graph.generation

/-! ## Between blocks -/

/-- Stops the graph that plays, if there is one, and hands it over to be collected. -/
def retire (v : Voice) (retired : BoundedQueue Graph) : Voice × BoundedQueue Graph :=
  match v.graph with
  | none => (v, retired)
  | some g => ({ v with graph := none }, retired.offer g)

/-- Obeys one command. -/
def obey : Voice × BoundedQueue Graph → Command → Voice × BoundedQueue Graph
  | (v, retired), .play g =>
    let (v, retired) := v.retire retired
    ({ v with graph := some g }, retired)
  | (v, retired), .stop => v.retire retired
  | (v, retired), .setVolume x => ({ v with volume := volumeShare x }, retired)

/-! ## Blocks -/

/-- How loud a value of the graph comes out. -/
def level (limiter : Limiter) (volume : Float32) (x : Float) : Float32 :=
  limiter.limit (Number.narrow x) * volume

/-- How many frames it takes to fill a number of samples. -/
def framesFor (channels samples : Nat) : Nat :=
  (samples + channels - 1) / channels

/-- Writes the sample of each frame to every channel. The last frame may be cut. -/
def interleave (channels samples : Nat) (frames : List Float32) : List Float32 :=
  (frames.flatMap (List.replicate channels)).take samples

/-- The samples of one tick each for as many frames as a block of samples takes, none if nothing
plays. -/
def play : Voice → Nat → List Float32 × Voice
  | ⟨none, volume, limiter, channels, positive⟩, _ =>
    ([], ⟨none, volume, limiter, channels, positive⟩)
  | ⟨some g, volume, limiter, channels, positive⟩, samples =>
    let (raw, g) := g.render (framesFor channels samples)
    (raw.toList.map (level limiter volume), ⟨some g, volume, limiter, channels, positive⟩)

/-! ## One step each -/

theorem retire_of_none {v : Voice} (h : v.graph = none) (retired : BoundedQueue Graph) :
    v.retire retired = (v, retired) := by
  rw [retire, h]

@[simp] theorem graph_retire (v : Voice) (retired : BoundedQueue Graph) :
    (v.retire retired).1.graph = none := by
  unfold retire
  split
  · assumption
  · rfl

@[simp] theorem generation?_obey_play (v : Voice) (retired : BoundedQueue Graph) (g : Graph) :
    (obey (v, retired) (.play g)).1.generation? = some g.generation := rfl

@[simp] theorem generation?_obey_stop (v : Voice) (retired : BoundedQueue Graph) :
    (obey (v, retired) .stop).1.generation? = none := by
  simp [obey, generation?]

@[simp] theorem generation?_obey_setVolume (v : Voice) (retired : BoundedQueue Graph)
    (x : Float32) : (obey (v, retired) (.setVolume x)).1.generation? = v.generation? := rfl

theorem le_framesFor_mul {channels : Nat} (positive : 0 < channels) (samples : Nat) :
    samples ≤ framesFor channels samples * channels := by
  have whole := Nat.div_add_mod (samples + channels - 1) channels
  have rest := Nat.mod_lt (samples + channels - 1) positive
  rw [framesFor, Nat.mul_comm]
  omega

theorem length_flatMap_replicate (xs : List α) (n : Nat) :
    (xs.flatMap (List.replicate n)).length = xs.length * n := by
  induction xs with
  | nil => exact (Nat.zero_mul n).symm
  | cons x rest ih =>
    rw [List.flatMap_cons, List.length_append, List.length_replicate, ih, List.length_cons,
      Nat.succ_mul, Nat.add_comm]

theorem length_interleave (channels samples : Nat) (frames : List Float32) :
    (interleave channels samples frames).length = min samples (frames.length * channels) := by
  rw [interleave, List.length_take, length_flatMap_replicate]

/-- A voice that plays takes one tick of its graph for each frame. -/
theorem length_play {v : Voice} (h : v.graph.isSome) (samples : Nat) :
    (v.play samples).1.length = framesFor v.channels samples := by
  obtain ⟨graph, volume, limiter, channels, positive⟩ := v
  cases graph with
  | none => contradiction
  | some g => simp [play]

end Voice

end ToneGraph
