import ToneGraph.Graph.Memory
import ToneGraph.Synth.Clock
/-!
# Signal graphs

A graph is an arena that has passed its checks, with a memory and a slot for the last output of
every node. A tick is one pass over the nodes under the root, each after its inputs, so a node
that several others read is still evaluated once.

## Main definitions

* `Arena.finish`: the graph of an arena and a root, or why there is none.
* `Graph.evaluate`, `Graph.next`: one tick at a given clock, and at the graph's own.
* `Graph.render`: many ticks.
-/

namespace ToneGraph

open Synth

/-- A graph that is ready to render. -/
structure Graph where
  nodes : Array Node
  memories : Array Memory
  /-- The last output of every node. -/
  values : Array Float
  /-- The nodes under the root, each after its inputs. -/
  plan : List Nat
  root : Nat
  clock : Clock
  seed : UInt64
  /-- Which of the graphs that were played this one is. -/
  generation : Nat

/-! ## Building -/

namespace Arena

/-- Whether a sample rate is a positive number. -/
def checkSampleRate (rate : Float) : Except BuildError Unit :=
  if rate.isFinite && 0.0 < rate then .ok () else .error (.invalidSampleRate rate)

/-- Whether there is a node at the root's place. -/
def checkRoot (arena : Arena) (root : Nat) : Except BuildError Unit :=
  if root < arena.size then .ok () else .error (.missingRoot root)

/-- The memories of cells of which the first stands at `index`. -/
def memoriesFrom (settings : BuildSettings) (arena : Arena) :
    Nat → List Cell → Except BuildError (List Memory)
  | _, [] => .ok []
  | index, cell :: rest => do
    let memory ← Memory.forNode settings arena index cell
    let others ← memoriesFrom settings arena (index + 1) rest
    return memory :: others

/-- Checks an arena and makes the graph of a root. The sample rate is checked first, then the
root, the references of all nodes, the order of the nodes under the root, and the memories. -/
def finish (settings : BuildSettings) (arena : Arena) (root : Nat) : Except BuildError Graph := do
  checkSampleRate settings.sampleRate
  arena.checkRoot root
  arena.check
  let plan ← arena.order root
  let memories ← memoriesFrom settings arena 0 arena.toList
  return {
    nodes := arena.map Cell.node
    memories := memories.toArray
    values := Array.replicate arena.size 0.0
    plan
    root
    clock := .start settings.sampleRate
    seed := settings.seed
    generation := 0 }

end Arena

/-! ## Evaluation -/

/-- What changes during a tick: the memories and the outputs of all nodes. -/
structure Slots where
  memories : Array Memory
  values : Array Float

namespace Slots

/-- The value of a signal: itself if it is constant, else what the node gave last. -/
def read (values : Array Float) : Signal → Float
  | .constant value => value
  | .node id => values.getD id 0.0

/-- Takes one step of the node at a place and keeps its output. The memory is taken out of its
slot before the step, so that it can be changed in place. -/
def step (nodes : Array Node) (time sampleRate : Float) : Slots → Nat → Slots
  | ⟨memories, values⟩, id =>
    match nodes[id]? with
    | none => ⟨memories, values⟩
    | some node =>
      let memory := memories.getD id .none
      let memories := memories.setIfInBounds id .none
      let (out, memory) := node.step memory (read values) time sampleRate
      ⟨memories.setIfInBounds id memory, values.setIfInBounds id out⟩

end Slots

namespace Graph

/-- How many nodes the arena has, under the root or not. -/
def size (g : Graph) : Nat :=
  g.nodes.size

/-- One tick at a clock: a step of every node of the plan, and the output of the root. -/
def evaluate : Graph → Clock → Float × Graph
  | ⟨nodes, memories, values, plan, root, own, seed, generation⟩, clock =>
    let step := Slots.step nodes clock.seconds clock.sampleRate
    let slots := plan.foldl step ⟨memories, values⟩
    match slots with
    | ⟨memories, values⟩ =>
      (values.getD root 0.0, ⟨nodes, memories, values, plan, root, own, seed, generation⟩)

/-- One tick at the graph's own clock, which then advances. -/
def next (g : Graph) : Float × Graph :=
  let clock := g.clock
  let (out, g) := g.evaluate clock
  (out, { g with clock := clock.advance })

/-- Adds the outputs of some ticks to those already there. -/
def renderOnto (out : Array Float) : Nat → Graph → Array Float × Graph
  | 0, g => (out, g)
  | n + 1, g =>
    let (x, g) := g.next
    renderOnto (out.push x) n g

/-- The outputs of the next ticks. -/
def render (g : Graph) (ticks : Nat) : Array Float × Graph :=
  renderOnto #[] ticks g

/-- Starts every source of random numbers again from a seed, the node at place `i` from the seed
plus `i`. -/
def reseed (g : Graph) (seed : UInt64) : Graph :=
  { g with
    memories := g.memories.mapIdx fun i memory => memory.reseed (nodeSeed seed i)
    seed }

theorem size_renderOnto (out : Array Float) (n : Nat) (g : Graph) :
    (renderOnto out n g).1.size = out.size + n := by
  induction n generalizing out g with
  | zero => rfl
  | succ n ih =>
    rw [renderOnto, ih, Array.size_push]
    omega

@[simp] theorem size_render (g : Graph) (n : Nat) : (g.render n).1.size = n := by
  rw [render, size_renderOnto, Array.size_empty, Nat.zero_add]

end Graph

end ToneGraph
