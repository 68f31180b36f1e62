import ToneGraph.Proofs.Graph.Constants
/-!
# Pairing

Nodes, memories and values stand in three rows, and the plan is a fourth list that points into
them.  A tick has an answer for everything that might not fit together: a memory of another kind
gives silence, a parameter that is missing counts as zero, and so does a value that is not there.

A second evaluator gives up wherever the first one would have to fall back on such an answer.  On
every graph that was finished it gives what the first one gives, whatever was called before, so
none of these answers is ever heard.

## Main definitions

* `Node.Fits`: the memory is of the kind of the node, and set as the node is.
* `Node.step?`, `Slots.step?`, `Graph.evaluate?`: ticks that give up instead of falling back.
* `Slots.Paired`: every node has a memory of its kind and a slot for its output.
* `Graph.Whole`: a graph in which a tick finds all that it looks for.

## Main statements

* `Node.Fits.step`, `Node.Fits.reseed`: memories stay of their kind.
* `Graph.Whole.evaluate?_eq`: a tick of a whole graph does not give up.
* `Arena.finished_graph_stays_whole`: graphs are whole when they are finished, and stay so.
-/

namespace ToneGraph

open Synth

/-! ## Kinds of memories -/

/-- The memory is one that the effect can run with. -/
inductive Synth.EffectKind.Fits : EffectKind → Memory → Prop
  | delay {unit} : Fits .delay (.delay unit)
  | reverb {unit} : Fits .reverb (.reverb unit)
  | lowpass {unit} : unit.mode = .lowpass → Fits .lowpass (.filter unit)
  | highpass {unit} : unit.mode = .highpass → Fits .highpass (.filter unit)
  | bandpass {unit} : unit.mode = .bandpass → Fits .bandpass (.filter unit)
  | distortion : Fits .distortion .none
  | chorus {unit} : unit.shape = chorusShape → Fits .chorus (.swept unit)
  | flanger {unit} : unit.shape = flangerShape → Fits .flanger (.swept unit)
  | phaser {unit} : Fits .phaser (.phaser unit)

/-- The memory is of the kind of the node: it has the same waveform, colour or mode.  A node that
remembers nothing has no memory. -/
inductive Node.Fits : Node → Memory → Prop
  | oscillator {waveform frequency unit} : unit.waveform = waveform →
      Fits (.oscillator waveform frequency) (.oscillator unit)
  | noise {color unit} : unit.color = color → Fits (.noise color) (.noise unit)
  | random {unit} : Fits .random (.random unit)
  | time : Fits .time .none
  | ramp {start finish duration} : Fits (.ramp start finish duration) .none
  | math {op inputs} : Fits (.math op inputs) .none
  | arithmetic {op left right} : Fits (.arithmetic op left right) .none
  | effect {kind input params memory} : kind.Fits memory → Fits (.effect kind input params) memory
  | constant {value} : Fits (.constant value) .none

theorem Synth.Biquad.mode_setParams (f : Biquad) (cutoff quality : Float) :
    (f.setParams cutoff quality).mode = f.mode := by
  unfold Biquad.setParams
  dsimp only
  split <;> rfl

theorem Synth.NoiseSource.color_step (n : NoiseSource) : n.step.2.color = n.color := by
  obtain ⟨color, stream, pink, brown⟩ := n
  cases color <;> rfl

theorem Synth.NoiseSource.color_reseed (n : NoiseSource) (seed : UInt64) :
    (n.reseed seed).color = n.color := by
  cases n
  rfl

theorem Memory.fits_delayLine {settings : BuildSettings} {arena : Arena} {cell : Cell}
    {params : List Signal} {memory : Memory}
    (h : delayLine settings arena cell params = .ok memory) : EffectKind.delay.Fits memory := by
  unfold delayLine at h
  split at h
  · contradiction
  · split at h
    · contradiction
    · cases h
      exact .delay

/-- A node starts with a memory of its kind. -/
theorem Memory.fits_forNode {settings : BuildSettings} {arena : Arena} {index : Nat} {cell : Cell}
    {memory : Memory} (h : forNode settings arena index cell = .ok memory) :
    cell.node.Fits memory := by
  obtain ⟨node, origin⟩ := cell
  cases node with
  | effect kind input params =>
      refine .effect ?_
      cases kind with
      | delay => exact fits_delayLine h
      | reverb | distortion | phaser =>
          cases h
          constructor
      | lowpass | highpass | bandpass =>
          cases h
          constructor
          exact Biquad.mode_setParams _ _ _
      | chorus | flanger =>
          cases h
          constructor
          rfl
  | oscillator | noise =>
      cases h
      constructor
      rfl
  | random | time | ramp | math | arithmetic | constant =>
      cases h
      constructor

theorem Synth.EffectKind.Fits.step {kind : EffectKind} {memory : Memory} (h : kind.Fits memory)
    (x : Float) (params : List Float) : kind.Fits (stepEffect kind memory x params).2 := by
  cases h with
  | delay => exact .delay
  | reverb => exact .reverb
  | lowpass hmode => exact .lowpass ((Biquad.mode_setParams _ _ _).trans hmode)
  | highpass hmode => exact .highpass ((Biquad.mode_setParams _ _ _).trans hmode)
  | bandpass hmode => exact .bandpass ((Biquad.mode_setParams _ _ _).trans hmode)
  | distortion => exact .distortion
  | chorus hshape => exact .chorus hshape
  | flanger hshape => exact .flanger hshape
  | phaser => exact .phaser

/-- A tick leaves a memory of the same kind. -/
theorem Node.Fits.step {node : Node} {memory : Memory} (h : node.Fits memory)
    (read : Signal → Float) (time rate : Float) :
    node.Fits (node.step memory read time rate).2 := by
  cases h with
  | oscillator hwaveform => exact .oscillator hwaveform
  | noise hcolor => exact .noise ((NoiseSource.color_step _).trans hcolor)
  | random => exact .random
  | time => exact .time
  | ramp => exact .ramp
  | math => exact .math
  | arithmetic => exact .arithmetic
  | effect hkind => exact .effect (hkind.step _ _)
  | constant => exact .constant

/-- So does another seed. -/
theorem Node.Fits.reseed {node : Node} {memory : Memory} (h : node.Fits memory) (seed : UInt64) :
    node.Fits (memory.reseed seed) := by
  cases h with
  | noise hcolor => exact .noise ((NoiseSource.color_reseed _ seed).trans hcolor)
  | @random unit =>
      show Node.Fits .random (.random (.ofSeed seed))
      exact .random
  | effect hkind =>
      refine .effect ?_
      cases hkind <;> constructor <;> assumption
  | oscillator hwaveform => exact .oscillator hwaveform
  | time | ramp | math | arithmetic | constant => constructor

/-! ## Ticks that give up -/

/-- One tick of an effect, if the memory is one of its own and all parameters are there. -/
def stepEffect? (kind : EffectKind) (memory : Memory) (x : Float) (params : List Float) :
    Option (Float × Memory) :=
  match kind, memory, params with
  | .delay, .delay unit, [_] => some ((unit.step x).map id .delay)
  | .reverb, .reverb unit, [amount] => some ((unit.step x amount).map id .reverb)
  | .lowpass, .filter unit, [cutoff] =>
    some (((unit.setParams cutoff defaultQuality).step x).map id .filter)
  | .highpass, .filter unit, [cutoff] =>
    some (((unit.setParams cutoff defaultQuality).step x).map id .filter)
  | .bandpass, .filter unit, [centre, quality] =>
    some (((unit.setParams centre quality).step x).map id .filter)
  | .distortion, .none, [drive] => some (distort x drive, .none)
  | .chorus, .swept unit, [speed, mix] => some ((unit.step x speed mix).map id .swept)
  | .flanger, .swept unit, [speed, mix] => some ((unit.step x speed mix).map id .swept)
  | .phaser, .phaser unit, [speed, mix] => some ((unit.step x speed mix).map id .phaser)
  | _, _, _ => none

/-- One tick of a node, if the memory is one of its own and all that it reads is there. -/
def Node.step? (node : Node) (memory : Memory) (read : Signal → Option Float)
    (time sampleRate : Float) : Option (Float × Memory) :=
  match node, memory with
  | .constant value, .none => some (value, .none)
  | .time, .none => some (time, .none)
  | .oscillator _ frequency, .oscillator unit => do
    let frequency ← read frequency
    return (unit.step frequency sampleRate).map id .oscillator
  | .noise _, .noise unit => some (unit.step.map id .noise)
  | .random, .random unit => some (unit.step.map id .random)
  | .ramp start finish duration, .none => do
    let start ← read start
    let finish ← read finish
    let duration ← read duration
    return (rampAt start finish duration time, .none)
  | .math op inputs, .none => do
    let xs ← inputs.mapM read
    -- What stands behind as many arguments as the operator needs is not looked at.
    guard (xs.length = op.arity)
    return (op.applyList xs, .none)
  | .arithmetic op left right, .none => do
    let a ← read left
    let b ← read right
    return (op.apply a b, .none)
  | .effect kind input params, memory => do
    let x ← read input
    let params ← params.mapM read
    stepEffect? kind memory x params
  | _, _ => none

namespace Slots

/-- The value of a signal, if it is there. -/
def read? (values : Array Float) : Signal → Option Float
  | .constant value => some value
  | .node id => values[id]?

/-- One step of the node at a place, if there is one and it has a slot for its memory and one for
its output. -/
def step? (nodes : Array Node) (time sampleRate : Float) (slots : Slots) (id : Nat) :
    Option Slots := do
  let node ← nodes[id]?
  let memory ← slots.memories[id]?
  let (out, memory) ← node.step? memory (read? slots.values) time sampleRate
  guard (id < slots.values.size)
  return ⟨slots.memories.setIfInBounds id memory, slots.values.setIfInBounds id out⟩

end Slots

/-- One tick of a graph at a clock that gives up where `Graph.evaluate` would fall back on an
answer of its own. -/
def Graph.evaluate? (g : Graph) (clock : Clock) : Option (Float × Graph) := do
  let slots ← g.plan.foldlM (Slots.step? g.nodes clock.seconds clock.sampleRate) g.slots
  let out ← slots.values[g.root]?
  return (out, { g with memories := slots.memories, values := slots.values })

/-! ## One node -/

theorem Synth.EffectKind.Fits.step?_eq {kind : EffectKind} {memory : Memory} (h : kind.Fits memory)
    (x : Float) {params : List Float} (hparams : params.length = kind.paramCount) :
    stepEffect? kind memory x params = some (stepEffect kind memory x params) := by
  cases h with
  | delay | reverb | lowpass | highpass | distortion =>
      obtain ⟨a, rfl⟩ := List.length_eq_one_iff.1 hparams
      rfl
  | bandpass | chorus | flanger | phaser =>
      obtain ⟨a, b, rfl⟩ := List.length_eq_two.1 hparams
      rfl

/-- A reverberation without a memory gives silence in one evaluator, and the other gives up. -/
example : stepEffect .reverb .none 1.0 [0.5] = (0.0, .none) ∧
    stepEffect? .reverb .none 1.0 [0.5] = none := ⟨rfl, rfl⟩

/-- A node with a memory of its kind, as many inputs as it needs and a value for each of them does
not give up. -/
theorem Node.Fits.step?_eq {node : Node} {memory : Memory} (h : node.Fits memory)
    (harity : node.inputs.length = node.arity) {read? : Signal → Option Float}
    {read : Signal → Float} (hread : ∀ s ∈ node.inputs, read? s = some (read s))
    (time rate : Float) :
    node.step? memory read? time rate = some (node.step memory read time rate) := by
  cases h with
  | oscillator =>
      rw [step?, hread _ List.mem_cons_self]
      rfl
  | ramp =>
      rw [step?, hread _ (by simp [inputs]), hread _ (by simp [inputs]), hread _ (by simp [inputs])]
      rfl
  | @math op signals =>
      have hxs : signals.mapM read? = some (signals.map read) := mapM_eq_some_map hread
      have hlength : (signals.map read).length = op.arity := (List.length_map _).trans harity
      rw [step?, hxs, Node.step, take_inputs harity]
      simp [hlength]
  | arithmetic =>
      rw [step?, hread _ (by simp [inputs]), hread _ (by simp [inputs])]
      rfl
  | @effect kind input params _ hkind =>
      have hxs : params.mapM read? = some (params.map read) :=
        mapM_eq_some_map fun s hs => hread s (List.mem_cons_of_mem _ hs)
      have hlength : (params.map read).length = kind.paramCount := by
        rw [List.length_map]
        exact Nat.succ.inj (harity.trans (Nat.add_comm 1 _))
      rw [step?, hread _ List.mem_cons_self, hxs]
      exact hkind.step?_eq _ hlength
  | noise | random | time | constant => rfl

/-! ## One pass -/

namespace Slots

variable {nodes : Array Node} {slots : Slots}

/-- Every node has a memory of its kind and a slot for its output. -/
structure Paired (nodes : Array Node) (slots : Slots) : Prop where
  size_memories : slots.memories.size = nodes.size
  size_values : slots.values.size = nodes.size
  fits : ∀ (id : Nat) (node : Node), nodes[id]? = some node →
    ∃ memory, slots.memories[id]? = some memory ∧ node.Fits memory

/-- A tick can run the node at a place: it exists, has as many inputs as it needs, and refers to
existing nodes only. -/
def Runnable (nodes : Array Node) (id : Nat) : Prop :=
  ∃ node, nodes[id]? = some node ∧ node.inputs.length = node.arity ∧
    ∀ j ∈ node.inputNodes, j < nodes.size

/-- A step of any place, one that does not exist included. -/
theorem Paired.step (h : slots.Paired nodes) (time rate : Float) (id : Nat) :
    (step nodes time rate slots id).Paired nodes := by
  by_cases hid : id < nodes.size
  · have hnode : nodes[id]? = some nodes[id] := Array.getElem?_eq_getElem hid
    obtain ⟨memory, hmemory, hfits⟩ := h.fits id _ hnode
    rw [step_eq hnode hmemory]
    constructor
    · exact Array.size_setIfInBounds.trans h.size_memories
    · exact Array.size_setIfInBounds.trans h.size_values
    · intro j node hj
      by_cases heq : id = j
      · subst heq
        cases hnode.symm.trans hj
        exact ⟨_, Array.getElem?_setIfInBounds_self_of_lt (h.size_memories ▸ hid),
          hfits.step (read slots.values) time rate⟩
      · obtain ⟨other, hother, hfits⟩ := h.fits j node hj
        refine ⟨other, ?_, hfits⟩
        rwa [Array.getElem?_setIfInBounds_ne heq]
  · have hnone : nodes[id]? = none := Array.getElem?_eq_none (Nat.le_of_not_lt hid)
    have hsame : Slots.step nodes time rate slots id = slots := by
      simp only [Slots.step, hnone]
    rwa [hsame]

/-- Whatever a runnable node reads is there. -/
theorem Paired.read?_eq (h : slots.Paired nodes) {node : Node}
    (hinputs : ∀ j ∈ node.inputNodes, j < nodes.size) {s : Signal} (hs : s ∈ node.inputs) :
    read? slots.values s = some (read slots.values s) := by
  cases s with
  | constant value => rfl
  | node j =>
      have hj : j < slots.values.size := h.size_values ▸ hinputs j (Node.mem_inputNodes hs)
      rw [read?, read, Array.getD_eq_getD_getElem?, Array.getElem?_eq_getElem hj, Option.getD_some]

theorem Paired.step?_eq (h : slots.Paired nodes) {id : Nat} (hid : Runnable nodes id)
    (time rate : Float) :
    step? nodes time rate slots id = some (Slots.step nodes time rate slots id) := by
  obtain ⟨node, hnode, harity, hinputs⟩ := hid
  obtain ⟨memory, hmemory, hfits⟩ := h.fits id node hnode
  have hslot : id < slots.values.size :=
    h.size_values ▸ (Array.getElem?_eq_some_iff.1 hnode).1
  have hstep := hfits.step?_eq harity (fun s hs => h.read?_eq hinputs hs) time rate
  rw [step_eq hnode hmemory]
  simp [step?, hnode, hmemory, hstep, hslot]

theorem Paired.foldl (h : slots.Paired nodes) (time rate : Float) (ids : List Nat) :
    (ids.foldl (Slots.step nodes time rate) slots).Paired nodes := by
  induction ids generalizing slots with
  | nil => exact h
  | cons id rest ih => exact ih (h.step time rate id)

/-- A pass over runnable nodes does not give up. -/
theorem Paired.foldlM_eq (h : slots.Paired nodes) {ids : List Nat}
    (hids : ∀ id ∈ ids, Runnable nodes id) (time rate : Float) :
    ids.foldlM (step? nodes time rate) slots =
      some (ids.foldl (Slots.step nodes time rate) slots) := by
  induction ids generalizing slots with
  | nil => rfl
  | cons id rest ih =>
      obtain ⟨hid, hrest⟩ := List.forall_mem_cons.1 hids
      rw [List.foldlM_cons, h.step?_eq hid, List.foldl_cons, ← ih (h.step time rate id) hrest]
      rfl

end Slots

/-! ## Graphs -/

namespace Graph

/-- Each node has a memory of its kind and a slot for its output, there is a node for the root, and
all nodes of the plan can run. -/
structure Whole (g : Graph) : Prop where
  paired : g.slots.Paired g.nodes
  root_lt : g.root < g.nodes.size
  runnable : ∀ id ∈ g.plan, Slots.Runnable g.nodes id

variable {g : Graph}

/-- A tick of a whole graph does not give up. -/
theorem Whole.evaluate?_eq (h : g.Whole) (clock : Clock) :
    g.evaluate? clock = some (g.evaluate clock) := by
  have hpass := h.paired.foldlM_eq h.runnable clock.seconds clock.sampleRate
  have hsize : (g.evaluate clock).2.values.size = g.nodes.size :=
    (h.paired.foldl clock.seconds clock.sampleRate g.plan).size_values
  have hroot := Array.getElem?_eq_getElem (hsize ▸ h.root_lt)
  have hout : (g.evaluate clock).2.values[g.root]? = some (g.evaluate clock).1 := by
    rw [evaluate_fst, Array.getD_eq_getD_getElem?, hroot, Option.getD_some]
  rw [evaluate?, hpass]
  show (g.evaluate clock).2.values[g.root]?.bind _ = _
  rw [hout]
  rfl

theorem Whole.afterCalls (h : g.Whole) (calls : List Call) : (g.afterCalls calls).Whole := by
  refine afterCalls_induction ?hevaluate ?hclock ?hreseed ?hnumber h calls
  case hevaluate =>
    intro g clock h
    exact { h with paired := h.paired.foldl clock.seconds clock.sampleRate g.plan }
  case hclock | hnumber =>
    intro g _ h
    exact { h with }
  case hreseed =>
    intro g seed h
    refine { h with paired := { h.paired with size_memories := ?_, fits := ?_ } }
    · exact Array.size_mapIdx.trans h.paired.size_memories
    · intro id node hnode
      obtain ⟨memory, hmemory, hfits⟩ := h.paired.fits id node hnode
      refine ⟨memory.reseed (nodeSeed seed id), ?_, hfits.reseed _⟩
      show (g.memories.mapIdx _)[id]? = _
      rw [Array.getElem?_mapIdx]
      exact congrArg _ hmemory

/-- A graph is whole when it is finished. -/
theorem whole_of_finish {settings : BuildSettings} {arena : Arena} {root : Nat}
    (h : arena.finish settings root = .ok g) : g.Whole := by
  have hbuilt := built_of_finish h
  obtain ⟨_, hroot, hcheck, _⟩ := Arena.finish_eq_ok_iff.1 h
  have hsize : g.nodes.size = arena.size := by
    rw [hbuilt.nodes_eq, Array.size_map]
  have hcell : ∀ {id : Nat} {node : Node}, g.nodes[id]? = some node →
      ∃ cell : Cell, arena[id]? = some cell ∧ cell.node = node := by
    intro id node hnode
    rw [hbuilt.nodes_eq, Array.getElem?_map] at hnode
    exact Option.map_eq_some_iff.1 hnode
  refine
    { paired :=
        { size_memories := hbuilt.size_memories.trans hsize.symm
          size_values := hbuilt.size_values.trans hsize.symm
          fits := ?_ }
      root_lt := by rwa [hbuilt.root_eq, hsize]
      runnable := ?_ }
  · intro id node hnode
    obtain ⟨cell, hcell, rfl⟩ := hcell hnode
    obtain ⟨memory, hmemory, hfor⟩ := start_of_finish h hcell
    exact ⟨memory, hmemory, Memory.fits_forNode hfor⟩
  · intro id hid
    have hlt : id < g.nodes.size := hsize ▸ hbuilt.range id hid
    obtain ⟨cell, hcell, hnode⟩ := hcell (Array.getElem?_eq_getElem hlt)
    have hcomplete := Arena.check_eq_ok_iff.1 hcheck id cell hcell
    refine ⟨cell.node, ?_, hcomplete.arity, ?_⟩
    · rw [hnode]
      exact Array.getElem?_eq_getElem hlt
    · rw [hsize]
      exact hcomplete.inputs

end Graph

namespace Arena

/-- A finished graph keeps its nodes, plan and root in whatever calls follow, and it stays whole:
every node is paired with a memory of its kind and with a slot for its output, and every node of
the plan and every input of one exists.  So no evaluation falls back on an answer of its own, be it
one of the calls or any that comes after them. -/
theorem finished_graph_stays_whole {settings : BuildSettings} {arena : Arena} {root : Nat}
    {g : Graph} (h : arena.finish settings root = .ok g) (calls : List Graph.Call) :
    let now := g.afterCalls calls
    now.nodes = arena.map Cell.node ∧ now.plan = g.plan ∧ now.root = root ∧ now.Whole ∧
      ∀ clock, now.evaluate? clock = some (now.evaluate clock) := by
  intro now
  have hbuilt := (Graph.built_of_finish h).afterCalls calls
  have hwhole := (Graph.whole_of_finish h).afterCalls calls
  exact ⟨hbuilt.nodes_eq, g.plan_afterCalls calls, hbuilt.root_eq, hwhole, hwhole.evaluate?_eq⟩

/-- Pink noise through a bandpass, after a few calls: each node still has the memory it needs. -/
theorem filtered_noise_stays_whole :
    let arena : Arena := #[⟨.noise .pink, some 9⟩,
      ⟨.effect .bandpass (.node 0) [.constant 800.0, .constant 2.0], some 0⟩]
    let settings : BuildSettings := ⟨48000.0, defaultSeed, defaultMaxDelay⟩
    let calls : List Graph.Call := [.render 3, .reseed 7, .evaluate ⟨5, 48000.0⟩, .number 2]
    ∃ g noise filter, arena.finish settings 1 = .ok g ∧
      (g.afterCalls calls).memories[0]? = some (.noise noise) ∧ noise.color = .pink ∧
      (g.afterCalls calls).memories[1]? = some (.filter filter) ∧ filter.mode = .bandpass ∧
      ∀ clock, (g.afterCalls calls).evaluate? clock =
        some ((g.afterCalls calls).evaluate clock) := by
  intro arena settings calls
  have horder : arena.order 1 = .ok [0, 1] := by
    simp [Arena.order, search_enter, search, arena, inputsOf, Node.inputNodes, Node.inputs,
      Signal.node?, List.filterMap]
  obtain ⟨g, hfinish⟩ : ∃ g, arena.finish settings 1 = .ok g :=
    ⟨_, finish_eq_ok_iff.2 ⟨if_pos (by decide), by decide, rfl, _, _, horder, rfl, rfl⟩⟩
  obtain ⟨hnodes, -, -, hwhole, hevaluate⟩ := finished_graph_stays_whole hfinish calls
  have hnode : ∀ id : Nat, (g.afterCalls calls).nodes[id]? = arena[id]?.map Cell.node := by
    intro id
    rw [hnodes, Array.getElem?_map]
  obtain ⟨_, hnoise, hfits⟩ := hwhole.paired.fits 0 (.noise .pink) (hnode 0)
  cases hfits with
  | @noise _ noise hcolor =>
      obtain ⟨_, hfilter, hfits⟩ := hwhole.paired.fits 1 _ (hnode 1)
      cases hfits with
      | effect hfits =>
          cases hfits with
          | @bandpass filter hmode =>
              exact ⟨g, noise, filter, hfinish, hnoise, hcolor, hfilter, hmode, hevaluate⟩

end Arena

end ToneGraph
