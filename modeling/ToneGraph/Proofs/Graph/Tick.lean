import ToneGraph.Graph
import ToneGraph.Proofs.Graph.Order
/-!
# One tick

A tick is one pass over the plan.  Since the plan holds every node once and after its inputs, the
pass takes one step of each of its nodes on outputs of the same pass, whatever stood in the slots
before, and it leaves every other slot alone.

## Main definitions

* `Slots.Stepped`: one step of each of some nodes, on values of the same tick.
* `Graph.Built`: what every graph of an arena and a root keeps while it runs.

## Main statements

* `Slots.stepped_of_settled`: a pass over a settled list is one step of each of its nodes.
* `Graph.built_of_finish`, `Graph.Built.evaluate`: graphs are built, and stay so.
* `Graph.Built.stepped`: an evaluation is one step of each node of the plan.
-/

namespace ToneGraph

open Synth

/-! ## One node -/

/-- A node looks at its inputs only. -/
theorem Node.step_congr {node : Node} {read read' : Signal → Float}
    (h : ∀ s ∈ node.inputs, read s = read' s) (memory : Memory) (time rate : Float) :
    node.step memory read time rate = node.step memory read' time rate := by
  cases node with
  | oscillator waveform frequency =>
      have hfrequency := h frequency List.mem_cons_self
      cases memory <;> simp only [Node.step, hfrequency]
  | ramp start finish duration =>
      have hstart := h start (by simp [Node.inputs])
      have hfinish := h finish (by simp [Node.inputs])
      have hduration := h duration (by simp [Node.inputs])
      simp only [Node.step, hstart, hfinish, hduration]
  | math op inputs =>
      have hinputs : (inputs.take 3).map read = (inputs.take 3).map read' :=
        List.map_congr_left fun s hs => h s (List.mem_of_mem_take hs)
      simp only [Node.step, hinputs]
  | arithmetic op left right =>
      have hleft := h left (by simp [Node.inputs])
      have hright := h right (by simp [Node.inputs])
      simp only [Node.step, hleft, hright]
  | effect kind input params =>
      have hinput := h input List.mem_cons_self
      have hparams : params.map read = params.map read' :=
        List.map_congr_left fun s hs => h s (List.mem_cons_of_mem _ hs)
      simp only [Node.step, hinput, hparams]
  | noise | random => cases memory <;> rfl
  | time | constant => rfl

theorem Node.mem_inputNodes {node : Node} {id : Nat} (h : .node id ∈ node.inputs) :
    id ∈ node.inputNodes :=
  List.mem_filterMap.2 ⟨.node id, h, rfl⟩

namespace Slots

/-- Another value at a place that a node does not read changes nothing for the node. -/
theorem step_read_set {node : Node} {id : Nat} (h : id ∉ node.inputNodes) (values : Array Float)
    (out : Float) (memory : Memory) (time rate : Float) :
    node.step memory (read (values.setIfInBounds id out)) time rate =
      node.step memory (read values) time rate := by
  refine Node.step_congr ?_ memory time rate
  intro s hs
  cases s with
  | constant value => rfl
  | node j =>
      have hne : id ≠ j := by
        rintro rfl
        exact h (Node.mem_inputNodes hs)
      rw [read, read, Array.getD_eq_getD_getElem?, Array.getElem?_setIfInBounds_ne hne,
        ← Array.getD_eq_getD_getElem?]

/-- One step of the node at a place that exists. -/
theorem step_eq {nodes : Array Node} {id : Nat} {node : Node} (hnode : nodes[id]? = some node)
    {memory : Memory} {slots : Slots} (hmemory : slots.memories[id]? = some memory)
    (time rate : Float) :
    step nodes time rate slots id =
      ⟨slots.memories.setIfInBounds id (node.step memory (read slots.values) time rate).2,
        slots.values.setIfInBounds id (node.step memory (read slots.values) time rate).1⟩ := by
  obtain ⟨memories, values⟩ := slots
  have hgetD : memories.getD id .none = memory := by
    rw [Array.getD_eq_getD_getElem?, hmemory, Option.getD_some]
  simp only [step, hnode, hgetD, Array.setIfInBounds_setIfInBounds]

/-! ## One pass -/

/-- Between `before` and `after` the listed nodes took one step each, on the values that stand in
`after`, and no other slot changed. -/
structure Stepped (arena : Arena) (time rate : Float) (ids : List Nat) (before after : Slots) :
    Prop where
  size_memories : after.memories.size = before.memories.size
  size_values : after.values.size = before.values.size
  stepped : ∀ id ∈ ids, ∃ cell memory, arena[id]? = some cell ∧
    before.memories[id]? = some memory ∧
    after.values[id]? = some (cell.node.step memory (read after.values) time rate).1 ∧
    after.memories[id]? = some (cell.node.step memory (read after.values) time rate).2
  unchanged : ∀ id, id ∉ ids →
    after.memories[id]? = before.memories[id]? ∧ after.values[id]? = before.values[id]?

variable {arena : Arena} {time rate : Float}

/-- One step more, of a node whose inputs have had theirs. -/
theorem Stepped.step {ids : List Nat} {before after : Slots} {id : Nat} {cell : Cell}
    (h : Stepped arena time rate ids before after) (hids : arena.Settled (id :: ids))
    (hcell : arena[id]? = some cell) (hmemories : id < before.memories.size)
    (hvalues : id < before.values.size) :
    Stepped arena time rate (id :: ids) before
      (step (arena.map Cell.node) time rate after id) := by
  obtain ⟨hfresh, hinputs, hsettled⟩ := hids
  have hnode : (arena.map Cell.node)[id]? = some cell.node := by
    rw [Array.getElem?_map, hcell, Option.map_some]
  have hbefore : before.memories[id]? = some before.memories[id] :=
    Array.getElem?_eq_getElem hmemories
  rw [step_eq hnode ((h.unchanged id hfresh).1.trans hbefore)]
  -- Neither the node itself nor one that had its step before reads the slot that is written now.
  have hsame : ∀ {j cell}, arena[j]? = some cell → (∀ k ∈ arena.inputsOf j, k ∈ ids) →
      ∀ out memory, cell.node.step memory (read (after.values.setIfInBounds id out)) time rate =
        cell.node.step memory (read after.values) time rate := by
    intro j cell hj hread out memory
    refine step_read_set ?_ _ _ _ _ _
    intro hmem
    exact hfresh (hread id (Arena.inputsOf_eq hj ▸ hmem))
  refine
    { size_memories := by rw [Array.size_setIfInBounds, h.size_memories]
      size_values := by rw [Array.size_setIfInBounds, h.size_values]
      stepped := ?_
      unchanged := ?_ }
  · intro j hj
    by_cases heq : j = id
    · subst heq
      refine ⟨cell, before.memories[j], hcell, hbefore, ?_, ?_⟩
      · rw [hsame hcell hinputs, Array.getElem?_setIfInBounds_self_of_lt (h.size_values ▸ hvalues)]
      · rw [hsame hcell hinputs,
          Array.getElem?_setIfInBounds_self_of_lt (h.size_memories ▸ hmemories)]
    · have hj : j ∈ ids := (List.mem_cons.1 hj).resolve_left heq
      obtain ⟨other, memory, hother, hmemory, hvalue, hafter⟩ := h.stepped j hj
      have hread : ∀ k ∈ arena.inputsOf j, k ∈ ids := fun k hk => hsettled.inputs_mem hj hk
      refine ⟨other, memory, hother, hmemory, ?_, ?_⟩
      · rw [hsame hother hread, Array.getElem?_setIfInBounds_ne (Ne.symm heq), hvalue]
      · rw [hsame hother hread, Array.getElem?_setIfInBounds_ne (Ne.symm heq), hafter]
  · intro j hj
    rw [List.mem_cons, not_or] at hj
    obtain ⟨hne, hj⟩ := hj
    rw [Array.getElem?_setIfInBounds_ne (Ne.symm hne),
      Array.getElem?_setIfInBounds_ne (Ne.symm hne)]
    exact h.unchanged j hj

/-- A pass over a settled list, read backwards, is one step of each of its nodes. -/
theorem stepped_of_settled {ids : List Nat} (hids : arena.Settled ids) {before : Slots}
    (hrange : ∀ id ∈ ids, id < arena.size) (hmemories : before.memories.size = arena.size)
    (hvalues : before.values.size = arena.size) :
    Stepped arena time rate ids before
      (ids.reverse.foldl (Slots.step (arena.map Cell.node) time rate) before) := by
  rw [List.foldl_reverse]
  induction ids with
  | nil =>
      exact
        { size_memories := rfl
          size_values := rfl
          stepped := by simp
          unchanged := fun _ _ => ⟨rfl, rfl⟩ }
  | cons id rest ih =>
      have hid := hrange id List.mem_cons_self
      have hrest := ih hids.2.2 fun j hj => hrange j (List.mem_cons_of_mem _ hj)
      exact hrest.step hids (Array.getElem?_eq_getElem hid) (hmemories ▸ hid) (hvalues ▸ hid)

end Slots

/-! ## Finished graphs -/

namespace Arena

variable {settings : BuildSettings} {arena : Arena} {root : Nat}

/-- Every cell gets the memory that its place asks for. -/
theorem forNode_of_memoriesFrom {index : Nat} {cells : List Cell} {memories : List Memory}
    (h : memoriesFrom settings arena index cells = .ok memories) :
    memories.length = cells.length ∧ ∀ i cell, cells[i]? = some cell →
      ∃ memory, memories[i]? = some memory ∧
        Memory.forNode settings arena (index + i) cell = .ok memory := by
  induction cells generalizing index memories with
  | nil =>
      cases h
      exact ⟨rfl, by simp⟩
  | cons first rest ih =>
      obtain ⟨memory, hmemory, hmore⟩ := bind_eq_ok_iff.1 h
      obtain ⟨others, hothers, heq⟩ := bind_eq_ok_iff.1 hmore
      cases heq
      obtain ⟨hlength, hrest⟩ := ih hothers
      refine ⟨congrArg (· + 1) hlength, ?_⟩
      intro i cell hcell
      cases i with
      | zero =>
          cases hcell
          exact ⟨memory, rfl, hmemory⟩
      | succ i =>
          obtain ⟨other, hother, hfor⟩ := hrest i cell hcell
          refine ⟨other, hother, ?_⟩
          rwa [Nat.add_right_comm, Nat.add_assoc] at hfor

theorem Under.lt (hclosed : arena.Closed) (hroot : root < arena.size) {id : Nat}
    (h : arena.Under root id) : id < arena.size := by
  induction h with
  | refl => exact hroot
  | tail _ hj _ => exact hclosed _ _ hj

/-- What an arena has passed whose graph is finished, and what the graph starts with. -/
theorem finish_eq_ok_iff {g : Graph} :
    arena.finish settings root = .ok g ↔
      checkSampleRate settings.sampleRate = .ok () ∧ root < arena.size ∧ arena.check = .ok () ∧
        ∃ plan memories, arena.order root = .ok plan ∧
          memoriesFrom settings arena 0 arena.toList = .ok memories ∧
          g = {
            nodes := arena.map Cell.node
            memories := memories.toArray
            values := Array.replicate arena.size 0.0
            plan
            root
            clock := .start settings.sampleRate
            seed := settings.seed
            generation := 0 } := by
  have hroot : arena.checkRoot root = .ok () ↔ root < arena.size := by
    unfold checkRoot
    split
    · next hlt => simp [hlt]
    · next hlt => simp [hlt]
  rw [← hroot]
  constructor
  · intro h
    obtain ⟨_, hrate, h⟩ := bind_eq_ok_iff.1 h
    obtain ⟨_, hroot, h⟩ := bind_eq_ok_iff.1 h
    obtain ⟨_, hcheck, h⟩ := bind_eq_ok_iff.1 h
    obtain ⟨plan, hplan, h⟩ := bind_eq_ok_iff.1 h
    obtain ⟨memories, hmemories, h⟩ := bind_eq_ok_iff.1 h
    cases h
    exact ⟨hrate, hroot, hcheck, plan, memories, hplan, hmemories, rfl⟩
  · rintro ⟨hrate, hroot, hcheck, plan, memories, hplan, hmemories, rfl⟩
    rw [finish, hrate, hroot, hcheck, hplan, hmemories]
    rfl

end Arena

namespace Graph

/-- What changes during a tick. -/
def slots (g : Graph) : Slots :=
  ⟨g.memories, g.values⟩

/-- What a graph of an arena and a root keeps while it runs. -/
structure Built (arena : Arena) (root : Nat) (g : Graph) : Prop where
  nodes_eq : g.nodes = arena.map Cell.node
  root_eq : g.root = root
  settled : arena.Settled g.plan.reverse
  mem_plan : ∀ id, id ∈ g.plan ↔ arena.Under root id
  range : ∀ id ∈ g.plan, id < arena.size
  size_memories : g.memories.size = arena.size
  size_values : g.values.size = arena.size

theorem built_of_finish {settings : BuildSettings} {arena : Arena} {root : Nat} {g : Graph}
    (h : arena.finish settings root = .ok g) : Built arena root g := by
  obtain ⟨_, hroot, hcheck, plan, memories, hplan, hmemories, rfl⟩ := Arena.finish_eq_ok_iff.1 h
  obtain ⟨hsettled, hmem⟩ := Arena.settled_of_order hcheck hroot hplan
  exact
    { nodes_eq := rfl
      root_eq := rfl
      settled := hsettled
      mem_plan := hmem
      range := fun id hid => ((hmem id).1 hid).lt (Arena.closed_of_check hcheck) hroot
      size_memories := (Arena.forNode_of_memoriesFrom hmemories).1
      size_values := Array.size_replicate }

/-- Every node of a fresh graph has the memory that its cell asks for. -/
theorem start_of_finish {settings : BuildSettings} {arena : Arena} {root : Nat} {g : Graph}
    (h : arena.finish settings root = .ok g) {id : Nat} {cell : Cell}
    (hcell : arena[id]? = some cell) :
    ∃ start, g.memories[id]? = some start ∧ Memory.forNode settings arena id cell = .ok start := by
  obtain ⟨_, _, _, plan, memories, _, hmemories, rfl⟩ := Arena.finish_eq_ok_iff.1 h
  obtain ⟨start, hstart, hfor⟩ := (Arena.forNode_of_memoriesFrom hmemories).2 id cell (by
    rwa [Array.getElem?_toList])
  refine ⟨start, ?_, ?_⟩
  · rwa [List.getElem?_toArray]
  · rwa [Nat.zero_add] at hfor

/-- The slots after a tick are those after a pass over the plan. -/
theorem slots_evaluate (g : Graph) (clock : Clock) :
    (g.evaluate clock).2.slots =
      g.plan.foldl (Slots.step g.nodes clock.seconds clock.sampleRate) g.slots :=
  rfl

theorem evaluate_fst (g : Graph) (clock : Clock) :
    (g.evaluate clock).1 = (g.evaluate clock).2.values.getD g.root 0.0 :=
  rfl

namespace Built

variable {arena : Arena} {root : Nat} {g : Graph}

/-- An evaluation is one step of each node of the plan. -/
theorem stepped (h : Built arena root g) (clock : Clock) :
    Slots.Stepped arena clock.seconds clock.sampleRate g.plan.reverse g.slots
      (g.evaluate clock).2.slots := by
  have hrange : ∀ id ∈ g.plan.reverse, id < arena.size :=
    fun id hid => h.range id (List.mem_reverse.1 hid)
  have hpass : Slots.Stepped arena clock.seconds clock.sampleRate g.plan.reverse g.slots _ :=
    Slots.stepped_of_settled h.settled hrange h.size_memories h.size_values
  rw [List.reverse_reverse] at hpass
  rwa [slots_evaluate, h.nodes_eq]

theorem evaluate (h : Built arena root g) (clock : Clock) :
    Built arena root (g.evaluate clock).2 where
  nodes_eq := h.nodes_eq
  root_eq := h.root_eq
  settled := h.settled
  mem_plan := h.mem_plan
  range := h.range
  size_memories := (h.stepped clock).size_memories.trans h.size_memories
  size_values := (h.stepped clock).size_values.trans h.size_values

end Built

end Graph

end ToneGraph
