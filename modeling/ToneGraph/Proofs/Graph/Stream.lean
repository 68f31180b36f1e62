import ToneGraph.Proofs.Graph.Tick
/-!
# Streams

What a graph means, with no plan and no slots: under a sequence of clocks every node gives a
stream, made by running the unit of the node from its first memory on the streams of its inputs.
Where the inputs lead back to the node there is no such stream.

Evaluation refines this meaning.  The values that a node leaves in its slot, call after call, are
its stream, since every step reads values of the same call.

## Main definitions

* `Node.outputAt`: the output of one unit in a tick, from the streams of its inputs.
* `Arena.Flows`: the stream of a node, by recursion over its inputs.
* `Graph.after`: a graph after some calls.

## Main statements

* `Arena.Flows.unique`: a node has one stream at most.
* `Arena.finish_refines_streams`: the calls of a finished graph give the stream of its root.
-/

namespace ToneGraph

open Synth

/-- The value of a signal in a tick, from the streams of all nodes. -/
def Signal.valueAt (streams : Nat → Nat → Float) (tick : Nat) : Signal → Float
  | .constant value => value
  | .node id => streams id tick

namespace Node

/-- The memory of a unit before a tick, from its first memory and the streams of its inputs. -/
def memoryAt (node : Node) (start : Memory) (streams : Nat → Nat → Float) (clocks : Nat → Clock) :
    Nat → Memory
  | 0 => start
  | n + 1 =>
    (node.step (memoryAt node start streams clocks n) (Signal.valueAt streams n)
      (clocks n).seconds (clocks n).sampleRate).2

/-- The output of a unit in a tick, from its first memory and the streams of its inputs. -/
def outputAt (node : Node) (start : Memory) (streams : Nat → Nat → Float) (clocks : Nat → Clock)
    (n : Nat) : Float :=
  (node.step (node.memoryAt start streams clocks n) (Signal.valueAt streams n)
    (clocks n).seconds (clocks n).sampleRate).1

variable {node : Node} {streams streams' : Nat → Nat → Float}

private theorem step_valueAt_congr (h : ∀ j ∈ node.inputNodes, streams j = streams' j) (n : Nat)
    (memory : Memory) (time rate : Float) :
    node.step memory (Signal.valueAt streams n) time rate =
      node.step memory (Signal.valueAt streams' n) time rate := by
  refine step_congr ?_ memory time rate
  intro s hs
  cases s with
  | constant value => rfl
  | node j => exact congrFun (h j (mem_inputNodes hs)) n

theorem memoryAt_congr (h : ∀ j ∈ node.inputNodes, streams j = streams' j) (start : Memory)
    (clocks : Nat → Clock) (n : Nat) :
    node.memoryAt start streams clocks n = node.memoryAt start streams' clocks n := by
  induction n with
  | zero => rfl
  | succ n ih => rw [memoryAt, memoryAt, ih, step_valueAt_congr h]

/-- A unit gives the same outputs on the same streams of its own inputs. -/
theorem outputAt_congr (h : ∀ j ∈ node.inputNodes, streams j = streams' j) (start : Memory)
    (clocks : Nat → Clock) :
    node.outputAt start streams clocks = node.outputAt start streams' clocks := by
  funext n
  rw [outputAt, outputAt, memoryAt_congr h, step_valueAt_congr h]

end Node

namespace Arena

/-- The node at a place gives a stream: its unit runs from its first memory on the streams that its
inputs give. -/
inductive Flows (arena : Arena) (settings : BuildSettings) (clocks : Nat → Clock) :
    Nat → (Nat → Float) → Prop
  | node {id : Nat} {cell : Cell} {start : Memory} {streams : Nat → Nat → Float} :
      arena[id]? = some cell → Memory.forNode settings arena id cell = .ok start →
      (∀ j ∈ cell.node.inputNodes, Flows arena settings clocks j (streams j)) →
      Flows arena settings clocks id (cell.node.outputAt start streams clocks)

/-- A node has one stream at most. -/
theorem Flows.unique {arena : Arena} {settings : BuildSettings} {clocks : Nat → Clock} {id : Nat}
    {s s' : Nat → Float} (h : arena.Flows settings clocks id s)
    (h' : arena.Flows settings clocks id s') : s' = s := by
  induction h generalizing s' with
  | @node id cell start streams hcell hstart _ ih =>
      cases h' with
      | @node _ cell' start' streams' hcell' hstart' hinputs' =>
          have heq : cell' = cell := Option.some.inj (hcell'.symm.trans hcell)
          subst heq
          have hmemory : start' = start := Except.ok.inj (hstart'.symm.trans hstart)
          subst hmemory
          exact Node.outputAt_congr (fun j hj => ih j hj (hinputs' j hj)) _ _

end Arena

/-! ## Runs of a graph -/

namespace Graph

/-- The graph after the first calls under a sequence of clocks. -/
def after (g : Graph) (clocks : Nat → Clock) : Nat → Graph
  | 0 => g
  | n + 1 => ((after g clocks n).evaluate (clocks n)).2

/-- The value that stands in the slot of a node after a call. -/
def valueAfter (g : Graph) (clocks : Nat → Clock) (id n : Nat) : Float :=
  (g.after clocks (n + 1)).values.getD id 0.0

namespace Built

variable {arena : Arena} {root : Nat} {g : Graph}

theorem after (h : Built arena root g) (clocks : Nat → Clock) (n : Nat) :
    Built arena root (g.after clocks n) := by
  induction n with
  | zero => exact h
  | succ n ih => exact ih.evaluate (clocks n)

/-- In every call each node under the root takes one step, on the values of that call. -/
theorem step_of_under (h : Built arena root g) (clock : Clock) {id : Nat}
    (hid : arena.Under root id) :
    let call := g.evaluate clock
    ∃ cell memory, arena[id]? = some cell ∧ g.memories[id]? = some memory ∧
      call.2.values[id]? =
        some (cell.node.step memory (Slots.read call.2.values) clock.seconds clock.sampleRate).1 ∧
      call.2.memories[id]? =
        some (cell.node.step memory (Slots.read call.2.values) clock.seconds clock.sampleRate).2 :=
  (h.stepped clock).stepped id (List.mem_reverse.2 ((h.mem_plan id).2 hid))

/-- No call changes a slot of a node that is not under the root. -/
theorem unchanged_of_not_under (h : Built arena root g) (clocks : Nat → Clock) {id : Nat}
    (hid : ¬ arena.Under root id) (n : Nat) :
    (g.after clocks n).memories[id]? = g.memories[id]? ∧
      (g.after clocks n).values[id]? = g.values[id]? := by
  induction n with
  | zero => exact ⟨rfl, rfl⟩
  | succ n ih =>
      have hmem : id ∉ (g.after clocks n).plan.reverse := by
        rw [List.mem_reverse, (h.after clocks n).mem_plan]
        exact hid
      obtain ⟨hmemory, hvalue⟩ := ((h.after clocks n).stepped (clocks n)).unchanged id hmem
      exact ⟨hmemory.trans ih.1, hvalue.trans ih.2⟩

/-- The values that a node under the root leaves in its slot are a run of its unit. -/
theorem outputAt_eq (h : Built arena root g) (clocks : Nat → Clock) {id : Nat}
    (hid : arena.Under root id) {cell : Cell} {start : Memory} (hcell : arena[id]? = some cell)
    (hstart : g.memories[id]? = some start) :
    cell.node.outputAt start (g.valueAfter clocks) clocks = g.valueAfter clocks id := by
  -- What a call leaves in the slots is what its steps have read.
  have hread : ∀ n, Slots.read (g.after clocks (n + 1)).values =
      Signal.valueAt (g.valueAfter clocks) n := by
    intro n
    funext s
    cases s <;> rfl
  have hstep := fun n => (h.after clocks n).step_of_under (clocks n) hid
  have hmemories : ∀ n, (g.after clocks n).memories[id]? =
      some (cell.node.memoryAt start (g.valueAfter clocks) clocks n) := by
    intro n
    induction n with
    | zero => exact hstart
    | succ n ih =>
        obtain ⟨cell', memory, hcell', hmemory, _, hafter⟩ := hstep n
        cases hcell.symm.trans hcell'
        cases ih.symm.trans hmemory
        rw [Node.memoryAt, ← hread]
        exact hafter
  funext n
  obtain ⟨cell', memory, hcell', hmemory, hvalue, _⟩ := hstep n
  cases hcell.symm.trans hcell'
  cases (hmemories n).symm.trans hmemory
  rw [valueAfter, Array.getD_eq_getD_getElem?]
  show _ = (((g.after clocks n).evaluate (clocks n)).2.values[id]?).getD 0.0
  rw [hvalue, Node.outputAt, ← hread]
  rfl

end Built

variable {settings : BuildSettings} {arena : Arena} {root : Nat} {g : Graph}

/-- What the nodes under the root leave in their slots are their streams. -/
theorem flows_of_finish (h : arena.finish settings root = .ok g) (clocks : Nat → Clock) {id : Nat}
    (hid : arena.Under root id) : arena.Flows settings clocks id (g.valueAfter clocks id) := by
  have hbuilt := built_of_finish h
  have hplan : ∀ {i}, i ∈ g.plan.reverse ↔ arena.Under root i := by
    intro i
    rw [List.mem_reverse, hbuilt.mem_plan]
  have hall : ∀ i ∈ g.plan.reverse, arena.Flows settings clocks i (g.valueAfter clocks i) := by
    refine hbuilt.settled.induction ?_
    intro i hi hinputs
    have hlt : i < arena.size := hbuilt.range i (List.mem_reverse.1 hi)
    have hcell : arena[i]? = some arena[i] := Array.getElem?_eq_getElem hlt
    obtain ⟨start, hstart, hfor⟩ := start_of_finish h hcell
    rw [← hbuilt.outputAt_eq clocks (hplan.1 hi) hcell hstart]
    refine .node hcell hfor ?_
    intro j hj
    exact hinputs j (Arena.inputsOf_eq hcell ▸ hj)
  exact hall id (hplan.2 hid)

/-! ## Rendering -/

/-- The clocks of the next ticks of a graph. -/
def ownClocks (g : Graph) (n : Nat) : Clock :=
  ⟨g.clock.tick + n, g.clock.sampleRate⟩

theorem after_succ (g : Graph) (clocks : Nat → Clock) (n : Nat) :
    g.after clocks (n + 1) = (g.evaluate (clocks 0)).2.after (fun k => clocks (k + 1)) n := by
  induction n with
  | zero => rfl
  | succ n ih =>
      show ((g.after clocks (n + 1)).evaluate (clocks (n + 1))).2 = _
      rw [ih]
      rfl

/-- An evaluation looks at the clock it is given, not at the graph's own. -/
theorem after_setClock (g : Graph) (clock : Clock) (clocks : Nat → Clock) (n : Nat) :
    { g with clock }.after clocks n = { g.after clocks n with clock } := by
  induction n with
  | zero => rfl
  | succ n ih =>
      rw [after, ih]
      rfl

/-- Rendering adds the outputs of evaluations at the graph's own clocks. -/
theorem renderOnto_toList (out : Array Float) (n : Nat) (g : Graph) :
    (renderOnto out n g).1.toList =
      out.toList ++ (List.range n).map fun k =>
        ((g.after g.ownClocks k).evaluate (g.ownClocks k)).1 := by
  induction n generalizing out g with
  | zero => simp [renderOnto]
  | succ n ih =>
      have hshift : ∀ k, ((g.evaluate g.clock).2.after (fun k => g.ownClocks (k + 1)) k) =
          g.after g.ownClocks (k + 1) :=
        fun k => (after_succ g g.ownClocks k).symm
      rw [renderOnto]
      show (renderOnto (out.push (g.evaluate g.clock).1) n
        { (g.evaluate g.clock).2 with clock := g.clock.advance }).1.toList = _
      rw [ih, Array.toList_push, List.append_assoc, List.singleton_append,
        List.range_succ_eq_map, List.map_cons, List.map_map]
      have hclocks : ownClocks { (g.evaluate g.clock).2 with clock := g.clock.advance } =
          fun k => g.ownClocks (k + 1) := by
        funext k
        simp only [ownClocks, Clock.advance, Nat.add_assoc, Nat.add_comm 1]
      rw [hclocks]
      congr 2
      refine List.map_congr_left fun k _ => ?_
      rw [after_setClock, hshift]
      rfl

/-- The outputs of a run are the values that the root leaves in its slot. -/
theorem output_of_finish (h : arena.finish settings root = .ok g) (clocks : Nat → Clock) (n : Nat) :
    ((g.after clocks n).evaluate (clocks n)).1 = g.valueAfter clocks root n := by
  rw [evaluate_fst, ((built_of_finish h).after clocks n).root_eq]
  rfl

/-- The clocks of a fresh graph count from zero. -/
theorem render_of_finish (h : arena.finish settings root = .ok g) (n : Nat) :
    (g.render n).1.toList =
      (List.range n).map (g.valueAfter (fun k => ⟨k, settings.sampleRate⟩) root) := by
  have hclocks : g.ownClocks = fun k => ⟨k, settings.sampleRate⟩ := by
    obtain ⟨_, _, _, _, _, _, _, rfl⟩ := Arena.finish_eq_ok_iff.1 h
    funext k
    exact congrArg (Clock.mk · settings.sampleRate) (Nat.zero_add k)
  rw [render, renderOnto_toList, hclocks, Array.toList_empty, List.nil_append]
  exact List.map_congr_left fun k _ => output_of_finish h _ k

end Graph

namespace Arena

variable {settings : BuildSettings} {arena : Arena} {root : Nat} {g : Graph}

/-- A finished graph under any sequence of clocks.  In every call the nodes under the root take
one step each on values of the same call, the call returns the value of the root, and all other
slots stay as they were made.  So the calls return the stream of the root, which is the only one,
and so does rendering, whose clocks count from zero. -/
theorem finish_refines_streams (hfinish : arena.finish settings root = .ok g)
    (clocks : Nat → Clock) :
    (∀ n,
      let before := g.after clocks n
      let call := before.evaluate (clocks n)
      let step (cell : Cell) (memory : Memory) := cell.node.step memory
        (Slots.read call.2.values) (clocks n).seconds (clocks n).sampleRate
      (∀ id, arena.Under root id → ∃ cell memory,
        arena[id]? = some cell ∧ before.memories[id]? = some memory ∧
        call.2.values[id]? = some (step cell memory).1 ∧
        call.2.memories[id]? = some (step cell memory).2) ∧
      call.2.values[root]? = some call.1 ∧
      ∀ id, ¬ arena.Under root id →
        call.2.memories[id]? = g.memories[id]? ∧ call.2.values[id]? = g.values[id]?) ∧
    (∃ s, arena.Flows settings clocks root s ∧
      (∀ s', arena.Flows settings clocks root s' → s' = s) ∧
      ∀ n, ((g.after clocks n).evaluate (clocks n)).1 = s n) ∧
    ∃ s, arena.Flows settings (fun n => ⟨n, settings.sampleRate⟩) root s ∧
      (∀ s', arena.Flows settings (fun n => ⟨n, settings.sampleRate⟩) root s' → s' = s) ∧
      ∀ n, (g.render n).1.toList = (List.range n).map s := by
  have hbuilt := Graph.built_of_finish hfinish
  have hflows := fun clocks => Graph.flows_of_finish hfinish clocks (.refl arena root)
  refine ⟨?_, ?_, ?_⟩
  · intro n
    have hbefore := hbuilt.after clocks n
    refine ⟨fun id hid => hbefore.step_of_under (clocks n) hid, ?_, ?_⟩
    · obtain ⟨cell, memory, _, _, hvalue, _⟩ :=
        hbefore.step_of_under (clocks n) (.refl arena root)
      rw [Graph.evaluate_fst, hbefore.root_eq, Array.getD_eq_getD_getElem?, hvalue]
      rfl
    · intro id hid
      exact hbuilt.unchanged_of_not_under clocks hid (n + 1)
  · exact ⟨_, hflows clocks, fun _ h => (hflows clocks).unique h,
      Graph.output_of_finish hfinish clocks⟩
  · exact ⟨_, hflows _, fun _ h => (hflows _).unique h, Graph.render_of_finish hfinish⟩

/-- A sine that is both inputs of an addition: the graph renders the stream of the addition. -/
theorem shared_oscillator_renders_its_stream :
    let arena : Arena := #[⟨.oscillator .sine (.constant 100.0), some 0⟩,
      ⟨.arithmetic .add (.node 0) (.node 0), some 12⟩]
    let settings : BuildSettings := ⟨48000.0, defaultSeed, defaultMaxDelay⟩
    ∃ g s, arena.finish settings 1 = .ok g ∧
      arena.Flows settings (fun n => ⟨n, 48000.0⟩) 1 s ∧
      (g.render 3).1.toList = [s 0, s 1, s 2] := by
  intro arena settings
  have hcheck : arena.check = .ok () := by rfl
  have horder : arena.order 1 = .ok [0, 1] := by
    simp [Arena.order, search_enter, search, arena, inputsOf, Node.inputNodes, Node.inputs,
      Signal.node?, List.filterMap]
  have hfinish : arena.finish settings 1 = .ok _ :=
    finish_eq_ok_iff.2 ⟨if_pos (by decide), by decide, hcheck, _, _, horder, rfl, rfl⟩
  obtain ⟨_, _, s, hflows, _, hrender⟩ := finish_refines_streams hfinish fun n => ⟨n, 48000.0⟩
  exact ⟨_, s, hfinish, hflows, hrender 3⟩

end Arena

end ToneGraph
