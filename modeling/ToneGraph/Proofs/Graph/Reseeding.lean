import ToneGraph.Proofs.Graph.Pairing
/-!
# Reseeding

A graph is seeded in two places: when it is built, and whenever it is given another seed.  Both
count the places of the nodes, and both start the same sources.  So a graph that is given a seed at
once is the graph that is built with it, and a graph that is given one later has the sources of
that graph, while everything else in it stays where it is.

What stays is no more than the past of other units.  If nothing under the root has a past, the two
graphs are heard alike from then on, although they may have come to different clocks and hold
different values.

## Main definitions

* `Node.Draws`: sources of random numbers.
* `Node.Pastless`: units that keep nothing but their place in a row of draws.
* `Graph.Alike`: two graphs of one arena and root with the same memories under the root.

## Main statements

* `Arena.finish_reseed`: a graph that is given a seed at once is built with it.
* `Graph.Alike.evaluate`: graphs of pastless units that are alike give the same output, and stay so.
* `Arena.reseeding_is_rebuilding`: what another seed does to a graph.
-/

namespace ToneGraph

open Synth

/-! ## Sources of random numbers -/

namespace Node

/-- The node draws random numbers. -/
def Draws : Node → Prop
  | noise _ => True
  | random => True
  | _ => False

/-- The node remembers nothing but its place in a row of draws, and it does not look at the
clock. -/
def Pastless : Node → Prop
  | noise _ => True
  | random => True
  | math _ _ => True
  | arithmetic _ _ _ => True
  | effect kind _ _ => kind = .distortion
  | constant _ => True
  | _ => False

variable {node : Node}

theorem Draws.pastless (h : node.Draws) : node.Pastless := by
  cases node with
  | noise | random => trivial
  | _ => contradiction

/-- A node that does not draw keeps its memory. -/
theorem Fits.reseed_eq {memory : Memory} (h : node.Fits memory) (hdraws : ¬ node.Draws)
    (seed : UInt64) : memory.reseed seed = memory := by
  cases h with
  | noise | random => exact absurd trivial hdraws
  | effect hkind => cases hkind <;> rfl
  | _ => rfl

/-- The past of a pastless node is gone with another seed. -/
theorem Fits.reseed_congr {memory memory' : Memory} (h : node.Fits memory)
    (h' : node.Fits memory') (hpastless : node.Pastless) (seed : UInt64) :
    memory.reseed seed = memory'.reseed seed := by
  cases h with
  | @noise color unit hcolor =>
      cases h' with
      | @noise _ unit' hcolor' =>
          rw [Memory.reseed, Memory.reseed, NoiseSource.reseed, NoiseSource.reseed, hcolor, hcolor']
  | random | math | arithmetic | constant =>
      cases h'
      rfl
  | effect hkind =>
      cases h' with
      | effect hkind' =>
          cases hpastless
          cases hkind
          cases hkind'
          rfl
  | oscillator | time | ramp => contradiction

/-- A pastless node gives the same at any time and any sample rate. -/
theorem Pastless.step_eq (h : node.Pastless) {read read' : Signal → Float}
    (hread : ∀ s ∈ node.inputs, read s = read' s) (memory : Memory)
    (time rate time' rate' : Float) :
    node.step memory read time rate = node.step memory read' time' rate' := by
  rw [step_congr hread]
  cases node with
  | oscillator | time | ramp => contradiction
  | noise | random => cases memory <;> rfl
  | math | arithmetic | effect | constant => rfl

end Node

/-! ## Building with another seed -/

namespace Memory

variable {settings : BuildSettings} {arena : Arena}

/-- A memory for another seed is the memory reseeded. -/
theorem forNode_reseed {index : Nat} {cell : Cell} {memory : Memory}
    (h : forNode settings arena index cell = .ok memory) (seed : UInt64) :
    forNode { settings with seed } arena index cell =
      .ok (memory.reseed (nodeSeed seed index)) := by
  -- The settings differ in the seed only, so all nodes but the sources ask for the same memory.
  by_cases hdraws : cell.node.Draws
  · obtain ⟨node, origin⟩ := cell
    cases node with
    | noise | random =>
        cases h
        rfl
    | _ => contradiction
  · rw [(fits_forNode h).reseed_eq hdraws, ← h]
    obtain ⟨node, origin⟩ := cell
    cases node with
    | noise | random => exact absurd trivial hdraws
    | _ => rfl

end Memory

namespace Arena

variable {settings : BuildSettings} {arena : Arena} {root : Nat} {g : Graph}

theorem memoriesFrom_reseed {index : Nat} {cells : List Cell} {memories : List Memory}
    (h : memoriesFrom settings arena index cells = .ok memories) (seed : UInt64) :
    memoriesFrom { settings with seed } arena index cells =
      .ok (memories.mapIdx fun i memory => memory.reseed (nodeSeed seed (index + i))) := by
  induction cells generalizing index memories with
  | nil =>
      cases h
      rfl
  | cons cell rest ih =>
      obtain ⟨memory, hmemory, hmore⟩ := bind_eq_ok_iff.1 h
      obtain ⟨others, hothers, heq⟩ := bind_eq_ok_iff.1 hmore
      cases heq
      rw [memoriesFrom, Memory.forNode_reseed hmemory, ih hothers, List.mapIdx_cons]
      simp only [Nat.add_zero, Nat.add_assoc, Nat.add_comm 1]
      rfl

/-- A graph that is given a seed at once is built with it. -/
theorem finish_reseed (h : arena.finish settings root = .ok g) (seed : UInt64) :
    arena.finish { settings with seed } root = .ok (g.reseed seed) := by
  obtain ⟨hrate, hroot, hcheck, plan, memories, hplan, hmemories, rfl⟩ := finish_eq_ok_iff.1 h
  refine finish_eq_ok_iff.2
    ⟨hrate, hroot, hcheck, plan, _, hplan, memoriesFrom_reseed hmemories seed, ?_⟩
  simp only [Graph.reseed, List.mapIdx_toArray, Nat.zero_add]

end Arena

/-! ## Graphs that are heard alike -/

/-- Two passes over pastless nodes, on the same memories, leave the same behind. -/
theorem Slots.Stepped.alike {arena : Arena} {time rate time' rate' : Float} {ids : List Nat}
    {before before' after after' : Slots} (h : Stepped arena time rate ids before after)
    (h' : Stepped arena time' rate' ids before' after') (hids : arena.Settled ids)
    (hpastless : ∀ id ∈ ids, ∀ cell, arena[id]? = some cell → cell.node.Pastless)
    (hmemories : ∀ id ∈ ids, before.memories[id]? = before'.memories[id]?) :
    ∀ id ∈ ids, after.values[id]? = after'.values[id]? ∧
      after.memories[id]? = after'.memories[id]? := by
  refine hids.induction ?_
  intro id hid hinputs
  obtain ⟨cell, memory, hcell, hmemory, hvalue, hafter⟩ := h.stepped id hid
  obtain ⟨cell', memory', hcell', hmemory', hvalue', hafter'⟩ := h'.stepped id hid
  cases hcell.symm.trans hcell'
  cases hmemory.symm.trans ((hmemories id hid).trans hmemory')
  have hread : ∀ s ∈ cell.node.inputs, read after.values s = read after'.values s := by
    intro s hs
    cases s with
    | constant value => rfl
    | node j =>
        have hj := (hinputs j (Arena.inputsOf_eq hcell ▸ Node.mem_inputNodes hs)).1
        rw [read, read, Array.getD_eq_getD_getElem?, Array.getD_eq_getD_getElem?, hj]
  have hstep := (hpastless id hid cell hcell).step_eq hread memory time rate time' rate'
  rw [hvalue, hvalue', hafter, hafter', hstep]
  exact ⟨rfl, rfl⟩

namespace Graph

/-- Two graphs of one arena and root have the same memories under the root.  Their values and
clocks may differ. -/
structure Alike (arena : Arena) (root : Nat) (g g' : Graph) : Prop where
  left : Built arena root g
  right : Built arena root g'
  plan_eq : g'.plan = g.plan
  memories : ∀ id ∈ g.plan, g.memories[id]? = g'.memories[id]?

namespace Alike

variable {arena : Arena} {root : Nat} {g g' : Graph}

/-- Graphs of pastless units that are alike give the same output at any two clocks, and they are
alike again. -/
theorem evaluate (h : Alike arena root g g')
    (hpastless : ∀ id ∈ g.plan, ∀ cell, arena[id]? = some cell → cell.node.Pastless)
    (clock clock' : Clock) :
    (g.evaluate clock).1 = (g'.evaluate clock').1 ∧
      Alike arena root (g.evaluate clock).2 (g'.evaluate clock').2 := by
  have hpass := h.left.stepped clock
  have hpass' := h.right.stepped clock'
  rw [h.plan_eq] at hpass'
  have halike := hpass.alike hpass' h.left.settled
    (fun id hid => hpastless id (List.mem_reverse.1 hid))
    (fun id hid => h.memories id (List.mem_reverse.1 hid))
  have hroot : root ∈ g.plan.reverse :=
    List.mem_reverse.2 ((h.left.mem_plan root).2 (.refl arena root))
  constructor
  · have hvalue : (g.evaluate clock).2.values[root]? = (g'.evaluate clock').2.values[root]? :=
      (halike root hroot).1
    rw [evaluate_fst, evaluate_fst, h.left.root_eq, h.right.root_eq, Array.getD_eq_getD_getElem?,
      Array.getD_eq_getD_getElem?, hvalue]
  · exact
      { left := h.left.evaluate clock
        right := h.right.evaluate clock'
        plan_eq := h.plan_eq
        memories := fun id hid => (halike id (List.mem_reverse.2 hid)).2 }

/-- Graphs of pastless units that are alike render the same. -/
theorem renderOnto (h : Alike arena root g g')
    (hpastless : ∀ id ∈ g.plan, ∀ cell, arena[id]? = some cell → cell.node.Pastless)
    (out : Array Float) (ticks : Nat) :
    (g.renderOnto out ticks).1 = (g'.renderOnto out ticks).1 := by
  induction ticks generalizing g g' out with
  | zero => rfl
  | succ ticks ih =>
      obtain ⟨hout, hnext⟩ := h.evaluate hpastless g.clock g'.clock
      have hadvanced : Alike arena root g.next.2 g'.next.2 :=
        { left := h.left.next
          right := h.right.next
          plan_eq := hnext.plan_eq
          memories := hnext.memories }
      rw [Graph.renderOnto, Graph.renderOnto]
      show (g.next.2.renderOnto (out.push (g.evaluate g.clock).1) ticks).1 = _
      rw [hout]
      exact ih hadvanced hpastless _

end Alike

end Graph

/-! ## Another seed for a graph -/

namespace Graph

variable {settings : BuildSettings} {arena : Arena} {root : Nat} {g : Graph}

theorem memories_reseed (g : Graph) (seed : UInt64) (id : Nat) :
    (g.reseed seed).memories[id]? =
      g.memories[id]?.map fun memory => memory.reseed (nodeSeed seed id) :=
  Array.getElem?_mapIdx

/-- A cell has a memory that fits after whatever calls. -/
theorem fits_of_finish (h : arena.finish settings root = .ok g) (calls : List Call) {id : Nat}
    {cell : Cell} (hcell : arena[id]? = some cell) :
    ∃ memory, (g.afterCalls calls).memories[id]? = some memory ∧ cell.node.Fits memory := by
  have hnode : (g.afterCalls calls).nodes[id]? = some cell.node := by
    rw [((built_of_finish h).afterCalls calls).nodes_eq, Array.getElem?_map, hcell, Option.map_some]
  exact ((whole_of_finish h).afterCalls calls).paired.fits id cell.node hnode

/-- What a seed gives a pastless node does not depend on the calls before. -/
theorem memories_reseed_afterCalls (h : arena.finish settings root = .ok g) (calls : List Call)
    (seed : UInt64) {id : Nat} {cell : Cell} (hcell : arena[id]? = some cell)
    (hpastless : cell.node.Pastless) :
    ((g.afterCalls calls).reseed seed).memories[id]? = (g.reseed seed).memories[id]? := by
  obtain ⟨memory, hmemory, hfits⟩ := fits_of_finish h calls hcell
  obtain ⟨first, hfirst, hfits'⟩ := fits_of_finish h [] hcell
  replace hfirst : g.memories[id]? = some first := hfirst
  rw [memories_reseed, memories_reseed, hmemory, hfirst, Option.map_some, Option.map_some,
    hfits.reseed_congr hfits' hpastless]

/-- If all nodes under the root are pastless, a seed makes a graph after whatever calls like one
that was not called. -/
theorem alike_reseed (h : arena.finish settings root = .ok g) (calls : List Call) (seed : UInt64)
    (hpastless : ∀ id ∈ g.plan, ∀ cell, arena[id]? = some cell → cell.node.Pastless) :
    Alike arena root ((g.afterCalls calls).reseed seed) (g.reseed seed) := by
  have hbuilt := built_of_finish h
  have hplan : ((g.afterCalls calls).reseed seed).plan = g.plan := g.plan_afterCalls calls
  refine
    { left := (hbuilt.afterCalls calls).reseed seed
      right := hbuilt.reseed seed
      plan_eq := hplan.symm
      memories := ?_ }
  intro id hid
  rw [hplan] at hid
  have hcell := Array.getElem?_eq_getElem (hbuilt.range id hid)
  exact memories_reseed_afterCalls h calls seed hcell (hpastless id hid _ hcell)

end Graph

namespace Arena

/-- A seed that a graph is given at once is as good as one that it was built with.  Given later,
after whatever calls, it brings every source of random numbers to where the rebuilt graph has it,
and leaves the memories of all other nodes and whatever else the graph holds alone.  If all nodes
under the root are pastless, the graph is then heard like the rebuilt one. -/
theorem reseeding_is_rebuilding {settings : BuildSettings} {arena : Arena} {root : Nat} {g : Graph}
    (h : arena.finish settings root = .ok g) (seed : UInt64) :
    ∃ fresh, arena.finish { settings with seed } root = .ok fresh ∧ g.reseed seed = fresh ∧
      ∀ calls,
        let old := g.afterCalls calls
        let new := old.reseed seed
        new = { old with memories := new.memories, seed } ∧
        (∀ (id : Nat) (cell : Cell), arena[id]? = some cell →
          ∃ memory, new.memories[id]? = some memory ∧
            (cell.node.Draws → fresh.memories[id]? = some memory) ∧
            (¬ cell.node.Draws → old.memories[id]? = some memory)) ∧
        ((∀ id ∈ g.plan, ∀ cell, arena[id]? = some cell → cell.node.Pastless) →
          ∀ ticks, (new.render ticks).1 = (fresh.render ticks).1) := by
  refine ⟨g.reseed seed, finish_reseed h seed, rfl, ?_⟩
  intro calls old new
  refine ⟨rfl, ?_, ?_⟩
  · intro id cell hcell
    obtain ⟨memory, hmemory, hfits⟩ := Graph.fits_of_finish h calls hcell
    have hnew : new.memories[id]? = some (memory.reseed (nodeSeed seed id)) := by
      rw [old.memories_reseed, hmemory, Option.map_some]
    refine ⟨_, hnew, ?_, ?_⟩
    · intro hdraws
      rw [← hnew]
      exact (Graph.memories_reseed_afterCalls h calls seed hcell hdraws.pastless).symm
    · intro hdraws
      rw [hfits.reseed_eq hdraws]
      exact hmemory
  · intro hpastless ticks
    have halike := Graph.alike_reseed h calls seed hpastless
    refine halike.renderOnto ?_ #[] ticks
    intro id hid
    exact hpastless id (g.plan_afterCalls calls ▸ hid)

/-- Two sources of random numbers through a distortion, and a sine that nobody hears: after five
ticks the seed is as good as new to the sources, and the sine goes on. -/
theorem reseeded_noise_is_new_noise :
    let arena : Arena := #[⟨.noise .pink, some 11⟩, ⟨.random, some 18⟩,
      ⟨.arithmetic .mul (.node 0) (.node 1), some 16⟩,
      ⟨.effect .distortion (.node 2) [.constant 4.0], some 0⟩,
      ⟨.oscillator .sine (.constant 440.0), none⟩]
    ∃ g fresh, arena.finish ⟨48000.0, 42, 10.0⟩ 3 = .ok g ∧
      arena.finish ⟨48000.0, 7, 10.0⟩ 3 = .ok fresh ∧ g.reseed 7 = fresh ∧
      (((g.render 5).2.reseed 7).render 3).1 = (fresh.render 3).1 ∧
      ∃ memory, ((g.render 5).2.reseed 7).memories[4]? = some memory ∧
        (g.render 5).2.memories[4]? = some memory := by
  intro arena
  have horder : arena.order 3 = .ok [0, 1, 2, 3] := by
    simp [Arena.order, search_enter, search, arena, inputsOf, Node.inputNodes, Node.inputs,
      Signal.node?, List.filterMap]
  obtain ⟨g, hfinish, hplan⟩ :
      ∃ g, arena.finish ⟨48000.0, 42, 10.0⟩ 3 = .ok g ∧ g.plan = [0, 1, 2, 3] :=
    ⟨_, finish_eq_ok_iff.2 ⟨if_pos (by decide), by decide, rfl, _, _, horder, rfl, rfl⟩, rfl⟩
  have hpastless : ∀ id ∈ g.plan, ∀ cell, arena[id]? = some cell → cell.node.Pastless := by
    intro id hid cell hcell
    rw [hplan] at hid
    simp only [List.mem_cons, List.not_mem_nil, or_false] at hid
    rcases hid with rfl | rfl | rfl | rfl <;> cases hcell <;> trivial
  obtain ⟨fresh, hfresh, hequal, hcalls⟩ := reseeding_is_rebuilding hfinish 7
  obtain ⟨-, hmemories, hrender⟩ := hcalls [.render 5]
  obtain ⟨memory, hnew, -, hkept⟩ := hmemories 4 _ rfl
  exact ⟨g, fresh, hfinish, hfresh, hequal, hrender hpastless 3, memory, hnew, hkept id⟩

end Arena

end ToneGraph
