import ToneGraph.Proofs.Graph.Acceptance
import ToneGraph.Proofs.Graph.Calls
/-!
# Constants

The time of a delay is computed twice: once from the arena when the graph is built, and in every
tick from the slots, where nobody looks at it.  Both follow the same operators from the same
constants, so they agree bit for bit.

The walk through the arena has a budget, since an arena may hold cycles that the root does not
reach.  A path without a cycle has no node twice, so it is no longer than the arena, and a budget of
its size lasts.

## Main definitions

* `Node.Folds`: units whose output is known if their inputs are.
* `Arena.Cone`: the nodes that a signal reads, directly or through others.
* `Arena.Suffices`: a budget lasts for the walk from a signal.

## Main statements

* `Arena.suffices_of_acyclic`: a budget of the arena's size lasts where there is no cycle.
* `Slots.Stepped.read_constant`: a constant is what a tick leaves in the slot.
* `Arena.constant_agrees_with_evaluation`: the time of a delay, and which signals are constants.
-/

namespace ToneGraph

open Synth

/-! ## One node -/

theorem mapM_congr_of_mem {read read' : Signal → Option Float} {signals : List Signal}
    (h : ∀ s ∈ signals, read s = read' s) : signals.mapM read = signals.mapM read' := by
  induction signals with
  | nil => rfl
  | cons s rest ih =>
      obtain ⟨hfirst, hrest⟩ := List.forall_mem_cons.1 h
      rw [List.mapM_cons, List.mapM_cons, hfirst, ih hrest]

theorem mapM_eq_some_map {read : Signal → Option Float} {values : Signal → Float}
    {signals : List Signal} (h : ∀ s ∈ signals, read s = some (values s)) :
    signals.mapM read = some (signals.map values) :=
  (mapM_congr_of_mem h).trans List.mapM_pure

theorem exists_mapM_iff {read : Signal → Option Float} {signals : List Signal} :
    (∃ xs, signals.mapM read = some xs) ↔ ∀ s ∈ signals, ∃ x, read s = some x := by
  induction signals with
  | nil => simp
  | cons s rest ih =>
      rw [List.forall_mem_cons, ← ih, List.mapM_cons]
      cases read s <;> cases rest.mapM read <;> simp

namespace Node

/-- The value of a unit that is known before the first tick, from those of its inputs. -/
def foldWith (read : Signal → Option Float) : Node → Option Float
  | constant value => some value
  | arithmetic op left right => do
    let a ← read left
    let b ← read right
    return op.apply a b
  | math op inputs => do
    let xs ← (inputs.take 3).mapM read
    return op.applyList xs
  | _ => none

/-- Units whose value is known if those of their inputs are. -/
def Folds : Node → Prop
  | constant _ => True
  | arithmetic _ _ _ => True
  | math _ _ => True
  | _ => False

variable {node : Node} {read : Signal → Option Float}

theorem foldWith_congr {read' : Signal → Option Float} (h : ∀ s ∈ node.inputs, read s = read' s) :
    node.foldWith read = node.foldWith read' := by
  cases node with
  | arithmetic op left right =>
      rw [foldWith, foldWith, h left (by simp [inputs]), h right (by simp [inputs])]
  | math op inputs =>
      have hread : (inputs.take 3).mapM read = (inputs.take 3).mapM read' :=
        mapM_congr_of_mem fun s hs => h s (List.mem_of_mem_take hs)
      rw [foldWith, foldWith, hread]
  | _ => rfl

/-- No function of numbers has more than three inputs. -/
theorem take_inputs {op : MathOp} {inputs : List Signal}
    (h : (Node.math op inputs).inputs.length = (Node.math op inputs).arity) :
    inputs.take 3 = inputs := by
  refine List.take_of_length_le ?_
  have hlength : inputs.length = op.arity := h
  rw [hlength]
  cases op <;> decide

theorem exists_foldWith_iff (harity : node.inputs.length = node.arity) :
    (∃ value, node.foldWith read = some value) ↔
      node.Folds ∧ ∀ s ∈ node.inputs, ∃ x, read s = some x := by
  cases node with
  | constant value => simp [foldWith, Folds, inputs]
  | arithmetic op left right =>
      cases hleft : read left <;> cases hright : read right <;>
        simp [foldWith, Folds, inputs, hleft, hright]
  | math op inputs =>
      have hall : (∃ xs, inputs.mapM read = some xs) ↔ _ := exists_mapM_iff
      rw [foldWith, take_inputs harity]
      show _ ↔ True ∧ ∀ s ∈ inputs, ∃ x, read s = some x
      rw [true_and, ← hall]
      cases inputs.mapM read <;> simp
  | _ => simp [foldWith, Folds]

/-- A tick gives the value that was known before, if it reads the known values. -/
theorem step_of_foldWith {value : Float} (h : node.foldWith read = some value)
    {values : Signal → Float} (hread : ∀ s ∈ node.inputs, ∀ x, read s = some x → values s = x)
    (memory : Memory) (time rate : Float) : (node.step memory values time rate).1 = value := by
  cases node with
  | constant other => exact Option.some.inj h
  | arithmetic op left right =>
      obtain ⟨a, hleft, h⟩ := Option.bind_eq_some_iff.1 h
      obtain ⟨b, hright, h⟩ := Option.bind_eq_some_iff.1 h
      rw [step, hread left (by simp [inputs]) a hleft, hread right (by simp [inputs]) b hright]
      exact Option.some.inj h
  | math op inputs =>
      obtain ⟨xs, hxs, h⟩ := Option.bind_eq_some_iff.1 h
      have hsome : ∀ s ∈ inputs.take 3, read s = some (values s) := by
        intro s hs
        obtain ⟨x, hx⟩ := exists_mapM_iff.1 ⟨xs, hxs⟩ s hs
        rw [hx, hread s (List.mem_of_mem_take hs) x hx]
      have hmap : (inputs.take 3).map values = xs :=
        Option.some.inj ((mapM_eq_some_map hsome).symm.trans hxs)
      rw [step, hmap]
      exact Option.some.inj h
  | _ => contradiction

end Node

namespace Arena

variable {arena : Arena} {settings : BuildSettings} {root : Nat}

theorem constantWithin_succ (arena : Arena) (budget id : Nat) :
    arena.constantWithin (budget + 1) (.node id) =
      arena[id]?.bind fun cell => cell.node.foldWith (arena.constantWithin budget) := by
  rw [constantWithin]
  cases arena[id]? with
  | none => rfl
  | some cell =>
      obtain ⟨node, origin⟩ := cell
      cases node <;> rfl

/-! ## Budgets -/

/-- The nodes that a signal reads, directly or through others. -/
def Cone (arena : Arena) (signal : Signal) (id : Nat) : Prop :=
  ∃ i ∈ signal.node?, arena.Under i id

/-- The node at a place exists and folds. -/
def Folds (arena : Arena) (id : Nat) : Prop :=
  ∃ cell, arena[id]? = some cell ∧ cell.node.Folds

/-- The walk that starts at a signal with a budget has some budget left at every node. -/
def Suffices (arena : Arena) : (budget : Nat) → Signal → Prop
  | _, .constant _ => True
  | 0, .node _ => False
  | budget + 1, .node id =>
    ∀ cell, arena[id]? = some cell → ∀ s ∈ cell.node.inputs, Suffices arena budget s

theorem cone_node {id below : Nat} : arena.Cone (.node id) below ↔ arena.Under id below := by
  simp [Cone, Signal.node?]

/-- A node that stands among the inputs of a node is read by it. -/
theorem mem_inputsOf {id j : Nat} {cell : Cell} (hcell : arena[id]? = some cell) {s : Signal}
    (hs : s ∈ cell.node.inputs) (hj : j ∈ s.node?) : j ∈ arena.inputsOf id :=
  inputsOf_eq hcell ▸ List.mem_filterMap.2 ⟨s, hs, hj⟩

/-- The cone of an input is part of the cone of the node. -/
theorem Cone.of_input {id below : Nat} {cell : Cell} (hcell : arena[id]? = some cell) {s : Signal}
    (hs : s ∈ cell.node.inputs) (h : arena.Cone s below) : arena.Cone (.node id) below := by
  obtain ⟨j, hj, hbelow⟩ := h
  exact cone_node.2 (Relation.ReflTransGen.head (mem_inputsOf hcell hs hj) hbelow)

/-- Of places that differ there are no more than the arena has. -/
theorem length_le_size {ids : List Nat} (hnodup : ids.Nodup)
    (hrange : ∀ id ∈ ids, id < arena.size) : ids.length ≤ arena.size := by
  have hsubset : ids ⊆ List.range arena.size := fun id hid => List.mem_range.2 (hrange id hid)
  have hle := (hnodup.subperm hsubset).length_le
  rwa [List.length_range] at hle

theorem length_lt_of_fresh {path : List Nat} {id : Nat} (hnodup : path.Nodup)
    (hrange : ∀ k ∈ path, k < arena.size) (hfresh : id ∉ path) (hid : id < arena.size) :
    path.length < arena.size :=
  length_le_size (List.nodup_cons.2 ⟨hfresh, hnodup⟩) (List.forall_mem_cons.2 ⟨hid, hrange⟩)

/-- A budget lasts if it and the path to the signal are together as large as the arena.  The nodes
of the path are not read again, so there are no more of them than places. -/
theorem suffices_of_path (hclosed : arena.Closed) {budget : Nat} {signal : Signal}
    {path : List Nat} (hnodup : path.Nodup) (hrange : ∀ k ∈ path, k < arena.size)
    (hpath : ∀ k ∈ path, ∀ i ∈ signal.node?, arena.Beneath k i)
    (hexists : ∀ i ∈ signal.node?, i < arena.size)
    (hacyclic : ∀ id, arena.Cone signal id → ¬ arena.OnCycle id)
    (hlength : arena.size ≤ budget + path.length) : arena.Suffices budget signal := by
  induction budget generalizing signal path with
  | zero =>
      cases signal with
      | constant value => exact trivial
      | node id =>
          have hfresh : id ∉ path := fun hmem =>
            hacyclic id (cone_node.2 (.refl arena id)) (hpath id hmem id rfl)
          have hlt := length_lt_of_fresh hnodup hrange hfresh (hexists id rfl)
          omega
  | succ budget ih =>
      cases signal with
      | constant value => exact trivial
      | node id =>
          have hfresh : id ∉ path := fun hmem =>
            hacyclic id (cone_node.2 (.refl arena id)) (hpath id hmem id rfl)
          intro cell hcell s hs
          have hinput : ∀ j ∈ s.node?, j ∈ arena.inputsOf id :=
            fun _ hj => mem_inputsOf hcell hs hj
          refine ih (List.nodup_cons.2 ⟨hfresh, hnodup⟩) ?_ ?_ ?_ ?_ ?_
          · exact List.forall_mem_cons.2 ⟨hexists id rfl, hrange⟩
          · intro k hk j hj
            rcases List.mem_cons.1 hk with rfl | hk
            · exact .single (hinput j hj)
            · exact (hpath k hk id rfl).tail (hinput j hj)
          · exact fun j hj => hclosed id j (hinput j hj)
          · exact fun below hbelow => hacyclic below (hbelow.of_input hcell hs)
          · rw [List.length_cons]
            omega

/-- A budget of the arena's size lasts where there is no cycle. -/
theorem suffices_of_acyclic (hclosed : arena.Closed) {signal : Signal}
    (hexists : ∀ i ∈ signal.node?, i < arena.size)
    (hacyclic : ∀ id, arena.Cone signal id → ¬ arena.OnCycle id) :
    arena.Suffices arena.size signal :=
  suffices_of_path hclosed List.nodup_nil nofun nofun hexists hacyclic
    (Nat.le_refl _)

theorem suffices_constant (budget : Nat) (value : Float) :
    arena.Suffices budget (.constant value) := by
  cases budget <;> exact trivial

/-- If a budget lasts, a larger one does. -/
theorem Suffices.mono {budget more : Nat} {signal : Signal} (h : arena.Suffices budget signal)
    (hmore : budget ≤ more) : arena.Suffices more signal := by
  induction budget generalizing more signal with
  | zero =>
      cases signal with
      | constant value => exact suffices_constant more value
      | node id => contradiction
  | succ budget ih =>
      obtain ⟨rest, rfl⟩ : ∃ rest, more = rest + 1 := Nat.exists_eq_add_one.2 (by omega)
      cases signal with
      | constant value => exact suffices_constant (rest + 1) value
      | node id => exact fun cell hcell s hs => ih (h cell hcell s hs) (by omega)

/-- A budget as large as a settled list lasts from the nodes of the list. -/
theorem Settled.suffices {ids : List Nat} (h : arena.Settled ids) {id : Nat} (hid : id ∈ ids) :
    arena.Suffices ids.length (.node id) := by
  induction ids generalizing id with
  | nil => contradiction
  | cons first rest ih =>
      obtain ⟨-, hinputs, hrest⟩ := h
      rcases List.mem_cons.1 hid with rfl | hid
      · intro cell hcell s hs
        cases s with
        | constant value => exact suffices_constant rest.length value
        | node j =>
            exact ih hrest (hinputs j (mem_inputsOf hcell hs rfl))
      · exact (ih hrest hid).mono (Nat.le_succ _)

/-- If a budget lasts, a larger one finds nothing else. -/
theorem Suffices.constantWithin_eq {budget more : Nat} {signal : Signal}
    (h : arena.Suffices budget signal) (hmore : budget ≤ more) :
    arena.constantWithin more signal = arena.constantWithin budget signal := by
  induction budget generalizing more signal with
  | zero =>
      cases signal with
      | constant value => cases more <;> rfl
      | node id => contradiction
  | succ budget ih =>
      obtain ⟨rest, rfl⟩ : ∃ rest, more = rest + 1 := Nat.exists_eq_add_one.2 (by omega)
      cases signal with
      | constant value => rfl
      | node id =>
          rw [constantWithin_succ, constantWithin_succ]
          cases hcell : arena[id]? with
          | none => rfl
          | some cell =>
              exact Node.foldWith_congr fun s hs => ih (h cell hcell s hs) (by omega)

/-- If a budget lasts, the walk finds a value where all nodes fold. -/
theorem Suffices.exists_constantWithin (hcomplete : arena.Complete) {budget : Nat}
    {signal : Signal} (h : arena.Suffices budget signal)
    (hfolds : ∀ id, arena.Cone signal id → arena.Folds id) :
    ∃ value, arena.constantWithin budget signal = some value := by
  induction budget generalizing signal with
  | zero =>
      cases signal with
      | constant value => exact ⟨value, rfl⟩
      | node id => contradiction
  | succ budget ih =>
      cases signal with
      | constant value => exact ⟨value, rfl⟩
      | node id =>
          obtain ⟨cell, hcell, hnode⟩ := hfolds id (cone_node.2 (.refl arena id))
          rw [constantWithin_succ, hcell, Option.bind_some,
            Node.exists_foldWith_iff (hcomplete id cell hcell).arity]
          refine ⟨hnode, fun s hs => ih (h cell hcell s hs) fun below hbelow => ?_⟩
          exact hfolds below (hbelow.of_input hcell hs)

/-- Where the walk finds a value all nodes fold, and none lies on a cycle. -/
theorem cone_of_constantWithin (hcomplete : arena.Complete) {budget : Nat} {signal : Signal}
    {value : Float} (h : arena.constantWithin budget signal = some value) :
    ∀ id, arena.Cone signal id → arena.Folds id ∧ ¬ arena.OnCycle id := by
  induction budget generalizing signal value with
  | zero =>
      cases signal with
      | constant value =>
          rintro id ⟨i, hi, _⟩
          contradiction
      | node id => contradiction
  | succ budget ih =>
      cases signal with
      | constant value =>
          rintro id ⟨i, hi, _⟩
          contradiction
      | node id =>
          rw [constantWithin_succ] at h
          obtain ⟨cell, hcell, hfold⟩ := Option.bind_eq_some_iff.1 h
          obtain ⟨hnode, hinputs⟩ :=
            (Node.exists_foldWith_iff (hcomplete id cell hcell).arity).1 ⟨value, hfold⟩
          have hbelow : ∀ j ∈ arena.inputsOf id, ∀ below, arena.Under j below →
              arena.Folds below ∧ ¬ arena.OnCycle below := by
            intro j hj below hunder
            rw [inputsOf_eq hcell] at hj
            obtain ⟨s, hs, hj⟩ := List.mem_filterMap.1 hj
            obtain ⟨x, hx⟩ := hinputs s hs
            exact ih hx below ⟨j, hj, hunder⟩
          intro below hcone
          rcases Relation.ReflTransGen.cases_head (cone_node.1 hcone) with rfl | ⟨j, hj, hunder⟩
          · refine ⟨⟨cell, hcell, hnode⟩, fun hcycle => ?_⟩
            obtain ⟨j, hj, hback⟩ := hcycle.exists_input
            exact (hbelow j hj id hback).2 hcycle
          · exact hbelow j hj below hunder

end Arena

/-! ## Ticks -/

/-- A constant is what a tick leaves in the slot of the node. -/
theorem Slots.Stepped.read_constant {arena : Arena} {time rate : Float} {ids : List Nat}
    {before after : Slots} (h : Slots.Stepped arena time rate ids before after)
    (hids : arena.Settled ids) {budget : Nat} {signal : Signal} {value : Float}
    (hknown : arena.constantWithin budget signal = some value)
    (hmem : ∀ id ∈ signal.node?, id ∈ ids) : Slots.read after.values signal = value := by
  induction budget generalizing signal value with
  | zero =>
      cases signal with
      | constant other => exact Option.some.inj hknown
      | node id => contradiction
  | succ budget ih =>
      cases signal with
      | constant other => exact Option.some.inj hknown
      | node id =>
          rw [Arena.constantWithin_succ] at hknown
          obtain ⟨cell, hcell, hfold⟩ := Option.bind_eq_some_iff.1 hknown
          obtain ⟨other, memory, hother, _, hvalue, _⟩ := h.stepped id (hmem id rfl)
          cases hcell.symm.trans hother
          rw [Slots.read, Array.getD_eq_getD_getElem?, hvalue, Option.getD_some]
          refine Node.step_of_foldWith hfold (fun s hs x hx => ih hx fun j hj => ?_) _ _ _
          exact hids.inputs_mem (hmem id rfl) (Arena.mem_inputsOf hcell hs hj)

namespace Graph

variable {settings : BuildSettings} {arena : Arena} {root : Nat} {g : Graph}

/-- The slots in a tick when the nodes at the front of the plan have had their step. -/
def pass (g : Graph) (clock : Clock) (front : List Nat) : Slots :=
  front.foldl (Slots.step g.nodes clock.seconds clock.sampleRate) g.slots

/-- A node whose input is a constant reads that constant. -/
theorem Built.read_constant (h : Built arena root g) (clock : Clock) {front back : List Nat}
    {id : Nat} (hplan : g.plan = front ++ id :: back) {budget : Nat} {signal : Signal}
    {value : Float} (hinput : ∀ j ∈ signal.node?, j ∈ arena.inputsOf id)
    (hknown : arena.constantWithin budget signal = some value) :
    Slots.read (g.pass clock front).values signal = value := by
  have hsettled := h.settled
  rw [hplan, List.reverse_append, List.reverse_cons, List.append_assoc] at hsettled
  obtain ⟨-, hinputs, hfront⟩ : arena.Settled (id :: front.reverse) := hsettled.of_append
  have hrange : ∀ k ∈ front.reverse, k < arena.size := by
    intro k hk
    exact h.range k (hplan ▸ List.mem_append_left _ (List.mem_reverse.1 hk))
  have hpass : Slots.Stepped arena clock.seconds clock.sampleRate front.reverse g.slots _ :=
    Slots.stepped_of_settled hfront hrange h.size_memories h.size_values
  rw [List.reverse_reverse, ← h.nodes_eq] at hpass
  exact hpass.read_constant hfront hknown fun j hj => hinputs j (hinput j hj)

/-- A delay of a fresh graph has a line for the seconds that its time is known to be. -/
theorem line_of_finish (h : arena.finish settings root = .ok g) {id : Nat} {input : Signal}
    {params : List Signal} {origin : Option Nat}
    (hcell : arena[id]? = some ⟨.effect .delay input params, origin⟩) :
    ∃ time seconds, params = [time] ∧ arena.constant? time = some seconds ∧
      g.memories[id]? =
        some (.delay (.silent (DelayLine.lengthFor seconds settings.sampleRate))) := by
  have hwell := Arena.exists_finish_iff.1 ⟨g, h⟩
  obtain ⟨time, rfl⟩ := (hwell.complete id _ hcell).exists_time rfl
  obtain ⟨start, hstart, hfor⟩ := start_of_finish h hcell
  rw [Arena.forNode_delay rfl] at hfor
  rcases Arena.delayLine_cases settings arena _ time with
    ⟨seconds, hknown, _, hline⟩ | ⟨_, hline⟩ | ⟨_, _, _, hline⟩
  · cases hline.symm.trans hfor
    exact ⟨time, seconds, rfl, hknown, hstart⟩
  · exact absurd (hline.symm.trans hfor) nofun
  · exact absurd (hline.symm.trans hfor) nofun

end Graph

namespace Arena

variable {settings : BuildSettings} {arena : Arena} {root : Nat}

/-- Signals that read no cycle are constants if they read nothing but constants, operators and
functions of numbers. -/
theorem exists_constant_iff (hcomplete : arena.Complete) {signal : Signal}
    (hacyclic : ∀ id, arena.Cone signal id → ¬ arena.OnCycle id) :
    (∃ value, arena.constant? signal = some value) ↔
      ∀ id, arena.Cone signal id → arena.Folds id := by
  constructor
  · rintro ⟨value, hvalue⟩ id hid
    exact (cone_of_constantWithin hcomplete hvalue id hid).1
  · intro hfolds
    have hclosed := closed_of_check (check_eq_ok_iff.2 hcomplete)
    refine (suffices_of_acyclic hclosed ?_ hacyclic).exists_constantWithin hcomplete hfolds
    intro i hi
    obtain ⟨cell, hcell, -⟩ := hfolds i ⟨i, hi, .refl arena i⟩
    exact (Array.getElem?_eq_some_iff.1 hcell).1

/-- A signal that reads a cycle is no constant. -/
theorem constant_eq_none (hcomplete : arena.Complete) {signal : Signal} {id : Nat}
    (hid : arena.Cone signal id) (hcycle : arena.OnCycle id) : arena.constant? signal = none :=
  Option.eq_none_iff_forall_ne_some.2 fun _ hvalue =>
    (cone_of_constantWithin hcomplete hvalue id hid).2 hcycle

/-- The time of a delay.  The line of every delay in the plan of a graph is made for the seconds
that the delay reads as its time in every tick, whatever was done with the graph before.

In an arena that passes its checks a signal that reads no cycle is a constant exactly if it reads
nothing but constants, operators and functions of numbers.  The budget never runs out, so a larger
one would find the same.  A delay whose time reads a cycle has no memory, and the arena is refused
for the lowest delay without one. -/
theorem constant_agrees_with_evaluation (settings : BuildSettings) (arena : Arena) (root : Nat) :
    (∀ g, arena.finish settings root = .ok g →
      ∀ id ∈ g.plan, ∀ input params origin,
        arena[id]? = some ⟨.effect .delay input params, origin⟩ →
        ∃ time seconds, params = [time] ∧ arena.constant? time = some seconds ∧
          g.memories[id]? =
            some (.delay (.silent (DelayLine.lengthFor seconds settings.sampleRate))) ∧
          ∀ calls clock front back, g.plan = front ++ id :: back →
            Slots.read ((g.afterCalls calls).pass clock front).values time = seconds) ∧
    (arena.check = .ok () → root < arena.size → (∃ plan, arena.order root = .ok plan) →
      (∀ signal, (∀ id, arena.Cone signal id → ¬ arena.OnCycle id) →
        ((∀ i ∈ signal.node?, i < arena.size) → arena.Suffices arena.size signal ∧
          ∀ more, arena.size ≤ more →
            arena.constantWithin more signal = arena.constant? signal) ∧
        ((∃ value, arena.constant? signal = some value) ↔
          ∀ id, arena.Cone signal id → arena.Folds id)) ∧
      ∀ id input time origin, arena[id]? = some ⟨.effect .delay input [time], origin⟩ →
        (∃ k, arena.Cone time k ∧ arena.OnCycle k) →
        arena.constant? time = none ∧
          Memory.forNode settings arena id ⟨.effect .delay input [time], origin⟩ =
            .error (.variableDelay origin) ∧
          (settings.Runs →
            (∀ j < id, ∀ (other : Cell), arena[j]? = some other → other.Timed settings arena) →
            arena.finish settings root = .error (.variableDelay origin))) := by
  refine ⟨?_, fun hcheck hroot horder => ⟨fun signal hacyclic => ⟨?_, ?_⟩, ?_⟩⟩
  · intro g hfinish id _ input params origin hcell
    obtain ⟨time, seconds, rfl, hknown, hline⟩ := Graph.line_of_finish hfinish hcell
    refine ⟨time, seconds, rfl, hknown, hline, fun calls clock front back hplan => ?_⟩
    have hbuilt := (Graph.built_of_finish hfinish).afterCalls calls
    refine hbuilt.read_constant clock (hplan ▸ g.plan_afterCalls calls) ?_ hknown
    intro j hj
    rw [inputsOf_eq hcell]
    exact List.mem_filterMap.2 ⟨time, by simp [Node.inputs], hj⟩
  · intro hexists
    have hsuffices := suffices_of_acyclic (closed_of_check hcheck) hexists hacyclic
    exact ⟨hsuffices, fun more hmore => hsuffices.constantWithin_eq hmore⟩
  · exact exists_constant_iff (check_eq_ok_iff.1 hcheck) hacyclic
  · rintro id input time origin hcell ⟨k, hk, hcycle⟩
    have hcomplete := check_eq_ok_iff.1 hcheck
    have hnone := constant_eq_none hcomplete hk hcycle
    have hfor : Memory.forNode settings arena id ⟨.effect .delay input [time], origin⟩ =
        .error (.variableDelay origin) := by
      rw [forNode_delay rfl, Memory.delayLine, List.head?_cons, Option.bind_some, hnone]
    refine ⟨hnone, hfor, fun hruns hbefore => ?_⟩
    have hacyclic := (exists_order_iff hcomplete hroot).1 horder
    rw [finish_eq_error_iff hruns hroot hcomplete hacyclic, memories_eq_error_iff hcomplete]
    exact ⟨id, _, hcell, hfor, hbefore⟩

/-- A line for the sum of two constants, and a time that reads itself. -/
theorem constant_of_sum_not_of_loop :
    let settings : BuildSettings := ⟨8.0, defaultSeed, defaultMaxDelay⟩
    let sum : Arena := #[⟨.time, none⟩,
      ⟨.arithmetic .add (.constant 0.25) (.constant 0.25), none⟩,
      ⟨.effect .delay (.node 0) [.node 1], none⟩]
    let loop : Arena := #[⟨.time, none⟩, ⟨.math .abs [.node 1], none⟩,
      ⟨.effect .delay (.node 0) [.node 1], some 7⟩]
    (∃ g, sum.finish settings 2 = .ok g ∧ g.plan = [0, 1] ++ 2 :: [] ∧
      g.memories[2]? = some (.delay (.silent (DelayLine.lengthFor 0.5 8.0))) ∧
      ∀ calls clock, Slots.read ((g.afterCalls calls).pass clock [0, 1]).values (.node 1) = 0.5) ∧
    loop.Cone (.node 1) 1 ∧ loop.OnCycle 1 ∧ loop.constant? (.node 1) = none ∧
      loop.finish settings 0 = .error (.variableDelay (some 7)) := by
  intro settings sum loop
  constructor
  · have horder : sum.order 2 = .ok [0, 1, 2] := by
      simp [Arena.order, search_enter, search, sum, inputsOf, Node.inputNodes, Node.inputs,
        Signal.node?, List.filterMap]
    have hsum : sum.constant? (.node 1) = some 0.5 := rfl
    have htimed : sum.Timed settings := by
      intro i cell hcell input time hnode
      rcases i with _ | _ | _ | i <;> cases hcell <;> cases hnode
      exact ⟨0.5, hsum, by decide, by decide, by decide⟩
    obtain ⟨memories, hmemories⟩ := (exists_memories_iff (check_eq_ok_iff.1 rfl)).2 htimed
    have hfinish : sum.finish settings 2 = .ok _ :=
      finish_eq_ok_iff.2 ⟨if_pos (by decide), by decide, rfl, _, _, horder, hmemories, rfl⟩
    obtain ⟨time, seconds, htime, hknown, hline, hread⟩ :=
      (constant_agrees_with_evaluation settings sum 2).1 _ hfinish 2 (by simp) _ _ _ rfl
    cases htime
    cases hsum.symm.trans hknown
    exact ⟨_, hfinish, rfl, hline, fun calls clock => hread calls clock _ _ rfl⟩
  · have hcone : loop.Cone (.node 1) 1 := cone_node.2 (.refl loop 1)
    have hcycle : loop.OnCycle 1 := .single (by decide)
    have horder : loop.order 0 = .ok [0] := by
      simp [Arena.order, search_enter, search, loop, inputsOf, Node.inputNodes, Node.inputs]
    have hall := ((constant_agrees_with_evaluation settings loop 0).2 rfl (by decide) ⟨_, horder⟩).2
    obtain ⟨hnone, -, hfinish⟩ := hall 2 (.node 0) (.node 1) (some 7) rfl ⟨1, hcone, hcycle⟩
    refine ⟨hcone, hcycle, hnone, hfinish ⟨by decide, by decide⟩ ?_⟩
    intro j hj other hother input time hnode
    rcases j with _ | _ | j
    · cases hother
      contradiction
    · cases hother
      contradiction
    · omega

end Arena

end ToneGraph
