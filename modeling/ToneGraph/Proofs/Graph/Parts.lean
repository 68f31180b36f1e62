import ToneGraph.Graph.Lowering
import ToneGraph.Proofs.Graph.Constants
import ToneGraph.Proofs.Graph.Interpreter
/-!
# Parts of expressions

Lowering gives a node to every part of an expression that is not a number.  The nodes of a part
stand in one row, its own behind those of its operands.  Everything else about the arena of an
expression follows from where its parts stand: that references are good, that every node is read by
one other, in what order the search lists the nodes, and which delays know their time.

All kinds of parts are treated alike.  A part is lowered by lowering its operands and then adding
one node, whatever the part is, so a proof about expressions is one about operands and one about a
node.

## Main definitions

* `Checked.operands`, `Checked.parts`: what an expression is put together from, at once and in all.
* `Checked.node?`: the node of a part from the signals of its operands.
* `Checked.arityFault?`: why a call does not fit its function.
* `Checked.Stands`: where the nodes of an expression stand in an arena.

## Main statements

* `Checked.lower_eq_error`, `Checked.lowers_of_fit`: lowering fails at the first call that does not
  fit, and else the nodes stand where they should.
* `Checked.Stands.references`: every node is read by one other.
* `Checked.Stands.visit`: the search lists the nodes in the order in which they stand.
* `Checked.Stands.constantWithin_eq`: what is known of an expression is found in the arena.
-/

namespace ToneGraph

open Synth

/-! ## Growing arenas -/

namespace Arena

/-- Every cell of an arena stands at the same place of another. -/
def Extends (arena whole : Arena) : Prop :=
  ∀ (i : Nat) (cell : Cell), arena[i]? = some cell → whole[i]? = some cell

theorem Extends.trans {arena middle whole : Arena} (h : arena.Extends middle)
    (h' : middle.Extends whole) : arena.Extends whole :=
  fun i cell hcell => h' i cell (h i cell hcell)

/-- An arena with `units` cells added behind its own. -/
structure Grows (arena grown : Arena) (units : Nat) : Prop where
  size : grown.size = arena.size + units
  within : arena.Extends grown

theorem Grows.refl (arena : Arena) : arena.Grows arena 0 where
  size := rfl
  within := fun _ _ hcell => hcell

theorem Grows.trans {arena middle grown : Arena} {m n : Nat} (h : arena.Grows middle m)
    (h' : middle.Grows grown n) : arena.Grows grown (m + n) where
  size := by rw [h'.size, h.size, Nat.add_assoc]
  within := h.within.trans h'.within

theorem Grows.push (arena : Arena) (cell : Cell) : arena.Grows (arena.push cell) 1 where
  size := Array.size_push cell
  within := by
    intro i other hother
    obtain ⟨hlt, -⟩ := Array.getElem?_eq_some_iff.1 hother
    rw [Array.getElem?_push_lt hlt, ← Array.getElem?_eq_getElem hlt, hother]

end Arena

/-! ## Nodes of functions -/

namespace Function

/-- A function with a node has as many inputs as it needs, and the node reads them in order. -/
theorem inputs_of_node? {function : Function} {inputs : List Signal} {node : Node}
    (h : function.node? inputs = some node) :
    inputs.length = function.arity ∧ node.inputs = inputs := by
  unfold node? at h
  split at h
  · cases h
    exact ⟨rfl, rfl⟩
  · cases h
    exact ⟨rfl, rfl⟩
  · cases h
    exact ⟨rfl, rfl⟩
  · cases h
    exact ⟨rfl, rfl⟩
  · split at h
    · next hlength =>
        cases h
        exact ⟨hlength, rfl⟩
    · contradiction
  · split at h
    · next hlength =>
        cases h
        exact ⟨by rw [List.length_cons, hlength, Nat.add_comm]; rfl, rfl⟩
    · contradiction
  · contradiction

/-- With as many inputs as it needs, a function has a node, and the node needs as many. -/
theorem exists_node? {function : Function} {inputs : List Signal}
    (h : inputs.length = function.arity) :
    ∃ node, function.node? inputs = some node ∧ node.arity = function.arity := by
  cases function with
  | oscillator waveform =>
      obtain ⟨frequency, rfl⟩ := List.length_eq_one_iff.1 h
      exact ⟨_, rfl, rfl⟩
  | noise | random =>
      cases List.length_eq_zero_iff.1 h
      exact ⟨_, rfl, rfl⟩
  | ramp =>
      obtain ⟨start, finish, duration, rfl⟩ := List.length_eq_three.1 h
      exact ⟨_, rfl, rfl⟩
  | math op => exact ⟨.math op inputs, if_pos h, rfl⟩
  | effect kind =>
      cases inputs with
      | nil =>
          rw [arity, List.length_nil] at h
          omega
      | cons input params =>
          have hcount : params.length = kind.paramCount := by
            rw [arity, List.length_cons] at h
            omega
          exact ⟨.effect kind input params, if_pos hcount, rfl⟩

/-- Only the delay function has a node that delays. -/
theorem eq_delay_of_node? {function : Function} {inputs : List Signal} {input : Signal}
    {params : List Signal} (h : function.node? inputs = some (.effect .delay input params)) :
    function = .effect .delay := by
  unfold node? at h
  repeat' split at h
  all_goals cases h
  rfl

end Function

namespace Checked

/-! ## Parts -/

/-- The value of an expression that is a number. -/
def literal? : Checked → Option Float
  | number value _ => some value
  | _ => none

/-- What an expression is put together from, from the left. -/
def operands : Checked → List Checked
  | number _ _ => []
  | context _ _ => []
  | call _ _ args _ => args
  | binary _ left right _ => [left, right]
  | negate operand _ => [operand]

mutual

/-- The parts of an expression that are not numbers, from the left and from the inside out. -/
def parts : Checked → List Checked
  | number _ _ => []
  | context value offset => [context value offset]
  | call function name args offset => partsAll args ++ [call function name args offset]
  | binary op left right offset => parts left ++ parts right ++ [binary op left right offset]
  | negate operand offset => parts operand ++ [negate operand offset]

/-- The parts of several expressions, from the left. -/
def partsAll : List Checked → List Checked
  | [] => []
  | e :: rest => parts e ++ partsAll rest

end

mutual

/-- What holds of numbers, and of every other expression if it holds of its operands, holds of all
expressions. -/
theorem operand_induction {P : Checked → Prop} (hnumber : ∀ value offset, P (number value offset))
    (hpart : ∀ e, e.literal? = none → (∀ x ∈ e.operands, P x) → P e) : ∀ e, P e
  | number value offset => hnumber value offset
  | context value offset => hpart (context value offset) rfl nofun
  | call function name args offset =>
      hpart (call function name args offset) rfl (forall_operand hnumber hpart args)
  | binary op left right offset =>
      hpart (binary op left right offset) rfl (List.forall_mem_cons.2
        ⟨operand_induction hnumber hpart left,
          List.forall_mem_singleton.2 (operand_induction hnumber hpart right)⟩)
  | negate operand offset =>
      hpart (negate operand offset) rfl
        (List.forall_mem_singleton.2 (operand_induction hnumber hpart operand))

theorem forall_operand {P : Checked → Prop} (hnumber : ∀ value offset, P (number value offset))
    (hpart : ∀ e, e.literal? = none → (∀ x ∈ e.operands, P x) → P e) :
    ∀ es : List Checked, ∀ x ∈ es, P x
  | [] => nofun
  | e :: rest => List.forall_mem_cons.2
      ⟨operand_induction hnumber hpart e, forall_operand hnumber hpart rest⟩

end

variable {e : Checked}

theorem parts_eq (h : e.literal? = none) : e.parts = partsAll e.operands ++ [e] := by
  cases e with
  | number value offset => contradiction
  | _ => simp [parts, partsAll, operands]

theorem units_eq (h : e.literal? = none) : e.units = unitsAll e.operands + 1 := by
  cases e with
  | number value offset => contradiction
  | _ => simp [units, unitsAll, operands]

mutual

@[simp] theorem length_parts : ∀ e : Checked, e.parts.length = e.units
  | number _ _ => rfl
  | context _ _ => rfl
  | call _ _ args _ => by
      rw [parts, units, List.length_append, length_partsAll args, List.length_singleton]
  | binary _ left right _ => by
      rw [parts, units, List.length_append, List.length_append, length_parts left,
        length_parts right, List.length_singleton]
  | negate operand _ => by
      rw [parts, units, List.length_append, length_parts operand, List.length_singleton]

@[simp] theorem length_partsAll : ∀ es : List Checked, (partsAll es).length = unitsAll es
  | [] => rfl
  | e :: rest => by rw [partsAll, unitsAll, List.length_append, length_parts, length_partsAll]

end

/-! ## Nodes of parts -/

/-- The node of a part whose operands give some signals. -/
def node? : Checked → List Signal → Option Node
  | context .time _, [] => some .time
  | call function _ _ _, inputs => function.node? inputs
  | binary op _ _ _, [left, right] => some (.arithmetic op left right)
  | negate _ _, [operand] => some (.arithmetic .sub (.constant 0.0) operand)
  | _, _ => none

/-- Why a call does not fit its function: it has another number of arguments. -/
def arityFault? : Checked → Option BuildError
  | call function _ args offset =>
    if args.length = function.arity then none
    else some (.arity function.name function.arity args.length (some offset))
  | _ => none

theorem exists_node? {inputs : List Signal} (h : e.literal? = none)
    (hfit : e.arityFault? = none) (hlength : inputs.length = e.operands.length) :
    ∃ node, e.node? inputs = some node := by
  cases e with
  | number value offset => contradiction
  | context value offset =>
      cases List.length_eq_zero_iff.1 hlength
      cases value
      exact ⟨_, rfl⟩
  | call function name args offset =>
      have hargs : args.length = function.arity := by
        by_contra hne
        rw [arityFault?, if_neg hne] at hfit
        contradiction
      obtain ⟨node, hnode, -⟩ := Function.exists_node? (hlength.trans hargs)
      exact ⟨node, hnode⟩
  | binary op left right offset =>
      obtain ⟨l, r, rfl⟩ := List.length_eq_two.1 hlength
      exact ⟨_, rfl⟩
  | negate operand offset =>
      obtain ⟨x, rfl⟩ := List.length_eq_one_iff.1 hlength
      exact ⟨_, rfl⟩

/-- The node of a part has as many inputs as it needs, and reads the nodes that its operands
give. -/
theorem complete_of_node? {inputs : List Signal} {node : Node} (h : e.node? inputs = some node) :
    node.inputs.length = node.arity ∧ node.inputNodes = inputs.filterMap Signal.node? := by
  unfold node? at h
  split at h
  · cases h
    exact ⟨rfl, rfl⟩
  · obtain ⟨hlength, hinputs⟩ := Function.inputs_of_node? h
    obtain ⟨other, hother, harity⟩ := Function.exists_node? hlength
    cases h.symm.trans hother
    exact ⟨by rw [hinputs, hlength, harity], by rw [Node.inputNodes, hinputs]⟩
  · cases h
    exact ⟨rfl, rfl⟩
  · cases h
    exact ⟨rfl, rfl⟩
  · contradiction

/-! ## One part is lowered -/

theorem lower_of_node? {arena behind : Arena} {inputs : List Signal} {node : Node}
    (hoperands : lowerAll e.operands arena = .ok (inputs, behind))
    (hnode : e.node? inputs = some node) : e.lower arena = .ok (behind.add node e.offset) := by
  cases e with
  | number value offset => contradiction
  | context value offset =>
      cases hoperands
      cases value
      cases hnode
      rfl
  | call function name args offset =>
      refine bind_eq_ok_iff.2 ⟨(inputs, behind), hoperands, ?_⟩
      replace hnode : function.node? inputs = some node := hnode
      dsimp only
      rw [hnode]
      rfl
  | binary op left right offset =>
      obtain ⟨⟨l, middle⟩, hleft, hmore⟩ := bind_eq_ok_iff.1 hoperands
      obtain ⟨⟨others, last⟩, hothers, heq⟩ := bind_eq_ok_iff.1 hmore
      cases heq
      obtain ⟨⟨r, last⟩, hright, hnil⟩ := bind_eq_ok_iff.1 hothers
      cases hnil
      cases hnode
      exact bind_eq_ok_iff.2 ⟨(l, middle), hleft, bind_eq_ok_iff.2 ⟨_, hright, rfl⟩⟩
  | negate operand offset =>
      obtain ⟨⟨x, last⟩, hoperand, hnil⟩ := bind_eq_ok_iff.1 hoperands
      cases hnil
      cases hnode
      exact bind_eq_ok_iff.2 ⟨_, hoperand, rfl⟩

theorem lower_of_operands {arena : Arena} {why : BuildError}
    (h : lowerAll e.operands arena = .error why) : e.lower arena = .error why := by
  cases e with
  | number value offset => contradiction
  | context value offset => contradiction
  | call function name args offset => exact bind_eq_error_iff.2 (.inl h)
  | binary op left right offset =>
      rcases bind_eq_error_iff.1 h with hleft | ⟨l, hleft, hmore⟩
      · exact bind_eq_error_iff.2 (.inl hleft)
      · refine bind_eq_error_iff.2 (.inr ⟨l, hleft, ?_⟩)
        have hrest := (bind_eq_error_iff.1 hmore).resolve_right nofun
        exact bind_eq_error_iff.2 (.inl ((bind_eq_error_iff.1 hrest).resolve_right nofun))
  | negate operand offset =>
      exact bind_eq_error_iff.2 (.inl ((bind_eq_error_iff.1 h).resolve_right nofun))

theorem lower_of_arityFault? {arena behind : Arena} {inputs : List Signal} {why : BuildError}
    (hoperands : lowerAll e.operands arena = .ok (inputs, behind))
    (hlength : inputs.length = e.operands.length) (hfault : e.arityFault? = some why) :
    e.lower arena = .error why := by
  cases e with
  | call function name args offset =>
      replace hlength : inputs.length = args.length := hlength
      refine bind_eq_error_iff.2 (.inr ⟨(inputs, behind), hoperands, ?_⟩)
      rw [arityFault?] at hfault
      split at hfault
      · contradiction
      · next hne =>
          cases hfault
          have hnone : function.node? inputs = none := by
            cases hnode : function.node? inputs with
            | none => rfl
            | some node =>
                exact absurd (hlength.symm.trans (Function.inputs_of_node? hnode).1) hne
          dsimp only
          rw [hnone, hlength]
  | _ => contradiction

/-! ## Where the parts stand -/

/-- The signal that reads an expression whose nodes begin at a place. -/
def signal (k : Nat) (e : Checked) : Signal :=
  match e.literal? with
  | some value => .constant value
  | none => .node (k + unitsAll e.operands)

/-- The signals that read several expressions whose nodes begin at a place. -/
def signals : Nat → List Checked → List Signal
  | _, [] => []
  | k, e :: rest => e.signal k :: signals (k + e.units) rest

theorem signal_part (h : e.literal? = none) (k : Nat) :
    e.signal k = .node (k + unitsAll e.operands) := by
  rw [signal, h]

@[simp] theorem length_signals (k : Nat) (es : List Checked) :
    (signals k es).length = es.length := by
  induction es generalizing k with
  | nil => rfl
  | cons e rest ih => rw [signals, List.length_cons, List.length_cons, ih]

mutual

/-- The nodes of an expression stand in an arena from a place on: those of its operands one behind
the other, and then its own. -/
inductive Stands (whole : Arena) : (k : Nat) → Checked → Prop
  | number {k value offset} : Stands whole k (.number value offset)
  | part {k e node} : e.literal? = none → StandsAll whole k e.operands →
      e.node? (signals k e.operands) = some node →
      whole[k + unitsAll e.operands]? = some ⟨node, some e.offset⟩ → Stands whole k e

/-- The nodes of several expressions stand in an arena from a place on, one behind the other. -/
inductive StandsAll (whole : Arena) : (k : Nat) → List Checked → Prop
  | nil {k} : StandsAll whole k []
  | cons {k e rest} : Stands whole k e → StandsAll whole (k + e.units) rest →
      StandsAll whole k (e :: rest)

end

/-- An expression can be lowered behind an arena: the arena grows by its nodes. -/
def Lowers (e : Checked) (arena : Arena) : Prop :=
  ∃ grown, e.lower arena = .ok (e.signal arena.size, grown) ∧ arena.Grows grown e.units ∧
    ∀ whole, grown.Extends whole → Stands whole arena.size e

theorem exists_lowerAll {es : List Checked} (h : ∀ e ∈ es, ∀ arena, Lowers e arena)
    (arena : Arena) :
    ∃ grown, lowerAll es arena = .ok (signals arena.size es, grown) ∧
      arena.Grows grown (unitsAll es) ∧
      ∀ whole, grown.Extends whole → StandsAll whole arena.size es := by
  induction es generalizing arena with
  | nil => exact ⟨arena, rfl, .refl arena, fun _ _ => .nil⟩
  | cons e rest ih =>
      obtain ⟨he, hrest⟩ := List.forall_mem_cons.1 h
      obtain ⟨middle, hfirst, hmiddle, hstands⟩ := he arena
      obtain ⟨grown, hothers, hgrown, hall⟩ := ih hrest middle
      rw [hmiddle.size] at hothers hall
      refine ⟨grown, ?_, hmiddle.trans hgrown, ?_⟩
      · exact bind_eq_ok_iff.2 ⟨_, hfirst, bind_eq_ok_iff.2 ⟨_, hothers, rfl⟩⟩
      · intro whole hwhole
        exact .cons (hstands whole (hgrown.within.trans hwhole)) (hall whole hwhole)

theorem forall_parts {P : Checked → Prop} {es : List Checked} :
    (∀ part ∈ partsAll es, P part) ↔ ∀ e ∈ es, ∀ part ∈ e.parts, P part := by
  induction es with
  | nil => simp [partsAll]
  | cons e rest ih => rw [partsAll, List.forall_mem_append, ih, List.forall_mem_cons]

/-- An expression all of whose calls fit is lowered behind every arena. -/
theorem lowers_of_fit (hfit : ∀ part ∈ e.parts, part.arityFault? = none) :
    ∀ arena, Lowers e arena := by
  induction e using operand_induction with
  | hnumber value offset =>
      exact fun arena => ⟨arena, rfl, .refl arena, fun _ _ => .number⟩
  | hpart e hpart ih =>
      intro arena
      rw [parts_eq hpart, List.forall_mem_append, forall_parts, List.forall_mem_singleton] at hfit
      obtain ⟨hoperands, hown⟩ := hfit
      obtain ⟨behind, hlower, hgrows, hall⟩ :=
        exists_lowerAll (fun x hx => ih x hx (hoperands x hx)) arena
      obtain ⟨node, hnode⟩ := exists_node? hpart hown (length_signals arena.size e.operands)
      have hpush := Arena.Grows.push behind ⟨node, some e.offset⟩
      refine ⟨_, ?_, units_eq hpart ▸ hgrows.trans hpush, fun whole hwhole => ?_⟩
      · rw [lower_of_node? hlower hnode, signal_part hpart, ← hgrows.size]
        rfl
      · refine .part hpart (hall whole (hpush.within.trans hwhole)) hnode ?_
        rw [← hgrows.size]
        exact hwhole _ _ Array.getElem?_push_size

theorem lowerAll_eq_error {es : List Checked}
    (h : ∀ e ∈ es, ∀ arena why, e.parts.findSome? arityFault? = some why →
      e.lower arena = .error why) {why : BuildError}
    (hfault : (partsAll es).findSome? arityFault? = some why) (arena : Arena) :
    lowerAll es arena = .error why := by
  induction es generalizing arena with
  | nil => contradiction
  | cons e rest ih =>
      obtain ⟨he, hrest⟩ := List.forall_mem_cons.1 h
      rw [partsAll, List.findSome?_append] at hfault
      cases hfirst : e.parts.findSome? arityFault? with
      | some other =>
          rw [hfirst, Option.some_or] at hfault
          cases hfault
          exact bind_eq_error_iff.2 (.inl (he arena _ hfirst))
      | none =>
          rw [hfirst, Option.none_or] at hfault
          obtain ⟨middle, hlower, -⟩ := lowers_of_fit (List.findSome?_eq_none_iff.1 hfirst) arena
          exact bind_eq_error_iff.2
            (.inr ⟨_, hlower, bind_eq_error_iff.2 (.inl (ih hrest hfault _))⟩)

/-- Lowering fails at the first call that does not fit. -/
theorem lower_eq_error {why : BuildError} (hfault : e.parts.findSome? arityFault? = some why)
    (arena : Arena) : e.lower arena = .error why := by
  induction e using operand_induction generalizing arena why with
  | hnumber value offset => contradiction
  | hpart e hpart ih =>
      rw [parts_eq hpart, List.findSome?_append] at hfault
      cases hoperands : (partsAll e.operands).findSome? arityFault? with
      | some other =>
          rw [hoperands, Option.some_or] at hfault
          cases hfault
          exact lower_of_operands
            (lowerAll_eq_error (fun x hx arena why h => ih x hx h arena) hoperands arena)
      | none =>
          rw [hoperands, Option.none_or] at hfault
          have hfit := forall_parts.1 (List.findSome?_eq_none_iff.1 hoperands)
          obtain ⟨behind, hlower, -⟩ :=
            exists_lowerAll (fun x hx => lowers_of_fit (hfit x hx)) arena
          refine lower_of_arityFault? hlower (length_signals _ _) ?_
          simpa using hfault

/-! ## Places -/

variable {whole : Arena} {k : Nat}

mutual

/-- The nodes of a part end at the place that the part has among all parts. -/
theorem Stands.part_at {e part : Checked} {k p : Nat} : Stands whole k e →
    e.parts[p]? = some part →
    ∃ start, start + part.units = k + p + 1 ∧ part.literal? = none ∧ Stands whole start part
  | .number, h => by contradiction
  | .part hpart hoperands hnode hcell, h => by
      rw [parts_eq hpart, List.getElem?_append] at h
      split at h
      · exact hoperands.part_at h
      · next hle =>
          rw [List.getElem?_singleton] at h
          split at h
          · next hzero =>
              cases h
              refine ⟨_, ?_, hpart, .part hpart hoperands hnode hcell⟩
              rw [length_partsAll] at hle hzero
              rw [units_eq hpart]
              omega
          · contradiction

theorem StandsAll.part_at {es : List Checked} {part : Checked} {k p : Nat} :
    StandsAll whole k es → (partsAll es)[p]? = some part →
    ∃ start, start + part.units = k + p + 1 ∧ part.literal? = none ∧ Stands whole start part
  | .nil, h => by contradiction
  | .cons hfirst hrest, h => by
      rw [partsAll, List.getElem?_append, length_parts] at h
      split at h
      · exact hfirst.part_at h
      · next hle =>
          obtain ⟨start, hstart, hpart⟩ := hrest.part_at h
          exact ⟨start, by omega, hpart⟩

end

/-- The own node of a part stands right behind those of its operands. -/
theorem Stands.cell_at {part : Checked} {p : Nat} (h : Stands whole k e)
    (hp : e.parts[p]? = some part) :
    ∃ start node, start + unitsAll part.operands = k + p ∧ StandsAll whole start part.operands ∧
      part.node? (signals start part.operands) = some node ∧
      whole[k + p]? = some ⟨node, some part.offset⟩ := by
  obtain ⟨start, hstart, hpart, hstands⟩ := h.part_at hp
  rw [units_eq hpart] at hstart
  have hown : start + unitsAll part.operands = k + p := Nat.succ.inj hstart
  cases hstands with
  | number => contradiction
  | part _ hoperands hnode hcell => exact ⟨start, _, hown, hoperands, hnode, hown ▸ hcell⟩

theorem filterMap_signals (k : Nat) (e : Checked) (rest : List Checked) :
    (signals k (e :: rest)).filterMap Signal.node? =
      (e.signal k).node?.toList ++ (signals (k + e.units) rest).filterMap Signal.node? := by
  rw [signals]
  cases e.signal k <;> rfl

mutual

/-- Every node of an expression is read by one node of it, and the last one by its signal. -/
theorem Stands.references {e : Checked} {k : Nat} : Stands whole k e →
    ((List.range' k e.units).flatMap whole.inputsOf ++ (e.signal k).node?.toList).Perm
      (List.range' k e.units)
  | .number => .refl _
  | .part hpart hoperands hnode hcell => by
      -- The own node reads what is left over of its operands, and is left over itself.
      have hown : whole.inputsOf _ = _ :=
        (Arena.inputsOf_eq hcell).trans (complete_of_node? hnode).2
      rw [units_eq hpart, List.range'_1_concat, List.flatMap_append, List.flatMap_singleton, hown,
        signal_part hpart]
      exact hoperands.references.append_right _

theorem StandsAll.references {es : List Checked} {k : Nat} : StandsAll whole k es →
    ((List.range' k (unitsAll es)).flatMap whole.inputsOf ++
      (signals k es).filterMap Signal.node?).Perm (List.range' k (unitsAll es))
  | .nil => .refl _
  | .cons hfirst hrest => by
      rw [unitsAll, ← List.range'_append_1, List.flatMap_append, filterMap_signals,
        List.append_assoc]
      refine .trans ?_ (hfirst.references.append hrest.references)
      rw [List.append_assoc]
      exact List.perm_append_comm_assoc _ _ _ |>.append_left _

end

/-- The signals of several expressions read nodes of theirs. -/
theorem StandsAll.lt_of_mem {es : List Checked} {j : Nat} (h : StandsAll whole k es)
    (hj : j ∈ (signals k es).filterMap Signal.node?) : j < k + unitsAll es :=
  (List.mem_range'_1.1 (h.references.subset (List.mem_append_right _ hj))).2

mutual

/-- The recursive search closes the nodes of an expression in the order in which they stand. -/
theorem Stands.visit {e : Checked} {k : Nat} (hpart : e.literal? = none) : Stands whole k e →
    whole.Visit (List.range k) (k + unitsAll e.operands) (List.range (k + e.units))
  | .number => by contradiction
  | .part _ hoperands hnode hcell => by
      have hown := (Arena.inputsOf_eq hcell).trans (complete_of_node? hnode).2
      rw [units_eq hpart, ← Nat.add_assoc, List.range_succ]
      refine .first ?_ (hown ▸ hoperands.visitAll)
      rw [List.mem_range]
      omega

theorem StandsAll.visitAll {es : List Checked} {k : Nat} : StandsAll whole k es →
    whole.VisitAll (List.range k) ((signals k es).filterMap Signal.node?)
      (List.range (k + unitsAll es))
  | .nil => .nil
  | @StandsAll.cons _ _ e _ hfirst hrest => by
      have hmore := hrest.visitAll
      rw [filterMap_signals, unitsAll, ← Nat.add_assoc]
      cases hpart : e.literal? with
      | none =>
          rw [signal_part hpart]
          exact .cons (hfirst.visit hpart) hmore
      | some value =>
          cases e with
          | number => exact hmore
          | _ => contradiction

end

/-! ## Constants -/

theorem mapM_eq_knownAll {read : Signal → Option Float} {inputs : List Signal} {es : List Checked}
    (h : inputs.map read = es.map known) : inputs.mapM read = knownAll es := by
  induction es generalizing inputs with
  | nil =>
      cases List.map_eq_nil_iff.1 h
      rfl
  | cons e rest ih =>
      cases inputs with
      | nil => contradiction
      | cons s others =>
          rw [List.map_cons, List.map_cons, List.cons.injEq] at h
          rw [List.mapM_cons, knownAll, h.1, ih h.2]

/-- The value of a node is known if that of its part is. -/
theorem foldWith_of_node? {read : Signal → Option Float} {inputs : List Signal} {node : Node}
    (hnode : e.node? inputs = some node) (hread : inputs.map read = e.operands.map known)
    (hconstant : ∀ value, read (.constant value) = some value) : node.foldWith read = e.known := by
  cases e with
  | number value offset => contradiction
  | context value offset =>
      cases value
      cases List.map_eq_nil_iff.1 hread
      cases hnode
      rfl
  | call function name args offset =>
      have hall : inputs.mapM read = knownAll args := mapM_eq_knownAll hread
      replace hnode : function.node? inputs = some node := hnode
      unfold Function.node? at hnode
      split at hnode
      case h_5 op inputs =>
        split at hnode
        · next hlength =>
            cases hnode
            rw [Node.foldWith, Node.take_inputs hlength, hall]
            rfl
        · contradiction
      case h_6 kind input params =>
        split at hnode
        · cases hnode
          rfl
        · contradiction
      all_goals cases hnode
      all_goals rfl
  | binary op left right offset =>
      obtain ⟨l, r, rfl⟩ : ∃ l r, inputs = [l, r] :=
        List.length_eq_two.1 (List.length_map read ▸ congrArg List.length hread)
      cases hnode
      obtain ⟨hleft, hright⟩ : read l = left.known ∧ read r = right.known := by
        simpa [operands] using hread
      rw [Node.foldWith, hleft, hright]
      rfl
  | negate operand offset =>
      obtain ⟨x, rfl⟩ : ∃ x, inputs = [x] :=
        List.length_eq_one_iff.1 (List.length_map read ▸ congrArg List.length hread)
      cases hnode
      have hoperand : read x = operand.known := by
        simpa [operands] using hread
      rw [Node.foldWith, hconstant, hoperand]
      rfl

mutual

/-- The known value of an expression is found in the arena with a budget that reaches behind its
nodes. -/
theorem Stands.constantWithin_eq {e : Checked} {k budget : Nat} (h : k + e.units ≤ budget) :
    Stands whole k e → whole.constantWithin budget (e.signal k) = e.known
  | @Stands.number _ _ value _ => by cases budget <;> rfl
  | .part hpart hoperands hnode hcell => by
      -- The own node takes one of the budget, and the rest reaches behind the operands.
      rw [units_eq hpart] at h
      obtain ⟨rest, rfl⟩ : ∃ rest, budget = rest + 1 := Nat.exists_eq_add_one.2 (by omega)
      rw [signal_part hpart, Arena.constantWithin_succ, hcell, Option.bind_some]
      refine foldWith_of_node? hnode (hoperands.map_constantWithin_eq (by omega)) fun value => ?_
      cases rest <;> rfl

theorem StandsAll.map_constantWithin_eq {es : List Checked} {k budget : Nat}
    (h : k + unitsAll es ≤ budget) : StandsAll whole k es →
    (signals k es).map (whole.constantWithin budget) = es.map Checked.known
  | .nil => rfl
  | .cons hfirst hrest => by
      rw [unitsAll] at h
      rw [signals, List.map_cons, List.map_cons, hfirst.constantWithin_eq (by omega),
        hrest.map_constantWithin_eq (by omega)]

end

end Checked

end ToneGraph
