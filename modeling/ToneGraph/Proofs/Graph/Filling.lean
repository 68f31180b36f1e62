import Mathlib.Data.List.Forall2
import ToneGraph.Proofs.Expr.Names
import ToneGraph.Proofs.Graph.Parts
/-!
# Arenas of expressions

An expression all of whose calls fit has an arena, and its nodes fill it from the first place to the
last.  So the checks of references, of cycles and of the order are passed by every such arena.  What
may still fail are the sample rate and the calls of `delay`, the first of them first.

## Main definitions

* `Checked.timeFault?`: why a call of `delay` has no line.
* `Checked.Fills`: the arena of an expression.
* `Checked.Denotes`: how a node refers to an operand.
* `Checked.Becomes`: what building makes of an expression all of whose calls fit.

## Main statements

* `Checked.exists_toArena`: an expression all of whose calls fit has an arena.
* `Checked.Fills.order_eq`: its nodes are evaluated in the order of their places.
* `Checked.Fills.finish_eq_error_iff`: why it is refused.
* `Checked.build_of_parts`: what building makes of an expression.
-/

namespace ToneGraph

open Synth

namespace Checked

variable {e : Checked}

/-- The arena of an expression and the place of its root.  A number has a node for itself; of all
other expressions the root is the last node. -/
inductive Fills : Checked → (root : Nat) → Arena → Prop
  | number {value offset} : Fills (.number value offset) 0 #[⟨.constant value, some offset⟩]
  | part {e arena} : e.literal? = none → arena.size = e.units → Stands arena 0 e →
      Fills e (unitsAll e.operands) arena

/-- An expression all of whose calls fit has an arena. -/
theorem exists_toArena (hfit : ∀ part ∈ e.parts, part.arityFault? = none) :
    ∃ root arena, e.toArena = .ok (root, arena) ∧ Fills e root arena := by
  obtain ⟨grown, hlower, hgrows, hstands⟩ := lowers_of_fit hfit #[]
  cases hpart : e.literal? with
  | some value =>
      cases e with
      | number value offset =>
          exact ⟨0, _, rfl, .number⟩
      | _ => contradiction
  | none =>
      have hsize : grown.size = e.units := hgrows.size.trans (Nat.zero_add _)
      rw [signal_part hpart, Array.size_empty, Nat.zero_add] at hlower
      exact ⟨_, grown, bind_eq_ok_iff.2 ⟨_, hlower, rfl⟩,
        .part hpart hsize (hstands grown fun _ _ hcell => hcell)⟩

/-- Whatever arena an expression has, its nodes fill it. -/
theorem fills_of_toArena {root : Nat} {arena : Arena} (h : e.toArena = .ok (root, arena)) :
    Fills e root arena := by
  cases hfault : e.parts.findSome? arityFault? with
  | some why =>
      have hfail : e.toArena = .error why :=
        bind_eq_error_iff.2 (.inl (lower_eq_error hfault #[]))
      exact absurd (hfail.symm.trans h) nofun
  | none =>
      obtain ⟨_, _, harena, hfills⟩ := exists_toArena (List.findSome?_eq_none_iff.1 hfault)
      cases h.symm.trans harena
      exact hfills

/-! ## Delays -/

/-- Only a call of `delay` has a node that delays. -/
theorem eq_delay_of_node? {inputs : List Signal} {input : Signal} {params : List Signal}
    (h : e.node? inputs = some (.effect .delay input params)) :
    ∃ name args offset, e = call (.effect .delay) name args offset := by
  unfold node? at h
  split at h
  · cases h
  · exact ⟨_, _, _, by rw [Function.eq_delay_of_node? h]⟩
  · cases h
  · cases h
  · cases h

/-- Why a call of `delay` has no memory. -/
def timeFault? (settings : BuildSettings) : Checked → Option BuildError
  | call (.effect .delay) _ [_, time] offset =>
    match time.known with
    | none => some (.variableDelay (some offset))
    | some seconds =>
      if settings.Allows seconds then none
      else some (.delayOutOfRange seconds settings.maxDelay (some offset))
  | _ => none

/-- The node of a part is without a memory for want of a time that is allowed. -/
theorem forNode_eq_error_iff {settings : BuildSettings} {arena : Arena} {index : Nat}
    {inputs : List Signal} {node : Node} (hnode : e.node? inputs = some node)
    (hknown : inputs.map arena.constant? = e.operands.map known) {why : BuildError} :
    Memory.forNode settings arena index ⟨node, some e.offset⟩ = .error why ↔
      e.timeFault? settings = some why := by
  by_cases hdelay : ∃ name args offset, e = call (.effect .delay) name args offset
  · obtain ⟨name, args, offset, rfl⟩ := hdelay
    replace hnode : Function.node? (.effect .delay) inputs = some node := hnode
    obtain ⟨input, params, rfl⟩ : ∃ input params, inputs = input :: params := by
      cases inputs with
      | nil => contradiction
      | cons input params => exact ⟨input, params, rfl⟩
    obtain ⟨t, rfl⟩ : ∃ t, params = [t] := by
      have hlength := (Function.inputs_of_node? hnode).1
      exact List.length_eq_one_iff.1 (Nat.succ.inj hlength)
    cases hnode
    obtain ⟨x, time, rfl⟩ : ∃ x time, args = [x, time] :=
      List.length_eq_two.1 (by simpa [operands] using (congrArg List.length hknown).symm)
    have htime : arena.constant? t = time.known := by
      simp only [operands, List.map_cons, List.map_nil, List.cons.injEq, and_true] at hknown
      exact hknown.2
    rw [Arena.forNode_delay rfl, timeFault?, ← htime]
    rcases Arena.delayLine_cases settings arena _ t with
      ⟨seconds, hseconds, hallows, hline⟩ | ⟨hnone, hline⟩ | ⟨seconds, hseconds, hallows, hline⟩
    · rw [hline, hseconds]
      simp [hallows]
    · rw [hline, hnone]
      simp [Checked.offset]
    · rw [hline, hseconds]
      simp [hallows, Checked.offset]
  · constructor
    · intro h
      obtain ⟨input, params, hother⟩ := Arena.exists_delay_of_forNode h
      cases hother
      exact absurd (eq_delay_of_node? hnode) hdelay
    · intro h
      unfold timeFault? at h
      split at h
      · exact absurd ⟨_, _, _, rfl⟩ hdelay
      · contradiction

/-! ## What an arena of an expression is like -/

namespace Fills

variable {settings : BuildSettings} {root : Nat} {arena : Arena}

theorem size_eq (h : Fills e root arena) : root + 1 = arena.size := by
  cases h with
  | number => rfl
  | part hpart hsize _ => rw [hsize, units_eq hpart]

theorem root_lt (h : Fills e root arena) : root < arena.size :=
  h.size_eq ▸ Nat.lt_succ_self root

/-- The node of a part stands at the place of the part, right behind those of its operands. -/
theorem cell_at (h : Fills e root arena) {k : Nat} {part : Checked}
    (hk : e.parts[k]? = some part) :
    ∃ start node, start + unitsAll part.operands = k ∧ StandsAll arena start part.operands ∧
      part.node? (signals start part.operands) = some node ∧
      arena[k]? = some ⟨node, some part.offset⟩ := by
  cases h with
  | number => contradiction
  | part _ _ hstands =>
      have hcell := hstands.cell_at hk
      rwa [Nat.zero_add] at hcell

/-- Every node has as many inputs as it needs, all of them at lower places. -/
theorem cell_spec (h : Fills e root arena) {i : Nat} {cell : Cell}
    (hcell : arena[i]? = some cell) :
    cell.node.inputs.length = cell.node.arity ∧ ∀ j ∈ cell.node.inputNodes, j < i := by
  obtain ⟨hi, -⟩ := Array.getElem?_eq_some_iff.1 hcell
  have hfills := h
  cases h with
  | number =>
      cases Nat.lt_one_iff.1 hi
      cases hcell
      exact ⟨rfl, nofun⟩
  | part hpart hsize _ =>
      rw [hsize, ← length_parts] at hi
      obtain ⟨start, node, hstart, hoperands, hnode, hother⟩ :=
        hfills.cell_at (List.getElem?_eq_getElem hi)
      cases hcell.symm.trans hother
      obtain ⟨harity, hinputs⟩ := complete_of_node? hnode
      exact ⟨harity, fun j hj => hstart ▸ hoperands.lt_of_mem (hinputs ▸ hj)⟩

theorem complete (h : Fills e root arena) : arena.Complete := by
  intro i cell hcell
  obtain ⟨harity, hinputs⟩ := h.cell_spec hcell
  obtain ⟨hi, -⟩ := Array.getElem?_eq_some_iff.1 hcell
  exact ⟨harity, fun j hj => Nat.lt_trans (hinputs j hj) hi⟩

theorem descends (h : Fills e root arena) : arena.Descends := by
  intro i j hj
  unfold Arena.inputsOf at hj
  split at hj
  · next cell hcell => exact (h.cell_spec hcell).2 j hj
  · contradiction

/-- Every node but the root is an input of one node, and the root is an input of none. -/
theorem references (h : Fills e root arena) :
    ((List.range arena.size).flatMap arena.inputsOf ++ [root]).Perm (List.range arena.size) := by
  cases h with
  | number => exact .refl _
  | part hpart hsize hstands =>
      have hperm := hstands.references
      rwa [signal_part hpart, Nat.zero_add, ← hsize, ← List.range_eq_range'] at hperm

/-- The order of evaluation is that of the places. -/
theorem order_eq (h : Fills e root arena) : arena.order root = .ok (List.range arena.size) := by
  obtain ⟨plan, hplan⟩ := h.descends.exists_order h.root_lt
  have hvisit := Arena.visit_of_order h.descends.closed h.root_lt hplan
  rw [hplan]
  refine congrArg _ ?_
  -- The recursive search has one outcome, and that of the parts is known.
  cases h with
  | @number value offset =>
      have hown : Arena.Visit #[⟨.constant value, some offset⟩] [] 0 ([] ++ [0]) :=
        .first List.not_mem_nil .nil
      exact hown.unique hvisit
  | part hpart hsize hstands =>
      have hown := hstands.visit hpart
      rw [Nat.zero_add, Nat.zero_add, ← hsize] at hown
      exact hown.unique hvisit

/-- The memories fail at the first call of `delay` that has none. -/
theorem memories_eq_error_iff (h : Fills e root arena) {why : BuildError} :
    Arena.memoriesFrom settings arena 0 arena.toList = .error why ↔
      e.parts.findSome? (timeFault? settings) = some why := by
  have hfills := h
  cases h with
  | number => exact ⟨nofun, nofun⟩
  | part hpart hsize _ =>
      refine (Arena.checksInRow_memoriesFrom settings arena).eq_error_iff_findSome? ?_ ?_
      · rw [Array.length_toList, hsize, length_parts]
      · intro i cell part hcell hi other
        obtain ⟨start, node, hstart, hoperands, hnode, hother⟩ := hfills.cell_at hi
        rw [Array.getElem?_toList] at hcell
        cases hcell.symm.trans hother
        refine forNode_eq_error_iff hnode (hoperands.map_constantWithin_eq ?_)
        obtain ⟨hlt, -⟩ := Array.getElem?_eq_some_iff.1 hcell
        exact hstart ▸ Nat.le_of_lt hlt

/-- With a sample rate, only the memories of the calls of `delay` may fail. -/
theorem finish_eq_error_iff (h : Fills e root arena) (hruns : settings.Runs) {why : BuildError} :
    arena.finish settings root = .error why ↔
      e.parts.findSome? (timeFault? settings) = some why := by
  have hacyclic := (Arena.exists_order_iff h.complete h.root_lt).1 ⟨_, h.order_eq⟩
  rw [Arena.finish_eq_error_iff hruns h.root_lt h.complete hacyclic, h.memories_eq_error_iff]

theorem plan_of_finish (h : Fills e root arena) {g : Graph}
    (hfinish : arena.finish settings root = .ok g) : g.plan = List.range arena.size := by
  obtain ⟨_, _, _, plan, memories, hplan, _, rfl⟩ := Arena.finish_eq_ok_iff.1 hfinish
  cases h.order_eq.symm.trans hplan
  rfl

/-- No node is an input twice. -/
theorem nodup_inputs (h : Fills e root arena) :
    ((List.range arena.size).flatMap arena.inputsOf).Nodup :=
  (List.nodup_append.1 (h.references.nodup_iff.2 List.nodup_range)).1

theorem nodup_inputsOf (h : Fills e root arena) (i : Nat) : (arena.inputsOf i).Nodup := by
  by_cases hi : i < arena.size
  · exact (List.nodup_flatMap.1 h.nodup_inputs).1 i (List.mem_range.2 hi)
  · rw [Arena.inputsOf, Array.getElem?_eq_none (Nat.le_of_not_lt hi)]
    exact List.nodup_nil

/-- Every node before the root is read by one node. -/
theorem existsUnique_reader (h : Fills e root arena) {j : Nat} (hj : j < root) :
    ∃! i, j ∈ arena.inputsOf i := by
  have hdisjoint := (List.nodup_flatMap.1 h.nodup_inputs).2
  have hmem : j ∈ (List.range arena.size).flatMap arena.inputsOf ++ [root] :=
    h.references.mem_iff.2 (List.mem_range.2 (Nat.lt_trans hj h.root_lt))
  have hread := (List.mem_append.1 hmem).resolve_right (by simp [Nat.ne_of_lt hj])
  obtain ⟨i, hi, hinput⟩ := List.mem_flatMap.1 hread
  refine ⟨i, hinput, fun other hother => ?_⟩
  by_contra hne
  have hrange : other ∈ List.range arena.size := List.mem_range.2 (Arena.lt_size_of_input hother)
  have : Std.Symm (Function.onFun List.Disjoint arena.inputsOf) := ⟨fun _ _ h => h.symm⟩
  exact hdisjoint.forall hrange hi hne hother hinput

end Fills

/-! ## Checked names -/

mutual

/-- Every call of a checked expression fits. -/
theorem fit_of_check : ∀ {source : Expr} {e : Checked}, source.check = .ok e →
    ∀ part ∈ e.parts, part.arityFault? = none
  | .number value offset, e, h => by
      cases h
      exact nofun
  | .identifier name offset, e, h => by
      rw [Expr.check] at h
      split at h
      · cases h
        exact List.forall_mem_singleton.2 rfl
      · contradiction
  | .call callee args offset, e, h => by
      rw [Expr.check] at h
      split at h
      · contradiction
      · next word hword =>
          split at h
          · contradiction
          · next hcount =>
              obtain ⟨checked, hargs, heq⟩ := bind_eq_ok_iff.1 h
              cases heq
              have harity := arity_eq_of_mem_vocabulary (List.mem_of_find?_eq_some hword)
              refine List.forall_mem_append.2
                ⟨fit_of_checkAll hargs, List.forall_mem_singleton.2 (if_pos ?_)⟩
              rw [Expr.length_checkAll hargs, not_not.1 hcount, harity]
  | .binary op left right offset, e, h => by
      obtain ⟨l, hleft, hmore⟩ := bind_eq_ok_iff.1 h
      obtain ⟨r, hright, heq⟩ := bind_eq_ok_iff.1 hmore
      cases heq
      exact List.forall_mem_append.2
        ⟨List.forall_mem_append.2 ⟨fit_of_check hleft, fit_of_check hright⟩,
          List.forall_mem_singleton.2 rfl⟩
  | .negate operand offset, e, h => by
      obtain ⟨x, hoperand, heq⟩ := bind_eq_ok_iff.1 h
      cases heq
      exact List.forall_mem_append.2 ⟨fit_of_check hoperand, List.forall_mem_singleton.2 rfl⟩

theorem fit_of_checkAll : ∀ {sources : List Expr} {es : List Checked},
    Expr.checkAll sources = .ok es → ∀ part ∈ partsAll es, part.arityFault? = none
  | [], es, h => by
      cases h
      exact nofun
  | source :: rest, es, h => by
      obtain ⟨first, hfirst, hmore⟩ := bind_eq_ok_iff.1 h
      obtain ⟨others, hothers, heq⟩ := bind_eq_ok_iff.1 hmore
      cases heq
      exact List.forall_mem_append.2 ⟨fit_of_check hfirst, fit_of_checkAll hothers⟩

end

/-! ## Operands -/

/-- A signal denotes an expression: a number by its value, any other by its place among parts. -/
def Denotes (parts : List Checked) (e : Checked) : Signal → Prop
  | .constant value => e.literal? = some value
  | .node id => parts[id]? = some e

/-- A list stands in another from a place on. -/
def Block (inner outer : List Checked) (start : Nat) : Prop :=
  ∀ i x, inner[i]? = some x → outer[start + i]? = some x

theorem Block.refl (parts : List Checked) : Block parts parts 0 := by
  intro i x hx
  rwa [Nat.zero_add]

theorem Block.append_left {inner outer back : List Checked} {start : Nat}
    (h : Block inner outer start) : Block inner (outer ++ back) start := by
  intro i x hx
  have hfound := h i x hx
  rwa [List.getElem?_append_left (List.getElem?_eq_some_iff.1 hfound).1]

theorem Block.append_right {inner outer front : List Checked} {start : Nat}
    (h : Block inner outer start) : Block inner (front ++ outer) (front.length + start) := by
  intro i x hx
  rw [Nat.add_assoc, List.getElem?_append_right (Nat.le_add_right _ _), Nat.add_sub_cancel_left]
  exact h i x hx

theorem block_partsAll {es : List Checked} {part : Checked} {p : Nat}
    (h : ∀ e ∈ es, ∀ p, e.parts[p]? = some part → ∃ start, start + unitsAll part.operands = p ∧
      Block (partsAll part.operands) e.parts start)
    (hp : (partsAll es)[p]? = some part) :
    ∃ start, start + unitsAll part.operands = p ∧
      Block (partsAll part.operands) (partsAll es) start := by
  induction es generalizing p with
  | nil => contradiction
  | cons e rest ih =>
      obtain ⟨hfirst, hrest⟩ := List.forall_mem_cons.1 h
      rw [partsAll, List.getElem?_append] at hp
      split at hp
      · obtain ⟨start, hstart, hblock⟩ := hfirst p hp
        exact ⟨start, hstart, hblock.append_left⟩
      · obtain ⟨start, hstart, hblock⟩ := ih hrest hp
        exact ⟨_, by omega, hblock.append_right⟩

/-- The parts of the operands of a part stand right before it. -/
theorem block_parts {part : Checked} {p : Nat} (hp : e.parts[p]? = some part) :
    ∃ start, start + unitsAll part.operands = p ∧
      Block (partsAll part.operands) e.parts start := by
  induction e using operand_induction generalizing p with
  | hnumber value offset => contradiction
  | hpart e hpart ih =>
      rw [parts_eq hpart, List.getElem?_append] at hp
      rw [parts_eq hpart]
      split at hp
      · obtain ⟨start, hstart, hblock⟩ := block_partsAll (fun x hx p => ih x hx) hp
        exact ⟨start, hstart, hblock.append_left⟩
      · next hle =>
          rw [List.getElem?_singleton] at hp
          split at hp
          · next hzero =>
              cases hp
              rw [length_partsAll] at hle hzero
              exact ⟨0, by omega, (Block.refl _).append_left⟩
          · contradiction

theorem denotes_signals {es whole : List Checked} {k : Nat} (h : Block (partsAll es) whole k) :
    List.Forall₂ (Denotes whole) es (signals k es) := by
  induction es generalizing k with
  | nil => exact .nil
  | cons e rest ih =>
      refine .cons ?_ (ih fun i x hx => ?_)
      · rw [signal]
        split
        · next value hvalue => exact hvalue
        · next hpart =>
            refine h _ _ ?_
            rw [partsAll, parts_eq hpart, List.append_assoc,
              List.getElem?_append_right (length_partsAll _).le, length_partsAll, Nat.sub_self]
            rfl
      · rw [Nat.add_assoc]
        refine h _ _ ?_
        rw [partsAll, List.getElem?_append_right (by rw [length_parts]; omega), length_parts,
          Nat.add_sub_cancel_left, hx]

/-! ## Building -/

/-- What building makes of an expression all of whose calls fit. -/
structure Becomes (settings : BuildSettings) (e : Checked) (root : Nat) (arena : Arena) : Prop where
  toArena_eq : e.toArena = .ok (root, arena)
  build_eq : e.build settings = arena.finish settings root
  root_last : root + 1 = arena.size
  /-- A number alone has one node. -/
  number : ∀ value, e.literal? = some value → arena = #[⟨.constant value, some e.offset⟩]
  size_eq : e.literal? = none → arena.size = e.parts.length
  /-- The node of a part stands at the place of the part and reads its operands, whose nodes end
  there. -/
  part : ∀ k part, e.parts[k]? = some part → ∃ start node, start + unitsAll part.operands = k ∧
    List.Forall₂ (Denotes e.parts) part.operands (signals start part.operands) ∧
    part.node? (signals start part.operands) = some node ∧
    arena[k]? = some ⟨node, some part.offset⟩
  /-- Every node but the last is an input of one node. -/
  read_by_one : ∀ j < root, ∃! i, j ∈ arena.inputsOf i
  read_once : ∀ i, (arena.inputsOf i).Nodup
  without_rate : ¬ settings.Runs →
    arena.finish settings root = .error (.invalidSampleRate settings.sampleRate)
  /-- With a sample rate, the first call of `delay` whose time is wrong is all that is refused. -/
  with_rate : settings.Runs → ∀ why, arena.finish settings root = .error why ↔
    e.parts.findSome? (timeFault? settings) = some why
  plan_eq : ∀ g, arena.finish settings root = .ok g → g.plan = List.range arena.size

theorem Fills.becomes {settings : BuildSettings} {root : Nat} {arena : Arena}
    (h : Fills e root arena) (harena : e.toArena = .ok (root, arena)) :
    Becomes settings e root arena where
  toArena_eq := harena
  build_eq := by
    rw [build, harena]
    rfl
  root_last := h.size_eq
  number := by
    intro value hvalue
    cases h with
    | number =>
        cases hvalue
        rfl
    | part hpart _ _ => exact absurd (hvalue.symm.trans hpart) nofun
  size_eq := by
    intro hpart
    cases h with
    | number => contradiction
    | part _ hsize _ => exact hsize.trans (length_parts e).symm
  part := by
    intro k part hk
    obtain ⟨start, node, hstart, -, hnode, hcell⟩ := h.cell_at hk
    obtain ⟨other, hother, hblock⟩ := block_parts hk
    cases (Nat.add_right_cancel (hother.trans hstart.symm) : other = start)
    exact ⟨_, node, hstart, denotes_signals hblock, hnode, hcell⟩
  read_by_one := fun _ => h.existsUnique_reader
  read_once := h.nodup_inputsOf
  without_rate := Arena.finish_of_not_runs
  with_rate := fun hruns _ => h.finish_eq_error_iff hruns
  plan_eq := fun _ => h.plan_of_finish

/-- Building an expression, checked or not.  If a call does not fit, building fails at the first
such call in the order of the parts, whatever the settings.  Otherwise the expression becomes an
arena, its parts in their order.  All calls of a checked expression fit. -/
theorem build_of_parts (settings : BuildSettings) (e : Checked) :
    (∀ why, e.parts.findSome? arityFault? = some why → e.build settings = .error why) ∧
    ((∀ part ∈ e.parts, part.arityFault? = none) →
      ∃ root arena, Becomes settings e root arena) ∧
    ∀ source : Expr, source.check = .ok e → ∀ part ∈ e.parts, part.arityFault? = none := by
  refine ⟨fun why hfault => ?_, fun hfit => ?_, fun source hcheck => fit_of_check hcheck⟩
  · exact bind_eq_error_iff.2 (.inl (bind_eq_error_iff.2 (.inl (lower_eq_error hfault #[]))))
  · obtain ⟨root, arena, harena, hfills⟩ := exists_toArena hfit
    exact ⟨root, arena, hfills.becomes harena⟩

/-- An expression whose calls both do not fit, one that delays by a number, and one that delays by
the time. -/
theorem build_of_three :
    let settings : BuildSettings := ⟨8.0, defaultSeed, defaultMaxDelay⟩
    let delay (time : Checked) : Checked :=
      .call (.effect .delay) "delay" [.negate (.context .time 7) 6, time] 0
    let wrong : Checked := .binary .add (.call (.oscillator .sine) "sine" [] 0)
      (.call .random "random" [.number 1.0 16] 9) 7
    wrong.build settings = .error (.arity "sine" 1 0 (some 0)) ∧
    (∃ arena, (delay (.number 0.5 14)).toArena = .ok (2, arena) ∧
      arena[1]? = some ⟨.arithmetic .sub (.constant 0.0) (.node 0), some 6⟩ ∧
      (∃! i, 0 ∈ arena.inputsOf i) ∧
      ∃ g, arena.finish settings 2 = .ok g ∧ g.plan = [0, 1, 2]) ∧
    (delay (.context .time 14)).build settings = .error (.variableDelay (some 0)) := by
  intro settings delay wrong
  have hruns : settings.Runs := ⟨by decide, by decide⟩
  refine ⟨(build_of_parts settings wrong).1 _ rfl, ?_, ?_⟩
  · let source : Expr :=
      .call "delay" [.negate (.identifier "time" 7) 6, .number 0.5 14] 0
    have hcheck : source.check = .ok (delay (.number 0.5 14)) := rfl
    obtain ⟨-, hspec, hfit⟩ := build_of_parts settings (delay (.number 0.5 14))
    obtain ⟨root, arena, h⟩ := hspec (hfit source hcheck)
    have hsize : arena.size = 3 := h.size_eq rfl
    cases (Nat.succ.inj (h.root_last.trans hsize) : root = 2)
    obtain ⟨start, node, hstart, -, hnode, hcell⟩ := h.part 1 _ rfl
    cases (Nat.succ.inj hstart : start = 0)
    cases hnode
    refine ⟨arena, h.toArena_eq, hcell, h.read_by_one 0 (by decide), ?_⟩
    have htime : (delay (.number 0.5 14)).timeFault? settings = none :=
      if_pos ⟨by decide, by decide, by decide⟩
    have hnone : (delay (.number 0.5 14)).parts.findSome? (timeFault? settings) = none := by
      simpa [delay, parts, partsAll, timeFault?] using htime
    cases hfinish : arena.finish settings 2 with
    | error why => exact absurd (hnone.symm.trans ((h.with_rate hruns why).1 hfinish)) nofun
    | ok g => exact ⟨g, rfl, (h.plan_eq g hfinish).trans (by rw [hsize]; rfl)⟩
  · have hfit : ∀ part ∈ (delay (.context .time 14)).parts, part.arityFault? = none := by
      simp [delay, parts, partsAll, arityFault?, Function.arity, EffectKind.paramCount]
    obtain ⟨root, arena, h⟩ := (build_of_parts settings (delay (.context .time 14))).2.1 hfit
    exact h.build_eq.trans ((h.with_rate hruns _).2 rfl)

end Checked

end ToneGraph
