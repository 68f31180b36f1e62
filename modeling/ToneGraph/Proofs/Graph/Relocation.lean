import ToneGraph.Compile
import ToneGraph.Proofs.Expr.Relocation
import ToneGraph.Proofs.Graph.Order
/-!
# Moving nodes

Behind the parser an offset is only carried along: to a checked expression, to the cells of the
arena, and into an error about a node.  So an expression whose nodes are moved is checked and built
as before.  It gives the same graph, since a graph keeps no offsets, or the same error at the node's
new offset.

## Main statements

* `Expr.check_relocate`: looking up names commutes with moving the nodes.
* `Checked.build_relocate`: building a graph commutes with moving the nodes.
-/

namespace ToneGraph

/-! ## Looking up names -/

/-- The error at another offset. -/
def SemanticError.relocate (f : Nat → Nat) : SemanticError → SemanticError
  | unknownFunction name offset => .unknownFunction name (f offset)
  | unknownIdentifier name offset => .unknownIdentifier name (f offset)
  | arity name expected got offset => .arity name expected got (f offset)

namespace Checked

mutual

/-- The checked expression with its nodes at other offsets. -/
def relocate (f : Nat → Nat) : Checked → Checked
  | number value offset => .number value (f offset)
  | context value offset => .context value (f offset)
  | call function name args offset => .call function name (relocateAll f args) (f offset)
  | binary op left right offset => .binary op (relocate f left) (relocate f right) (f offset)
  | negate operand offset => .negate (relocate f operand) (f offset)

/-- Several checked expressions with their nodes at other offsets. -/
def relocateAll (f : Nat → Nat) : List Checked → List Checked
  | [] => []
  | e :: rest => relocate f e :: relocateAll f rest

end

theorem offset_relocate (f : Nat → Nat) (e : Checked) : (e.relocate f).offset = f e.offset := by
  cases e <;> rfl

end Checked

namespace Expr

variable (f : Nat → Nat)

theorem length_relocateAll (es : List Expr) : (relocateAll f es).length = es.length := by
  induction es with
  | nil => rfl
  | cons e rest ih => exact congrArg (· + 1) ih

mutual

/-- Looking up names commutes with moving the nodes. -/
theorem check_relocate : ∀ e : Expr,
    (e.relocate f).check = mapBoth (Checked.relocate f) (SemanticError.relocate f) e.check
  | .number value offset => rfl
  | .identifier name offset => by
      rw [relocate, check, check]
      cases lookupContext name <;> rfl
  | .call callee args offset => by
      rw [relocate, check, check]
      cases lookup callee with
      | none => rfl
      | some word =>
          dsimp only
          rw [length_relocateAll]
          split
          · rfl
          · exact mapBoth_bind (checkAll_relocate args) fun _ => rfl
  | .binary op left right offset =>
      mapBoth_bind (check_relocate left) fun _ => mapBoth_bind (check_relocate right) fun _ => rfl
  | .negate operand offset => mapBoth_bind (check_relocate operand) fun _ => rfl

theorem checkAll_relocate : ∀ es : List Expr,
    checkAll (relocateAll f es) =
      mapBoth (Checked.relocateAll f) (SemanticError.relocate f) (checkAll es)
  | [] => rfl
  | e :: rest =>
      mapBoth_bind (check_relocate e) fun _ => mapBoth_bind (checkAll_relocate rest) fun _ => rfl

end

end Expr

/-! ## Lowering -/

/-- The error at another offset, if it has one. -/
def BuildError.relocate (f : Nat → Nat) : BuildError → BuildError
  | invalidSampleRate rate => .invalidSampleRate rate
  | missingRoot root => .missingRoot root
  | danglingInput node input origin => .danglingInput node input (origin.map f)
  | cycle node origin => .cycle node (origin.map f)
  | arity name expected got origin => .arity name expected got (origin.map f)
  | variableDelay origin => .variableDelay (origin.map f)
  | delayOutOfRange seconds limit origin => .delayOutOfRange seconds limit (origin.map f)

/-- The cell with its node at another offset. -/
def Cell.relocate (f : Nat → Nat) (cell : Cell) : Cell :=
  { cell with origin := cell.origin.map f }

namespace Arena

variable (f : Nat → Nat)

/-- The arena with its nodes at other offsets. -/
def relocate (arena : Arena) : Arena :=
  arena.map (Cell.relocate f)

theorem add_relocate (arena : Arena) (node : Node) (offset : Nat) :
    (arena.relocate f).add node (f offset) = Prod.map id (relocate f) (arena.add node offset) := by
  simp [add, relocate, Cell.relocate]

end Arena

namespace Checked

variable (f : Nat → Nat)

mutual

/-- Lowering commutes with moving the nodes. -/
theorem lower_relocate : ∀ (e : Checked) (arena : Arena),
    (e.relocate f).lower (arena.relocate f) =
      mapBoth (Prod.map id (Arena.relocate f)) (BuildError.relocate f) (e.lower arena)
  | .number value offset, _ => rfl
  | .context .time offset, _ => congrArg Except.ok (Arena.add_relocate f _ .time offset)
  | .call function name args offset, arena => by
      refine mapBoth_bind (lowerAll_relocate args arena) fun pair => ?_
      obtain ⟨inputs, behind⟩ := pair
      dsimp only [Prod.map, id]
      cases function.node? inputs with
      | none => rfl
      | some node => exact congrArg Except.ok (behind.add_relocate f node offset)
  | .binary op left right offset, arena =>
      mapBoth_bind (lower_relocate left arena) fun l =>
        mapBoth_bind (lower_relocate right l.2) fun r =>
          congrArg Except.ok (r.2.add_relocate f (.arithmetic op l.1 r.1) offset)
  | .negate operand offset, arena =>
      mapBoth_bind (lower_relocate operand arena) fun x =>
        congrArg Except.ok (x.2.add_relocate f (.arithmetic .sub (.constant 0.0) x.1) offset)

theorem lowerAll_relocate : ∀ (es : List Checked) (arena : Arena),
    lowerAll (relocateAll f es) (arena.relocate f) =
      mapBoth (Prod.map id (Arena.relocate f)) (BuildError.relocate f) (lowerAll es arena)
  | [], _ => rfl
  | e :: rest, arena =>
      mapBoth_bind (lower_relocate e arena) fun first =>
        mapBoth_bind (lowerAll_relocate rest first.2) fun _ => rfl

end

theorem toArena_relocate (e : Checked) :
    (e.relocate f).toArena =
      mapBoth (Prod.map id (Arena.relocate f)) (BuildError.relocate f) e.toArena := by
  have hlower := lower_relocate f e #[]
  rw [Arena.relocate, Array.map_empty] at hlower
  refine mapBoth_bind hlower fun pair => ?_
  obtain ⟨signal, behind⟩ := pair
  cases signal with
  | node root => rfl
  | constant value =>
      have hadd := behind.add_relocate f (.constant value) e.offset
      dsimp only [Prod.map, id]
      rw [offset_relocate, hadd, Arena.relocate, Array.size_map]
      rfl

end Checked

/-! ## Finishing an arena -/

namespace Arena

variable (f : Nat → Nat) (arena : Arena)

theorem getElem?_relocate (id : Nat) :
    (arena.relocate f)[id]? = arena[id]?.map (Cell.relocate f) :=
  Array.getElem?_map

theorem inputsOf_relocate (id : Nat) : (arena.relocate f).inputsOf id = arena.inputsOf id := by
  rw [inputsOf, inputsOf, getElem?_relocate]
  cases arena[id]? <;> rfl

theorem originOf_relocate (id : Nat) :
    (arena.relocate f).originOf id = (arena.originOf id).map f := by
  rw [originOf, originOf, getElem?_relocate]
  cases arena[id]? <;> rfl

theorem checkCell_relocate (size index : Nat) (cell : Cell) :
    checkCell size index (cell.relocate f) =
      mapBoth id (BuildError.relocate f) (checkCell size index cell) := by
  have hnode : (cell.relocate f).node = cell.node := rfl
  rw [checkCell, checkCell, hnode]
  by_cases hgot : cell.node.inputs.length ≠ cell.node.arity
  · rw [if_pos hgot, if_pos hgot]
    rfl
  · rw [if_neg hgot, if_neg hgot]
    cases cell.node.inputNodes.find? _ <;> rfl

theorem checkCells_relocate (size index : Nat) (cells : List Cell) :
    checkCells size index (cells.map (Cell.relocate f)) =
      mapBoth id (BuildError.relocate f) (checkCells size index cells) := by
  induction cells generalizing index with
  | nil => rfl
  | cons cell cells ih =>
      exact mapBoth_bind (checkCell_relocate f size index cell) fun _ => ih (index + 1)

theorem check_relocate :
    (arena.relocate f).check = mapBoth id (BuildError.relocate f) arena.check := by
  rw [check, check, relocate, Array.size_map, Array.toList_map]
  exact checkCells_relocate f _ _ _

theorem search_relocate (marks : Array Mark) (tasks : List Task) (closed : List Nat) :
    (arena.relocate f).search marks tasks closed =
      mapBoth id (BuildError.relocate f) (arena.search marks tasks closed) := by
  induction marks, tasks, closed using search.induct arena with
  | case1 marks closed =>
      rw [search, search]
      rfl
  | case2 marks closed id rest ih =>
      rw [search, search]
      exact ih
  | case3 marks closed id rest hid marked inputs input hcycle =>
      simp only [marked, inputs] at hcycle
      simp only [search_enter, hid, inputsOf_relocate, originOf_relocate]
      rw [hcycle]
      rfl
  | case4 marks closed id rest hid marked inputs hclear next ih =>
      simp only [marked, inputs] at hclear
      simp only [search_enter, hid, inputsOf_relocate]
      rw [hclear]
      exact ih
  | case5 marks closed id rest hid =>
      rw [search_enter, search_enter, hid, originOf_relocate]
      rfl
  | case6 marks closed id rest hfresh hopen ih =>
      rw [search_enter, search_enter]
      split
      · next hmark => exact absurd hmark hfresh
      · next hmark => exact absurd hmark hopen
      · exact ih

theorem order_relocate (root : Nat) :
    (arena.relocate f).order root = mapBoth id (BuildError.relocate f) (arena.order root) := by
  rw [order, order, relocate, Array.size_map]
  exact search_relocate f arena _ _ _

theorem constantWithin_relocate (budget : Nat) (signal : Signal) :
    (arena.relocate f).constantWithin budget signal = arena.constantWithin budget signal := by
  induction budget generalizing signal with
  | zero => cases signal <;> rfl
  | succ budget ih =>
      have hfun : (arena.relocate f).constantWithin budget = arena.constantWithin budget :=
        funext ih
      cases signal with
      | constant value => rfl
      | node id =>
          rw [constantWithin, constantWithin, getElem?_relocate, hfun]
          cases arena[id]? <;> rfl

theorem constant?_relocate (signal : Signal) :
    (arena.relocate f).constant? signal = arena.constant? signal := by
  rw [constant?, constant?, constantWithin_relocate, relocate, Array.size_map]

theorem forNode_relocate (settings : BuildSettings) (index : Nat) (cell : Cell) :
    Memory.forNode settings (arena.relocate f) index (cell.relocate f) =
      mapBoth id (BuildError.relocate f) (Memory.forNode settings arena index cell) := by
  obtain ⟨node, origin⟩ := cell
  have hfun : (arena.relocate f).constant? = arena.constant? := funext (constant?_relocate f arena)
  cases node with
  | effect kind input params =>
      cases kind with
      | delay =>
          show Memory.delayLine _ _ _ _ = mapBoth _ _ (Memory.delayLine _ _ _ _)
          rw [Memory.delayLine, Memory.delayLine, hfun]
          cases params.head?.bind arena.constant? with
          | none => rfl
          | some seconds =>
              dsimp only
              split <;> rfl
      | _ => rfl
  | _ => rfl

theorem memoriesFrom_relocate (settings : BuildSettings) (index : Nat) (cells : List Cell) :
    memoriesFrom settings (arena.relocate f) index (cells.map (Cell.relocate f)) =
      mapBoth id (BuildError.relocate f) (memoriesFrom settings arena index cells) := by
  induction cells generalizing index with
  | nil => rfl
  | cons cell cells ih =>
      exact mapBoth_bind (forNode_relocate f arena settings index cell) fun _ =>
        mapBoth_bind (ih (index + 1)) fun _ => rfl

theorem checkSampleRate_relocate (rate : Float) :
    checkSampleRate rate = mapBoth id (BuildError.relocate f) (checkSampleRate rate) := by
  unfold checkSampleRate
  split <;> rfl

theorem checkRoot_relocate (root : Nat) :
    (arena.relocate f).checkRoot root =
      mapBoth id (BuildError.relocate f) (arena.checkRoot root) := by
  rw [checkRoot, checkRoot, relocate, Array.size_map]
  split <;> rfl

/-- A graph keeps no offsets, so moving the nodes of an arena changes nothing but errors. -/
theorem finish_relocate (settings : BuildSettings) (root : Nat) :
    (arena.relocate f).finish settings root =
      mapBoth id (BuildError.relocate f) (arena.finish settings root) := by
  have hmemories := memoriesFrom_relocate f arena settings 0 arena.toList
  rw [← Array.toList_map] at hmemories
  refine mapBoth_bind (checkSampleRate_relocate f _) fun _ =>
    mapBoth_bind (checkRoot_relocate f arena root) fun _ =>
    mapBoth_bind (check_relocate f arena) fun _ =>
    mapBoth_bind (order_relocate f arena root) fun plan =>
    mapBoth_bind hmemories fun memories => ?_
  simp [mapBoth, relocate, pure, Except.pure, Function.comp_def, Cell.relocate]

end Arena

/-- Building a graph commutes with moving the nodes. -/
theorem Checked.build_relocate (f : Nat → Nat) (settings : BuildSettings) (e : Checked) :
    (e.relocate f).build settings = mapBoth id (BuildError.relocate f) (e.build settings) :=
  mapBoth_bind (toArena_relocate f e) fun pair => Arena.finish_relocate f pair.2 settings pair.1

end ToneGraph
