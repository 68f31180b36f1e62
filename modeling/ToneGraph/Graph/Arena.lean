import ToneGraph.Graph.BuildError
import ToneGraph.Graph.Node
/-!
# Arenas

An arena is a row of nodes, each with the place in the source it came from. Nodes may refer to any
place, earlier or later; the checks of this module say whether every reference is good, and in
what order the nodes under a root have to be evaluated.

## Main definitions

* `Arena.check`: every node has the inputs its unit needs, and they exist.
* `Arena.order`: the nodes under a root, each after its inputs.
* `Arena.constant?`: the value of a signal that depends on constants alone.
-/

namespace ToneGraph

/-- A node and the byte offset of the expression it came from. -/
structure Cell where
  node : Node
  origin : Option Nat
  deriving DecidableEq

/-- Nodes that know each other by their place. -/
abbrev Arena := Array Cell

namespace Arena

/-- Where the node at a place came from. -/
def originOf (arena : Arena) (id : Nat) : Option Nat :=
  arena[id]?.bind Cell.origin

/-! ## References -/

/-- Whether one cell has as many inputs as it needs and refers to existing nodes only. -/
def checkCell (size index : Nat) (cell : Cell) : Except BuildError Unit :=
  let got := cell.node.inputs.length
  if got ≠ cell.node.arity then
    .error (.arity cell.node.name cell.node.arity got cell.origin)
  else
    match cell.node.inputNodes.find? (fun id => size ≤ id) with
    | some missing => .error (.danglingInput index missing cell.origin)
    | none => .ok ()

/-- Checks cells from the left; the first cell stands at `index`. -/
def checkCells (size : Nat) : Nat → List Cell → Except BuildError Unit
  | _, [] => .ok ()
  | index, cell :: rest => do
    checkCell size index cell
    checkCells size (index + 1) rest

/-- Checks every cell, the lowest place first. -/
def check (arena : Arena) : Except BuildError Unit :=
  checkCells arena.size 0 arena.toList

/-! ## Evaluation order -/

/-- How far the search has come with a node. -/
inductive Mark where
  | unvisited | inProgress | done
  deriving DecidableEq, Repr

/-- What the search has still to do: look at a node, or close a node whose inputs are done. -/
inductive Task where
  | enter (id : Nat)
  | leave (id : Nat)
  deriving DecidableEq, Repr

theorem count_unvisited_set_le (marks : Array Mark) (id : Nat) (mark : Mark)
    (h : mark ≠ .unvisited) :
    (marks.setIfInBounds id mark).count .unvisited ≤ marks.count .unvisited := by
  by_cases hid : id < marks.size
  · rw [Array.setIfInBounds, dif_pos hid, Array.count_set]
    have : (mark == Mark.unvisited) = false := by simpa using h
    simp [this]
  · exact Nat.le_of_eq (by rw [Array.setIfInBounds, dif_neg hid])

theorem count_unvisited_set_lt (marks : Array Mark) (id : Nat) (mark : Mark)
    (h : mark ≠ .unvisited) (hid : marks[id]? = some .unvisited) :
    (marks.setIfInBounds id mark).count .unvisited < marks.count .unvisited := by
  obtain ⟨hlt, hget⟩ := Array.getElem?_eq_some_iff.1 hid
  rw [Array.setIfInBounds, dif_pos hlt, Array.count_set]
  have hmark : (mark == Mark.unvisited) = false := by simpa using h
  have hpos : 0 < marks.count .unvisited :=
    Array.count_pos_iff.2 (hget ▸ Array.getElem_mem hlt)
  simp only [hget, hmark, BEq.rfl, if_true, Bool.false_eq_true, if_false]
  omega

/-- The inputs of the node at a place that are nodes. -/
def inputsOf (arena : Arena) (id : Nat) : List Nat :=
  match arena[id]? with
  | some cell => cell.node.inputNodes
  | none => []

/-- Works off the tasks, depth first, and lists the nodes in the order they were closed. A node
is entered once; when it is entered, an input that is in progress closes a cycle, and of several
the last is named. Inputs are entered from the left. The search ends since entering a node leaves
one node less unvisited, and every other task only shortens the list. -/
def search (arena : Arena) (marks : Array Mark) (tasks : List Task) (closed : List Nat) :
    Except BuildError (List Nat) :=
  match tasks with
  | [] => .ok closed.reverse
  | .leave id :: rest => search arena (marks.setIfInBounds id .done) rest (id :: closed)
  | .enter id :: rest =>
    match _h : marks[id]? with
    | some .unvisited =>
      let marks := marks.setIfInBounds id .inProgress
      let inputs := arena.inputsOf id
      match inputs.reverse.find? (fun input => marks[input]? == some .inProgress) with
      | some input => .error (.cycle input (arena.originOf input))
      | none =>
        let next := inputs.filter fun input => marks[input]? == some .unvisited
        search arena marks (next.map .enter ++ .leave id :: rest) closed
    | some .inProgress => .error (.cycle id (arena.originOf id))
    | _ => search arena marks rest closed
termination_by (marks.count .unvisited, tasks.length)
decreasing_by
  · have := count_unvisited_set_le marks id .done (by decide)
    rcases Nat.lt_or_eq_of_le this with h | h
    · exact Prod.Lex.left _ _ h
    · rw [h]
      exact Prod.Lex.right _ (Nat.lt_succ_self _)
  · exact Prod.Lex.left _ _ (count_unvisited_set_lt _ id .inProgress (by decide) _h)
  · exact Prod.Lex.right _ (Nat.lt_succ_self _)

/-- The nodes under a root in evaluation order: every node once, after its inputs, the root
last. -/
def order (arena : Arena) (root : Nat) : Except BuildError (List Nat) :=
  search arena (Array.replicate arena.size .unvisited) [.enter root] []

/-! ## Constants -/

/-- The value of a signal that depends on constants, operators and functions alone. The budget
bounds the depth, so the walk ends on a cycle too. -/
def constantWithin (arena : Arena) : Nat → Signal → Option Float
  | _, .constant value => some value
  | 0, .node _ => none
  | budget + 1, .node id =>
    match arena[id]? with
    | none => none
    | some cell =>
      match cell.node with
      | .constant value => some value
      | .arithmetic op left right => do
        let a ← constantWithin arena budget left
        let b ← constantWithin arena budget right
        return op.apply a b
      | .math op inputs => do
        let xs ← (inputs.take 3).mapM (constantWithin arena budget)
        return op.applyList xs
      | _ => none

/-- The value of a signal that is known before the graph runs. No path without a cycle is longer
than the arena. -/
def constant? (arena : Arena) (signal : Signal) : Option Float :=
  arena.constantWithin arena.size signal

end Arena

end ToneGraph
