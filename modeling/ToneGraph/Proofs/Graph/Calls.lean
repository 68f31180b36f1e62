import ToneGraph.Proofs.Graph.Tick
/-!
# Calls

Whoever holds a graph may evaluate it at any clock, render with its own, give it another seed and
number it, in any order.  What the graph was built of stays.

## Main definitions

* `Graph.Call`, `Graph.afterCalls`: the calls that change a graph, and a graph after some of them.

## Main statements

* `Graph.afterCalls_induction`: what is kept by all calls.
* `Graph.Built.afterCalls`: a built graph stays one.
-/

namespace ToneGraph

open Synth

namespace Graph

/-- A call that changes a graph. -/
inductive Call where
  | evaluate (clock : Clock)
  | next
  | render (ticks : Nat)
  | reseed (seed : UInt64)
  | number (generation : Nat)

/-- A graph after a call. -/
def call (g : Graph) : Call → Graph
  | .evaluate clock => (g.evaluate clock).2
  | .next => g.next.2
  | .render ticks => (g.render ticks).2
  | .reseed seed => g.reseed seed
  | .number generation => { g with generation }

/-- A graph after several calls, the first one first. -/
def afterCalls (g : Graph) (calls : List Call) : Graph :=
  calls.foldl call g

section Induction

variable {P : Graph → Prop} (hevaluate : ∀ g clock, P g → P (g.evaluate clock).2)
  (hclock : ∀ g clock, P g → P { g with clock }) (hreseed : ∀ g seed, P g → P (g.reseed seed))
  (hnumber : ∀ g generation, P g → P { g with generation })

include hevaluate hclock

/-- What evaluating keeps, and what says nothing of the clock, is kept by rendering. -/
theorem renderOnto_induction {g : Graph} (h : P g) (out : Array Float) (ticks : Nat) :
    P (g.renderOnto out ticks).2 := by
  induction ticks generalizing g out with
  | zero => exact h
  | succ ticks ih => exact ih (hclock _ _ (hevaluate g g.clock h)) (out.push g.next.1)

include hreseed hnumber

/-- What evaluating and reseeding keep, and what says nothing of the clock and the number, is kept
by all calls. -/
theorem afterCalls_induction {g : Graph} (h : P g) (calls : List Call) :
    P (g.afterCalls calls) := by
  induction calls generalizing g with
  | nil => exact h
  | cons call rest ih =>
      refine ih ?_
      cases call with
      | evaluate clock => exact hevaluate g clock h
      | next => exact hclock _ _ (hevaluate g g.clock h)
      | render ticks => exact renderOnto_induction hevaluate hclock h #[] ticks
      | reseed seed => exact hreseed g seed h
      | number generation => exact hnumber g generation h

end Induction

@[simp] theorem plan_afterCalls (g : Graph) (calls : List Call) :
    (g.afterCalls calls).plan = g.plan := by
  refine afterCalls_induction (P := fun later => later.plan = g.plan) ?_ ?_ ?_ ?_ rfl calls
  all_goals exact fun _ _ h => h

namespace Built

variable {arena : Arena} {root : Nat} {g : Graph}

theorem reseed (h : Built arena root g) (seed : UInt64) : Built arena root (g.reseed seed) :=
  { h with size_memories := Array.size_mapIdx.trans h.size_memories }

theorem next (h : Built arena root g) : Built arena root g.next.2 :=
  { h.evaluate g.clock with }

/-- A built graph stays one, whatever is called. -/
theorem afterCalls (h : Built arena root g) (calls : List Call) :
    Built arena root (g.afterCalls calls) := by
  refine afterCalls_induction ?hevaluate ?hclock ?hreseed ?hnumber h calls
  case hevaluate => exact fun _ clock h => h.evaluate clock
  case hclock | hnumber => exact fun _ _ h => { h with }
  case hreseed => exact fun _ seed h => h.reseed seed

end Built

end Graph

end ToneGraph
