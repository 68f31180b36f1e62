/-!
# Rings of samples

A ring keeps the last values written, one slot to each, and writes over the oldest. Delay lines,
combs, allpasses and swept taps are all rings that read at different ages.

## Main definitions

* `Ring.oldest`: the value that the next write replaces.
* `Ring.put` and `Ring.move`: write at the position, and go on to the next slot.
* `Ring.slotAgo`: the slot that lies some writes before the position.
-/

namespace ToneGraph.Synth

/-- Slots in a circle and the position of the next write. -/
structure Ring where
  slots : Array Float
  position : Nat

namespace Ring

/-- A ring of zeros. -/
def silent (length : Nat) : Ring :=
  ⟨Array.replicate length 0.0, 0⟩

/-- The number of slots. -/
def length (r : Ring) : Nat :=
  r.slots.size

/-- The value at the position, which the next write replaces. -/
def oldest (r : Ring) : Float :=
  r.slots.getD r.position 0.0

/-- Writes at the position and stays there. -/
def put (r : Ring) (x : Float) : Ring :=
  { r with slots := r.slots.setIfInBounds r.position x }

/-- Goes on to the next slot. -/
def move (r : Ring) : Ring :=
  { r with position := (r.position + 1) % r.slots.size }

/-- Writes at the position and goes on. -/
def push (r : Ring) (x : Float) : Ring :=
  (r.put x).move

/-- The slot that lies `age` writes before the position. -/
def slotAgo (r : Ring) (age : Nat) : Nat :=
  (r.position + r.slots.size - age % r.slots.size) % r.slots.size

/-- The slot before a slot. -/
def slotBefore (r : Ring) (slot : Nat) : Nat :=
  (slot + r.slots.size - 1) % r.slots.size

/-- The value in a slot. -/
def get (r : Ring) (slot : Nat) : Float :=
  r.slots.getD slot 0.0

@[simp] theorem length_silent (n : Nat) : (silent n).length = n := by
  simp [silent, length]

@[simp] theorem length_put (r : Ring) (x : Float) : (r.put x).length = r.length := by
  simp [put, length]

@[simp] theorem length_move (r : Ring) : r.move.length = r.length := rfl

@[simp] theorem length_push (r : Ring) (x : Float) : (r.push x).length = r.length := by
  simp [push]

theorem position_move_lt (r : Ring) (h : 0 < r.length) : r.move.position < r.length :=
  Nat.mod_lt _ h

theorem slotAgo_lt (r : Ring) (age : Nat) (h : 0 < r.length) : r.slotAgo age < r.length :=
  Nat.mod_lt _ h

theorem slotBefore_lt (r : Ring) (slot : Nat) (h : 0 < r.length) :
    r.slotBefore slot < r.length :=
  Nat.mod_lt _ h

end Ring

end ToneGraph.Synth
