import ToneGraph.Proofs.Graph.Interpreter
/-!
# Rings as records

A ring that is written at its position again and again goes round its slots.  After `n` writes it
holds the last of them, one for each slot, and it still holds silence in every slot that no write
has reached.  Whatever reads a ring at some age reads this record.

What is written need not be known beforehand.  A unit that feeds its output back decides on each
value when it writes it, so the record grows by one write at a time.

## Main definitions

* `ago`: what a stream gave some ticks ago.
* `Ring.Records`: what a ring holds after some writes.

## Main statements

* `Ring.Records.push`: one write more.
* `Ring.Records.oldest_eq`: the oldest value was written as many writes ago as there are slots.
* `Ring.Records.get_slotAgo`: what stands in the slot of an age was written that many writes ago.
* `DelayLine.outputs_shift_inputs`: a delay line gives its inputs back when its length has passed.
-/

namespace ToneGraph.Synth

/-- What a stream gave some ticks ago.  Before its first tick there was silence. -/
def ago (age : Nat) (w : Nat → Float) (n : Nat) : Float :=
  if n < age then 0.0 else w (n - age)

/-- What streams gave is the same if they agree on the ticks before. -/
theorem ago_congr {w w' : Nat → Float} {age n : Nat} (hage : 0 < age)
    (h : ∀ k < n, w k = w' k) : ago age w n = ago age w' n := by
  unfold ago
  by_cases hfirst : n < age
  · rw [if_pos hfirst, if_pos hfirst]
  · rw [if_neg hfirst, if_neg hfirst, h (n - age) (by omega)]

namespace Ring

variable {r : Ring} {x : Float}

theorem get_silent (length slot : Nat) : (silent length).get slot = 0.0 := by
  by_cases hslot : slot < length
  · simp [get, silent, hslot]
  · simp [get, silent, Nat.le_of_not_lt hslot]

/-- Reading the slot that was just written. -/
theorem get_put_self (h : r.position < r.length) : (r.put x).get r.position = x := by
  have hslot : (r.slots.setIfInBounds r.position x)[r.position]? = some x :=
    Array.getElem?_setIfInBounds_self_of_lt h
  simp [get, put, hslot]

/-- Reading another slot. -/
theorem get_put_of_ne {slot : Nat} (h : slot ≠ r.position) : (r.put x).get slot = r.get slot := by
  have hslot : (r.slots.setIfInBounds r.position x)[slot]? = r.slots[slot]? :=
    Array.getElem?_setIfInBounds_ne (Ne.symm h)
  simp [get, put, hslot]

/-- What a ring holds when the first `n` of the values `w` have been written to it: the last of
them, as many as there are slots, and silence in the slots that are not reached yet. -/
structure Records (w : Nat → Float) (n : Nat) (r : Ring) : Prop where
  position : r.position = n % r.length
  written : ∀ k < n, n ≤ k + r.length → r.get (k % r.length) = w k
  unwritten : ∀ slot, n ≤ slot → r.get slot = 0.0

variable {w : Nat → Float} {n : Nat}

theorem records_silent (w : Nat → Float) (length : Nat) : (silent length).Records w 0 where
  position := (Nat.zero_mod _).symm
  written := fun k hk => absurd hk (Nat.not_lt_zero k)
  unwritten := fun slot _ => get_silent length slot

/-- Writes that are less than one round apart go to different slots. -/
theorem mod_ne_of_lt {k length : Nat} (hk : k < n) (hround : n < k + length) :
    k % length ≠ n % length := by
  intro heq
  have hzero : (n - k) % length = 0 := Nat.sub_mod_eq_zero_of_mod_eq heq.symm
  have hsmall : (n - k) % length = n - k := Nat.mod_eq_of_lt (by omega)
  omega

namespace Records

theorem position_lt (h : r.Records w n) (hlength : 0 < r.length) : r.position < r.length := by
  rw [h.position]
  exact Nat.mod_lt n hlength

/-- One write more. -/
theorem push (h : r.Records w n) : (r.push (w n)).Records w (n + 1) where
  position := by
    show (r.position + 1) % (r.put (w n)).length = _
    rw [h.position]
    simp [Nat.add_mod]
  written := by
    intro k hk hround
    simp only [length_push] at hround ⊢
    have hposition : r.position < r.length := h.position_lt (by omega)
    show (r.put (w n)).get (k % r.length) = w k
    by_cases hlast : k = n
    · subst hlast
      rw [← h.position]
      exact get_put_self hposition
    · have hother : k % r.length ≠ r.position := by
        rw [h.position]
        exact mod_ne_of_lt (by omega) (by omega)
      rw [get_put_of_ne hother]
      exact h.written k (by omega) (by omega)
  unwritten := by
    intro slot hslot
    have hother : slot ≠ r.position := by
      have hle : r.position ≤ n := by
        rw [h.position]
        exact Nat.mod_le n r.length
      omega
    show (r.put (w n)).get slot = 0.0
    rw [get_put_of_ne hother]
    exact h.unwritten slot (by omega)

/-- The oldest value was written as many writes ago as there are slots. -/
theorem oldest_eq (h : r.Records w n) (hlength : 0 < r.length) :
    r.oldest = if n < r.length then 0.0 else w (n - r.length) := by
  show r.get r.position = _
  rw [h.position]
  by_cases hfirst : n < r.length
  · rw [if_pos hfirst]
    rw [Nat.mod_eq_of_lt hfirst]
    exact h.unwritten n (Nat.le_refl n)
  · rw [if_neg hfirst, Nat.mod_eq_sub_mod (by omega)]
    exact h.written (n - r.length) (by omega) (by omega)

end Records

/-! ### Reading at an age

A tap is read between the write of a tick and the move to the next slot: the position is still the
slot of the value just written, which has age zero. -/

@[simp] theorem slotAgo_put (age : Nat) : (r.put x).slotAgo age = r.slotAgo age := by
  simp [slotAgo, put]

@[simp] theorem slotBefore_put (slot : Nat) : (r.put x).slotBefore slot = r.slotBefore slot := by
  simp [slotBefore, put]

/-- Going back from a slot of a round is going back from wherever that round is counted. -/
theorem mod_add_sub_mod {back length : Nat} (m : Nat) (h : back ≤ length) :
    (m % length + length - back) % length = (m + length - back) % length := by
  have hround := Nat.div_add_mod m length
  have hsplit : m + length - back =
      length * (m / length) + (m % length + length - back) := by omega
  rw [hsplit, Nat.mul_add_mod]

theorem slotAgo_eq_mod {age : Nat} (hposition : r.position = n % r.length)
    (hage : age < r.length) : r.slotAgo age = (n + r.length - age) % r.length := by
  rw [← mod_add_sub_mod n (Nat.le_of_lt hage), ← hposition]
  show (r.position + r.length - age % r.length) % r.length = _
  rw [Nat.mod_eq_of_lt hage]

/-- The slot before that of an age is the slot of the next age. -/
theorem slotBefore_slotAgo {age : Nat} (hposition : r.position = n % r.length)
    (hage : age + 1 < r.length) : r.slotBefore (r.slotAgo age) = r.slotAgo (age + 1) := by
  have hround : n + r.length - age + r.length - 1 = n + r.length - (age + 1) + r.length := by
    omega
  rw [slotAgo_eq_mod hposition (by omega), slotAgo_eq_mod hposition hage]
  show ((n + r.length - age) % r.length + r.length - 1) % r.length = _
  rw [mod_add_sub_mod _ (by omega), hround, Nat.add_mod_right]

/-- What stands in the slot of an age was written that many writes ago. -/
theorem Records.get_slotAgo (h : r.Records w n) {age : Nat} (hage : age < r.length) :
    (r.put (w n)).get (r.slotAgo age) = ago age w n := by
  have hpush := h.push
  show (r.push (w n)).get (r.slotAgo age) = _
  rw [slotAgo_eq_mod h.position hage, ago]
  by_cases hfirst : n < age
  · rw [if_pos hfirst, Nat.mod_eq_of_lt (by omega)]
    exact hpush.unwritten _ (by omega)
  · have hround : n + r.length - age = n - age + r.length := by omega
    have hwritten := hpush.written (n - age) (by omega) (by rw [length_push]; omega)
    rw [if_neg hfirst, hround, Nat.add_mod_right]
    rwa [length_push] at hwritten

end Ring

/-! ## Delay lines -/

namespace DelayLine

/-- A tick of a delay line, whose inputs are known in all ticks. -/
abbrev stepOn (x : Nat → Float) (n : Nat) (line : DelayLine) : Float × DelayLine :=
  line.step (x n)

/-- A line of no length never changes. -/
theorem states_wire (x : Nat → Float) (n : Nat) : states (stepOn x) (silent 0) n = silent 0 := by
  induction n with
  | zero => rfl
  | succ n ih =>
      rw [states, ih]
      rfl

/-- A line that has a length records its inputs, with silence for those that are not finite. -/
theorem records_states {length : Nat} (hlength : 0 < length) (x : Nat → Float) (n : Nat) :
    let line := states (stepOn x) (silent length) n
    line.ring.Records (fun k => finiteOrZero (x k)) n ∧ line.length = length := by
  induction n with
  | zero => exact ⟨Ring.records_silent _ length, Ring.length_silent length⟩
  | succ n ih =>
      obtain ⟨hrecords, hsame⟩ := ih
      have hstep : states (stepOn x) (silent length) (n + 1) =
          ⟨(states (stepOn x) (silent length) n).ring.push (finiteOrZero (x n))⟩ := by
        rw [states, stepOn, step, if_neg (by omega)]
      rw [hstep]
      exact ⟨hrecords.push, (Ring.length_push _ _).trans hsame⟩

/-- A delay line gives its inputs back, in order and each once, when its length has passed.  Before
that it gives silence, and an input that is not finite comes back as silence.  A line of no length
is a wire, which lets everything through as it is.

The position always is that of a slot, if there is one, and no tick changes the length. -/
theorem outputs_shift_inputs (length : Nat) (x : Nat → Float) (n : Nat) :
    let line := states (stepOn x) (silent length) n
    outputs (stepOn x) (silent length) n =
      (if length = 0 then x n
        else if n < length then 0.0
        else if (x (n - length)).isFinite then x (n - length) else 0.0) ∧
    (if length = 0 then line = silent 0 else line.ring.position < length) ∧
    line.length = length := by
  intro line
  by_cases hwire : length = 0
  · subst hwire
    have hline : line = silent 0 := states_wire x n
    refine ⟨?_, by rwa [if_pos rfl], by rw [hline]; rfl⟩
    rw [outputs, states_wire]
    rfl
  · obtain ⟨hrecords, hlength⟩ := records_states (Nat.pos_of_ne_zero hwire) x n
    have hring : line.ring.length = length := hlength
    have hpos : 0 < line.ring.length := by omega
    have hout : outputs (stepOn x) (silent length) n = line.ring.oldest := by
      rw [outputs, stepOn, step, if_neg (by omega)]
    rw [if_neg hwire, if_neg hwire, hout, hrecords.oldest_eq hpos, hring]
    exact ⟨rfl, hring ▸ hrecords.position_lt hpos, hlength⟩

end DelayLine

end ToneGraph.Synth
