/-!
# Bounded queues

First in, first out, with a fixed capacity. The queue keeps its oldest items in order and its newest
ones reversed, so that adding takes constant time; everything is stated through `toList`.

## Main statements

* `toList_of_push?`: a push that succeeds appends.
* `push?_eq_none_iff`: a push fails exactly on a full queue.
* `take_append`: what is taken and what stays, in a row, are what was there.
-/

namespace ToneGraph

/-- A queue that holds at most `capacity` items. -/
structure BoundedQueue (α : Type) where
  capacity : Nat
  /-- The oldest items, the oldest first. -/
  front : List α
  /-- The newest items, the newest first. -/
  back : List α
  size : Nat
  size_eq : size = front.length + back.length
  size_le : size ≤ capacity

namespace BoundedQueue

variable {α : Type}

/-- The items, the oldest first. -/
def toList (q : BoundedQueue α) : List α :=
  q.front ++ q.back.reverse

/-- The queue of a capacity that holds nothing. -/
def empty (capacity : Nat) : BoundedQueue α :=
  ⟨capacity, [], [], 0, rfl, Nat.zero_le _⟩

/-- Adds an item at the end, if there is room. -/
def push? (q : BoundedQueue α) (x : α) : Option (BoundedQueue α) :=
  if room : q.size < q.capacity then
    some ⟨q.capacity, q.front, x :: q.back, q.size + 1,
      by rw [q.size_eq, List.length_cons, Nat.add_assoc], room⟩
  else none

/-- Adds an item at the end; on a full queue the item is lost. -/
def offer (q : BoundedQueue α) (x : α) : BoundedQueue α :=
  (q.push? x).getD q

/-- The oldest `n` items, or all if there are fewer, and the queue without them. -/
def take (q : BoundedQueue α) (n : Nat) : List α × BoundedQueue α :=
  let items := q.toList
  (items.take n, ⟨q.capacity, items.drop n, [], q.size - n,
    by simp [items, toList, q.size_eq], Nat.le_trans (Nat.sub_le _ _) q.size_le⟩)

/-- All items, and the empty queue. -/
def drain (q : BoundedQueue α) : List α × BoundedQueue α :=
  (q.toList, empty q.capacity)

/-! ## The view -/

@[simp]
theorem toList_empty (capacity : Nat) : (empty capacity : BoundedQueue α).toList = [] := rfl

@[simp]
theorem length_toList (q : BoundedQueue α) : q.toList.length = q.size := by
  simp [toList, q.size_eq]

theorem length_toList_le (q : BoundedQueue α) : q.toList.length ≤ q.capacity := by
  rw [length_toList]
  exact q.size_le

theorem push?_eq_none_iff {q : BoundedQueue α} {x : α} :
    q.push? x = none ↔ q.toList.length = q.capacity := by
  have bound := q.size_le
  unfold push?
  split <;> simp <;> omega

theorem toList_of_push? {q r : BoundedQueue α} {x : α} (h : q.push? x = some r) :
    r.toList = q.toList ++ [x] := by
  unfold push? at h
  split at h
  · cases h
    simp [toList]
  · contradiction

theorem capacity_of_push? {q r : BoundedQueue α} {x : α} (h : q.push? x = some r) :
    r.capacity = q.capacity := by
  unfold push? at h
  split at h
  · cases h
    rfl
  · contradiction

/-- An offered item is kept while there is room. -/
theorem toList_offer (q : BoundedQueue α) (x : α) :
    (q.offer x).toList =
      if q.toList.length < q.capacity then q.toList ++ [x] else q.toList := by
  have bound := q.length_toList_le
  unfold offer
  cases h : q.push? x with
  | none => rw [push?_eq_none_iff] at h; simp [h]
  | some r =>
    have room : q.toList.length ≠ q.capacity := by
      intro full
      rw [← push?_eq_none_iff (x := x), h] at full
      contradiction
    have small : q.toList.length < q.capacity := by omega
    rw [if_pos small, Option.getD_some, toList_of_push? h]

@[simp]
theorem capacity_offer (q : BoundedQueue α) (x : α) : (q.offer x).capacity = q.capacity := by
  unfold offer
  cases h : q.push? x with
  | none => rfl
  | some r => exact capacity_of_push? h

/-- Nothing is lost or reordered by taking items. -/
theorem take_append (q : BoundedQueue α) (n : Nat) :
    (q.take n).1 ++ (q.take n).2.toList = q.toList := by
  simp [take, toList]

end BoundedQueue

end ToneGraph
