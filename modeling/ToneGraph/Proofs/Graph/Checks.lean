import Mathlib.Logic.Unique
import Mathlib.Order.Basic
import ToneGraph.Graph.Arena
import ToneGraph.Proofs.Except
/-!
# Checks

The cells of an arena are checked one behind the other, so of several that fail the one at the
lowest place is named.

## Main definitions

* `Cell.Complete`, `Cell.Incomplete`: what the check of a cell asks for, and why it fails.
* `Arena.ChecksInRow`: a check of one cell is done for several.
* `Arena.Complete`: all cells of an arena are complete.

## Main statements

* `Arena.ChecksInRow.eq_error_iff`: checks in a row fail at the first cell that fails.
* `Arena.check_eq_ok_iff`, `Arena.check_eq_error_iff`: what the check of an arena gives.
-/

namespace ToneGraph

namespace Cell

/-- A cell with as many inputs as its unit needs, all of which exist. -/
structure Complete (size : Nat) (cell : Cell) : Prop where
  arity : cell.node.inputs.length = cell.node.arity
  inputs : ∀ j ∈ cell.node.inputNodes, j < size

/-- Why the cell at a place is not complete.  The number of inputs comes first, then the first
input that is missing. -/
inductive Incomplete (size index : Nat) (cell : Cell) : BuildError → Prop
  | arity : cell.node.inputs.length ≠ cell.node.arity →
      Incomplete size index cell
        (.arity cell.node.name cell.node.arity cell.node.inputs.length cell.origin)
  | dangling {front missing back} : cell.node.inputs.length = cell.node.arity →
      cell.node.inputNodes = front ++ missing :: back → (∀ j ∈ front, j < size) →
      size ≤ missing → Incomplete size index cell (.danglingInput index missing cell.origin)

end Cell

namespace Arena

theorem checkCell_eq_ok_iff {size index : Nat} {cell : Cell} :
    checkCell size index cell = .ok () ↔ cell.Complete size := by
  unfold checkCell
  dsimp only
  split
  · next hgot => exact iff_of_false (by simp) fun h => hgot h.arity
  · next hgot =>
      split
      · next missing hfind =>
          have hmem := List.mem_of_find?_eq_some hfind
          have hmissing : size ≤ missing := by simpa using List.find?_some hfind
          exact iff_of_false (by simp) fun h => Nat.not_lt.2 hmissing (h.inputs missing hmem)
      · next hfind =>
          refine ⟨fun _ => ⟨not_not.1 hgot, fun j hj => ?_⟩, fun _ => rfl⟩
          simpa using List.find?_eq_none.1 hfind j hj

theorem incomplete_of_checkCell {size index : Nat} {cell : Cell} {why : BuildError}
    (h : checkCell size index cell = .error why) : cell.Incomplete size index why := by
  unfold checkCell at h
  dsimp only at h
  split at h
  · next hgot =>
      cases h
      exact .arity hgot
  · next hgot =>
      split at h
      · next missing hfind =>
          cases h
          obtain ⟨hmissing, front, back, hinputs, hfront⟩ := List.find?_eq_some_iff_append.1 hfind
          exact .dangling (not_not.1 hgot) hinputs (by simpa using hfront) (by simpa using hmissing)
      · contradiction

/-! ## Cells in a row -/

/-- The cells of a row are checked from the left, and the first that fails makes the row fail. -/
structure ChecksInRow {α β : Type} (check : Nat → Cell → Except BuildError α)
    (row : Nat → List Cell → Except BuildError β) : Prop where
  nil : ∀ index, ∃ b, row index [] = .ok b
  cons : ∀ index cell rest why, row index (cell :: rest) = .error why ↔
    check index cell = .error why ∨
      (∃ a, check index cell = .ok a) ∧ row (index + 1) rest = .error why

namespace ChecksInRow

variable {α β : Type} {check : Nat → Cell → Except BuildError α}
  {row : Nat → List Cell → Except BuildError β}

theorem eq_error_iff (h : ChecksInRow check row) {index : Nat} {cells : List Cell}
    {why : BuildError} :
    row index cells = .error why ↔
      ∃ i cell, cells[i]? = some cell ∧ check (index + i) cell = .error why ∧
        ∀ j < i, ∀ other, cells[j]? = some other → ∃ a, check (index + j) other = .ok a := by
  induction cells generalizing index with
  | nil =>
      obtain ⟨b, hok⟩ := h.nil index
      simp [hok]
  | cons first rest ih =>
      rw [h.cons, ih]
      constructor
      · rintro (hfirst | ⟨hfirst, i, cell, hcell, hfail, hbefore⟩)
        · exact ⟨0, first, rfl, hfirst, nofun⟩
        · rw [Nat.add_right_comm] at hfail
          refine ⟨i + 1, cell, hcell, hfail, ?_⟩
          intro j hj other hother
          cases j with
          | zero =>
              cases hother
              exact hfirst
          | succ j =>
              have hok := hbefore j (Nat.lt_of_succ_lt_succ hj) other hother
              rwa [Nat.add_right_comm] at hok
      · rintro ⟨i, cell, hcell, hfail, hbefore⟩
        cases i with
        | zero =>
            cases hcell
            exact .inl hfail
        | succ i =>
            refine .inr ⟨hbefore 0 (Nat.succ_pos i) first rfl, i, cell, hcell, ?_, ?_⟩
            · rwa [Nat.add_right_comm]
            · intro j hj other hother
              have hok := hbefore (j + 1) (Nat.succ_lt_succ hj) other hother
              rwa [Nat.add_right_comm]

/-- A row succeeds if all of its cells do. -/
theorem exists_ok_iff (h : ChecksInRow check row) {index : Nat} {cells : List Cell} :
    (∃ b, row index cells = .ok b) ↔
      ∀ i cell, cells[i]? = some cell → ∃ a, check (index + i) cell = .ok a := by
  constructor
  · rintro ⟨b, hok⟩ i
    -- The lowest cell that fails would make the row fail.
    induction i using Nat.strongRecOn with
    | ind i ih =>
        intro cell hcell
        cases hcheck : check (index + i) cell with
        | ok a => exact ⟨a, rfl⟩
        | error why =>
            have hfail := h.eq_error_iff.2 ⟨i, cell, hcell, hcheck, ih⟩
            exact absurd (hok.symm.trans hfail) nofun
  · intro hall
    cases hrow : row index cells with
    | ok b => exact ⟨b, rfl⟩
    | error why =>
        obtain ⟨i, cell, hcell, hfail, _⟩ := h.eq_error_iff.1 hrow
        obtain ⟨a, hok⟩ := hall i cell hcell
        exact absurd (hok.symm.trans hfail) nofun

/-- If the cells of a row stand for items, the row fails at the first item at fault. -/
theorem eq_error_iff_findSome? {ι : Type} (h : ChecksInRow check row)
    {fault : ι → Option BuildError} {index : Nat} {cells : List Cell} {items : List ι}
    (hlength : cells.length = items.length)
    (hfault : ∀ i cell item, cells[i]? = some cell → items[i]? = some item →
      ∀ why, check (index + i) cell = .error why ↔ fault item = some why) {why : BuildError} :
    row index cells = .error why ↔ items.findSome? fault = some why := by
  induction cells generalizing index items with
  | nil =>
      cases List.length_eq_zero_iff.1 hlength.symm
      obtain ⟨b, hok⟩ := h.nil index
      simp [hok]
  | cons first rest ih =>
      obtain ⟨item, others, rfl⟩ := List.exists_cons_of_length_eq_add_one hlength.symm
      have hfirst := hfault 0 first item rfl rfl
      have hrest : row (index + 1) rest = .error why ↔ _ :=
        ih (Nat.succ.inj hlength) fun i cell item hcell hitem why => by
          rw [Nat.add_right_comm]
          exact hfault (i + 1) cell item hcell hitem why
      rw [h.cons, List.findSome?_cons, hrest, ← Nat.add_zero index]
      cases hitem : fault item with
      | some other =>
          rw [(hfirst other).2 hitem]
          simp
      | none =>
          cases hcheck : check (index + 0) first with
          | error other => exact absurd (((hfirst other).1 hcheck).symm.trans hitem) nofun
          | ok a => simp

end ChecksInRow

theorem checksInRow_checkCells (size : Nat) : ChecksInRow (checkCell size) (checkCells size) where
  nil := fun _ => ⟨(), rfl⟩
  cons := by
    intro index cell rest why
    rw [checkCells, bind_eq_error_iff, exists_and_right]

variable {arena : Arena}

private theorem exists_checkCell_iff {size index : Nat} {cell : Cell} :
    (∃ a, checkCell size index cell = .ok a) ↔ cell.Complete size :=
  Unique.exists_iff.trans checkCell_eq_ok_iff

/-- All cells of an arena are complete. -/
def Complete (arena : Arena) : Prop :=
  ∀ (i : Nat) (cell : Cell), arena[i]? = some cell → cell.Complete arena.size

/-- The check of an arena succeeds if all cells are complete. -/
theorem check_eq_ok_iff : arena.check = .ok () ↔ arena.Complete := by
  have hrow : (∃ b, checkCells arena.size 0 arena.toList = .ok b) ↔ _ :=
    (checksInRow_checkCells arena.size).exists_ok_iff
  simp only [exists_checkCell_iff, Array.getElem?_toList] at hrow
  exact Unique.exists_iff.symm.trans hrow

/-- Else it fails at the lowest cell that is not complete. -/
theorem check_eq_error_iff {why : BuildError} :
    arena.check = .error why ↔
      ∃ i cell, arena[i]? = some cell ∧ checkCell arena.size i cell = .error why ∧
        ∀ j < i, ∀ (other : Cell), arena[j]? = some other → other.Complete arena.size := by
  rw [check, (checksInRow_checkCells arena.size).eq_error_iff]
  simp only [exists_checkCell_iff, Array.getElem?_toList, Nat.zero_add]

end Arena

end ToneGraph
