import MiptMips.Lib.Words

/-!
# Cells one after the other

A text is put together from cells of any lengths. `start` is where a cell begins in it: there the
text goes on with what is in the cell, and the cells tile the text.
-/

namespace Machines

namespace Cells

variable {α : Type*}

/-- Where a cell begins. -/
def start (cells : List (List α)) (k : ℕ) : ℕ := ((cells.take k).map List.length).sum

variable {cells : List (List α)} {cell : List α} {k : ℕ}

@[simp]
theorem start_zero : start cells 0 = 0 := rfl

@[simp]
theorem start_cons (cell : List α) (cells : List (List α)) (k : ℕ) :
    start (cell :: cells) (k + 1) = cell.length + start cells k := by
  rw [start, List.take_succ_cons, List.map_cons, List.sum_cons, start]

theorem start_length : start cells cells.length = cells.flatten.length := by
  rw [start, List.take_length, List.length_flatten]

theorem start_succ : ∀ {cells : List (List α)} {k : ℕ}, cells[k]? = some cell →
    start cells (k + 1) = start cells k + cell.length
  | [], _, h => by cases h
  | first :: cells, 0, h => by
    obtain rfl : first = cell := Option.some.inj h
    simp
  | first :: cells, k + 1, h => by
    have ih : start cells (k + 1) = start cells k + cell.length := start_succ h
    rw [start_cons, start_cons, ih, Nat.add_assoc]

theorem start_append_left {cells' : List (List α)} (h : k ≤ cells.length) :
    start (cells ++ cells') k = start cells k := by
  rw [start, List.take_append_of_le_length h, start]

theorem start_append_right (cells cells' : List (List α)) (k : ℕ) :
    start (cells ++ cells') (cells.length + k) = start cells cells.length + start cells' k := by
  rw [start, List.take_length_add_append, List.map_append, List.sum_append, start, start,
    List.take_length]

theorem start_add_le : ∀ {cells : List (List α)} {k : ℕ}, cells[k]? = some cell →
    start cells k + cell.length ≤ cells.flatten.length
  | [], _, h => by cases h
  | first :: cells, 0, h => by
    obtain rfl : first = cell := Option.some.inj h
    simp
  | first :: cells, k + 1, h => by
    have ih : start cells k + cell.length ≤ cells.flatten.length := start_add_le h
    rw [start_cons, List.flatten_cons, List.length_append, Nat.add_assoc]
    exact Nat.add_le_add_left ih _

/-- Cells of one length. -/
theorem start_of_length {n : ℕ} : ∀ {cells : List (List α)} {k : ℕ},
    (∀ cell ∈ cells, cell.length = n) → k ≤ cells.length → start cells k = n * k
  | _, 0, _, _ => rfl
  | first :: cells, k + 1, h, hk => by
    have ih : start cells k = n * k :=
      start_of_length (fun cell hcell => h cell (.tail _ hcell)) (Nat.le_of_succ_le_succ hk)
    rw [start_cons, ih, h first (.head _), Nat.mul_succ, Nat.add_comm]

/-- The text from the start of a cell on is what is in it. -/
theorem getElem?_flatten : ∀ {cells : List (List α)} {k i : ℕ}, cells[k]? = some cell →
    i < cell.length → cells.flatten[start cells k + i]? = cell[i]?
  | [], _, _, h, _ => by cases h
  | first :: cells, 0, i, h, hi => by
    obtain rfl : first = cell := Option.some.inj h
    rw [start_zero, Nat.zero_add, List.flatten_cons, List.getElem?_append_left hi]
  | first :: cells, k + 1, i, h, hi => by
    have ih : cells.flatten[start cells k + i]? = cell[i]? := getElem?_flatten h hi
    have hle : first.length ≤ first.length + (start cells k + i) := Nat.le_add_right _ _
    rw [start_cons, List.flatten_cons, Nat.add_assoc, List.getElem?_append_right hle,
      Nat.add_sub_cancel_left, ih]

/-- What is before the start of a cell is in one of the cells before it. -/
theorem exists_cell : ∀ {cells : List (List α)} {k d : ℕ}, d < start cells k →
    ∃ j < k, ∃ cell, cells[j]? = some cell ∧ start cells j ≤ d ∧ d < start cells j + cell.length
  | [], _, _, h => by simp [start] at h
  | _ :: _, 0, _, h => absurd h (Nat.not_lt_zero _)
  | first :: cells, k + 1, d, h => by
    by_cases hd : d < first.length
    · exact ⟨0, Nat.succ_pos k, first, rfl, Nat.zero_le d, by rwa [start_zero, Nat.zero_add]⟩
    · rw [start_cons] at h
      obtain ⟨j, hj, cell, hcell, hle, hlt⟩ :=
        (exists_cell (by omega) : ∃ j < k, ∃ cell, cells[j]? = some cell
          ∧ start cells j ≤ d - first.length ∧ d - first.length < start cells j + cell.length)
      refine ⟨j + 1, Nat.succ_lt_succ hj, cell, hcell, ?_, ?_⟩ <;> rw [start_cons] <;> omega

/-- Where the cells are when the text is put at `i`. -/
def pieces (i : ℕ) (cells : List (List α)) : List Piece :=
  cells.mapIdx fun k cell => (i + start cells k, cell.length)

theorem tiles_pieces : ∀ (i : ℕ) (cells : List (List α)),
    Tiles i (pieces i cells) (i + cells.flatten.length)
  | i, [] => rfl
  | i, cell :: cells => by
    have ih : Tiles (i + cell.length) (pieces (i + cell.length) cells)
        (i + cell.length + cells.flatten.length) := tiles_pieces _ cells
    rw [pieces, List.mapIdx_cons, List.flatten_cons, List.length_append, ← Nat.add_assoc]
    refine ⟨rfl, ?_⟩
    simpa only [pieces, start_cons, ← Nat.add_assoc] using ih

end Cells

end Machines
