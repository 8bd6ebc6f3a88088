import Mathlib.Algebra.GroupWithZero.Nat
import Mathlib.Data.Nat.Basic
import Mathlib.Data.List.Basic

/-!
# A range in words

A range of elements is cut into a head, of what is left over of the full words, and the full words.
The pieces tile the range: a loop over them that moves a fact from the start of each piece to its
end moves it over the range.
-/

namespace Machines

section Tiles

/-- Where a piece starts, and how long it is. -/
abbrev Piece := ℕ × ℕ

/-- The pieces follow each other without gaps from `i` to `j`. -/
def Tiles : ℕ → List Piece → ℕ → Prop
  | i, [], j => i = j
  | i, piece :: pieces, j => piece.1 = i ∧ Tiles (i + piece.2) pieces j

theorem Tiles.le : ∀ {i j : ℕ} {pieces : List Piece}, Tiles i pieces j → i ≤ j
  | _, _, [], h => Nat.le_of_eq h
  | _, _, piece :: _, h => Nat.le_trans (Nat.le_add_right _ piece.2) h.2.le

theorem Tiles.end_le : ∀ {i j : ℕ} {pieces : List Piece}, Tiles i pieces j →
    ∀ piece ∈ pieces, piece.1 + piece.2 ≤ j
  | _, _, first :: pieces, h, piece, hpiece => by
    rcases List.mem_cons.1 hpiece with rfl | hrest
    · rw [h.1]
      exact h.2.le
    · exact h.2.end_le piece hrest

/-- An element of the range is in one of its pieces. -/
theorem Tiles.exists_mem : ∀ {i j k : ℕ} {pieces : List Piece}, Tiles i pieces j → i ≤ k → k < j →
    ∃ piece ∈ pieces, piece.1 ≤ k ∧ k < piece.1 + piece.2
  | i, j, k, [], h, hi, hk => absurd (h ▸ hk) (Nat.not_lt.2 hi)
  | i, j, k, piece :: pieces, ⟨hfirst, hrest⟩, hi, hk => by
    by_cases hpiece : k < i + piece.2
    · exact ⟨piece, List.mem_cons_self, hfirst ▸ hi, hfirst ▸ hpiece⟩
    · rcases hrest.exists_mem (Nat.not_lt.1 hpiece) hk with ⟨p, hp, hmem⟩
      exact ⟨p, List.mem_cons_of_mem _ hp, hmem⟩

theorem Tiles.start_le : ∀ {i j : ℕ} {pieces : List Piece}, Tiles i pieces j →
    ∀ piece ∈ pieces, i ≤ piece.1
  | i, _, first :: pieces, h, piece, hpiece => by
    rcases List.mem_cons.1 hpiece with rfl | hrest
    · exact Nat.le_of_eq h.1.symm
    · exact Nat.le_trans (Nat.le_add_right i first.2) (h.2.start_le piece hrest)

/-- Two pieces have no element in common, nor does an empty one lie inside the other. -/
def Apart (piece piece' : Piece) : Prop :=
  piece.1 + piece.2 ≤ piece'.1 ∨ piece'.1 + piece'.2 ≤ piece.1

theorem Tiles.pairwise_apart : ∀ {i j : ℕ} {pieces : List Piece}, Tiles i pieces j →
    pieces.Pairwise Apart
  | _, _, [], _ => List.Pairwise.nil
  | _, _, _ :: _, h =>
    List.Pairwise.cons (fun piece hpiece => .inl (h.1 ▸ h.2.start_le piece hpiece))
      h.2.pairwise_apart

theorem Tiles.sum_eq : ∀ {i j : ℕ} {pieces : List Piece}, Tiles i pieces j →
    i + (pieces.map Prod.snd).sum = j
  | _, _, [], h => h
  | _, _, _ :: _, h => by
    rw [List.map_cons, List.sum_cons, ← Nat.add_assoc]
    exact h.2.sum_eq

/-- A loop over the pieces of a range. -/
theorem Tiles.foldlM {S ε : Type*} {f : S → Piece → Except ε S} {P : ℕ → S → Prop} :
    ∀ {i j : ℕ} {pieces : List Piece}, Tiles i pieces j →
      (∀ piece ∈ pieces, ∀ s, P piece.1 s → ∃ t, f s piece = .ok t ∧ P (piece.1 + piece.2) t) →
      ∀ s, P i s → ∃ t, pieces.foldlM f s = .ok t ∧ P j t
  | i, _, [], h, _, s, hs => ⟨s, rfl, h ▸ hs⟩
  | i, j, piece :: pieces, ⟨hi, hrest⟩, hstep, s, hs => by
    rcases hstep piece List.mem_cons_self s (hi ▸ hs) with ⟨t, ht, hPt⟩
    rw [hi] at hPt
    rcases hrest.foldlM (fun p hp => hstep p (List.mem_cons_of_mem _ hp)) t hPt with ⟨u, hu, hPu⟩
    refine ⟨u, ?_, hPu⟩
    rw [List.foldlM_cons, ht]
    exact hu

end Tiles

section Words

variable {word size : ℕ}

/-- The head, if there is one, and the words after it. -/
def pieces (word size : ℕ) : List Piece :=
  (if size % word = 0 then [] else [(0, size % word)])
    ++ (List.range' (size % word) (size / word) word).map fun i => (i, word)

theorem tiles_words (word : ℕ) : ∀ (count i : ℕ),
    Tiles i ((List.range' i count word).map fun i => (i, word)) (i + count * word)
  | 0, i => by simp [Tiles]
  | count + 1, i => by
    rw [List.range'_succ, List.map_cons, Nat.succ_mul, Nat.add_comm (count * word),
      ← Nat.add_assoc]
    exact ⟨rfl, tiles_words word count (i + word)⟩

theorem tiles_pieces (word size : ℕ) : Tiles 0 (pieces word size) size := by
  have hwords := tiles_words word (size / word) (size % word)
  rw [Nat.mul_comm, Nat.mod_add_div] at hwords
  unfold pieces
  split_ifs with h
  · rw [h] at hwords ⊢
    exact hwords
  · refine ⟨rfl, ?_⟩
    rw [Nat.zero_add]
    exact hwords

/-- No piece is longer than a word. -/
theorem length_le_of_mem_pieces (hword : 0 < word) {piece : Piece}
    (h : piece ∈ pieces word size) : piece.2 ≤ word := by
  rcases List.mem_append.1 h with hhead | hwords
  · split_ifs at hhead
    · cases hhead
    · rw [List.mem_singleton.1 hhead]
      exact Nat.le_of_lt (Nat.mod_lt _ hword)
  · rcases List.mem_map.1 hwords with ⟨i, -, rfl⟩
    exact le_rfl

end Words

end Machines
