import Mathlib.Algebra.Order.Ring.Nat
import Mathlib.Data.List.Perm.Basic

/-!
# Trees of toggles

A complete binary tree with a bit in each inner node. The bits lead down to a leaf; a visit turns
those on the way to the other side. So the visits go to the two halves of a tree by turns, and as
many visits as there are leaves go to each leaf once. In a flat array the children of the node at
index `i` are at `2 * i + 1` and `2 * i + 2`.
-/

namespace Machines

/-- A complete tree of depth `k`; `true` leads to the right. -/
inductive ToggleTree : ℕ → Type
  | leaf : ToggleTree 0
  | node {k : ℕ} (right : Bool) (l r : ToggleTree k) : ToggleTree (k + 1)

namespace ToggleTree

section Visits

/-- The leaf that the bits lead to. -/
def target : {k : ℕ} → ToggleTree k → ℕ
  | 0, leaf => 0
  | k + 1, node right l r => if right then 2 ^ k + r.target else l.target

/-- The bits on the way to a leaf are turned away from it. -/
def turn : {k : ℕ} → ToggleTree k → ℕ → ToggleTree k
  | 0, leaf, _ => leaf
  | k + 1, node _ l r, i =>
    if i < 2 ^ k then node true (l.turn i) r else node false l (r.turn (i - 2 ^ k))

variable {k : ℕ}

def visit (t : ToggleTree k) : ToggleTree k := t.turn t.target

def visits : ℕ → ToggleTree k → List ℕ
  | 0, _ => []
  | n + 1, t => t.target :: visits n t.visit

theorem target_lt : ∀ {k : ℕ} (t : ToggleTree k), t.target < 2 ^ k
  | 0, leaf => Nat.one_pos
  | k + 1, node right l r => by
    have hl := l.target_lt
    have hr := r.target_lt
    rw [target, Nat.pow_succ]
    split_ifs <;> omega

/-- The bits lead away from a leaf after it has been visited. -/
theorem target_turn_ne (hk : 0 < k) (t : ToggleTree k) {i : ℕ} (hi : i < 2 ^ k) :
    (t.turn i).target ≠ i := by
  cases t with
  | leaf => exact absurd hk (Nat.lt_irrefl 0)
  | node right l r =>
    rw [turn]
    split_ifs with hlt
    · rw [target, if_pos rfl]
      omega
    · have := l.target_lt
      rw [target, if_neg Bool.false_ne_true]
      omega

theorem visit_left (l r : ToggleTree k) : (node false l r).visit = node true l.visit r := by
  have htarget : (node false l r).target = l.target := if_neg Bool.false_ne_true
  rw [visit, htarget, turn, if_pos l.target_lt]
  rfl

theorem visit_right (l r : ToggleTree k) : (node true l r).visit = node false l r.visit := by
  have htarget : (node true l r).target = 2 ^ k + r.target := if_pos rfl
  rw [visit, htarget, turn, if_neg (by omega), Nat.add_sub_cancel_left]
  rfl

/-- Two visits go to one leaf of each half. -/
theorem perm_visits_node (right : Bool) : ∀ (m : ℕ) (l r : ToggleTree k),
    (visits (2 * m) (node right l r)).Perm (visits m l ++ (visits m r).map (2 ^ k + ·))
  | 0, _, _ => List.Perm.refl _
  | m + 1, l, r => by
    have ih := perm_visits_node right m l.visit r.visit
    have hboth : (node right l r).visit.visit = node right l.visit r.visit := by
      cases right
      · rw [visit_left, visit_right]
      · rw [visit_right, visit_left]
    rw [Nat.mul_succ]
    simp only [visits, hboth, List.map_cons, List.cons_append]
    cases right with
    | false =>
      rw [visit_left, target, if_neg Bool.false_ne_true, target, if_pos rfl]
      exact ((ih.cons _).trans List.perm_middle.symm).cons _
    | true =>
      rw [visit_right, target, if_pos rfl, target, if_neg Bool.false_ne_true]
      exact (List.Perm.swap _ _ _).trans (((ih.cons _).trans List.perm_middle.symm).cons _)

theorem perm_visits : ∀ {k : ℕ} (t : ToggleTree k), (visits (2 ^ k) t).Perm (List.range (2 ^ k))
  | 0, leaf => List.Perm.refl _
  | k + 1, node right l r => by
    rw [Nat.pow_succ, Nat.mul_comm, Nat.two_mul, List.range_add, ← Nat.two_mul]
    exact (perm_visits_node right (2 ^ k) l r).trans
      (l.perm_visits.append (r.perm_visits.map _))

end Visits

section Flat

variable {bits bits' : ℕ → Bool} {k root p : ℕ}

/-- The tree of depth `k` whose root is at an index of the array. -/
def ofArray (bits : ℕ → Bool) : (k : ℕ) → ℕ → ToggleTree k
  | 0, _ => leaf
  | k + 1, root =>
    node (bits root) (ofArray bits k (2 * root + 1)) (ofArray bits k (2 * root + 2))

/-- An index of an inner node of that tree. -/
def Within : ℕ → ℕ → ℕ → Prop
  | 0, _, _ => False
  | k + 1, root, p => p = root ∨ Within k (2 * root + 1) p ∨ Within k (2 * root + 2) p

theorem ofArray_congr : ∀ {k root : ℕ}, (∀ p, Within k root p → bits p = bits' p) →
    ofArray bits k root = ofArray bits' k root
  | 0, _, _ => rfl
  | k + 1, root, h => by
    rw [ofArray, ofArray, h root (.inl rfl), ofArray_congr fun p hp => h p (.inr (.inl hp)),
      ofArray_congr fun p hp => h p (.inr (.inr hp))]

/-- The root is one of the halves of an index, counted from one. -/
theorem Within.exists_div : ∀ {k root : ℕ}, Within k root p → ∃ e, (p + 1) / 2 ^ e = root + 1
  | 0, _, h => h.elim
  | k + 1, root, h => by
    rcases h with rfl | h | h
    · exact ⟨0, by simp⟩
    · obtain ⟨e, he⟩ := Within.exists_div h
      exact ⟨e + 1, by rw [Nat.pow_succ, ← Nat.div_div_eq_div_mul, he]; omega⟩
    · obtain ⟨e, he⟩ := Within.exists_div h
      exact ⟨e + 1, by rw [Nat.pow_succ, ← Nat.div_div_eq_div_mul, he]; omega⟩

theorem Within.le (h : Within k root p) : root ≤ p := by
  obtain ⟨e, he⟩ := h.exists_div
  have := Nat.div_le_self (p + 1) (2 ^ e)
  omega

/-- The halves of an index come one after another. -/
theorem div_two_pow_le {m d e : ℕ} (h : d < e) : m / 2 ^ e ≤ m / 2 ^ d / 2 := by
  rw [Nat.div_div_eq_div_mul, ← Nat.pow_succ]
  exact Nat.div_le_div_left (Nat.pow_le_pow_right (by decide) h) (Nat.two_pow_pos _)

/-- The two halves of a tree share no node. -/
theorem not_within_both {k' : ℕ} (hl : Within k (2 * root + 1) p)
    (hr : Within k' (2 * root + 2) p) : False := by
  obtain ⟨d, hd⟩ := hl.exists_div
  obtain ⟨e, he⟩ := hr.exists_div
  rcases Nat.lt_trichotomy d e with hlt | rfl | hlt
  · have := div_two_pow_le (m := p + 1) hlt
    omega
  · omega
  · have := div_two_pow_le (m := p + 1) hlt
    omega

end Flat

end ToggleTree

end Machines
