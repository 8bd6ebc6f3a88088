import Mathlib.Data.BitVec
import Mathlib.Data.List.Nodup

/-!
# Bits moved by index

A network of exchange stages moves each bit of a word to another index. What a stage does is a map
of the indices; the lemmas here are about such maps, about the masks that the stages use and about
stages run in one order and then in the other.
-/

namespace Bits

variable {w : ℕ}

section Indices

/-- Flipping a clear bit of an index. -/
theorem xor_two_pow_of_clear {j i : ℕ} (h : j.testBit i = false) : j ^^^ 2 ^ i = j + 2 ^ i := by
  rw [Nat.testBit_eq_decide_div_mod_eq, decide_eq_false_iff_not] at h
  obtain ⟨m, hm⟩ : ∃ m, j / 2 ^ i = 2 * m := ⟨j / 2 ^ i / 2, by omega⟩
  have hr : j % 2 ^ i < 2 ^ i := Nat.mod_lt _ (Nat.two_pow_pos i)
  have hj : j = 2 ^ i * (2 * m) + j % 2 ^ i := by rw [← hm, Nat.div_add_mod]
  generalize j % 2 ^ i = r at hr hj
  have hsum : j + 2 ^ i = 2 ^ i * (2 * m + 1) + r := by
    rw [hj, Nat.mul_add]
    omega
  rw [hsum, hj]
  apply Nat.eq_of_testBit_eq
  intro k
  rw [Nat.testBit_xor, Nat.testBit_two_pow, Nat.testBit_two_pow_mul_add _ hr,
    Nat.testBit_two_pow_mul_add _ hr]
  split_ifs with hk
  · have : ¬ i = k := by omega
    simp [this]
  · rcases Nat.eq_zero_or_pos (k - i) with h0 | hpos
    · have : i = k := by omega
      simp [this]
    · obtain ⟨t, ht⟩ : ∃ t, k - i = t + 1 := ⟨k - i - 1, by omega⟩
      have hne : ¬ i = k := by omega
      have hdiv : (2 * m + 1) / 2 = m := by omega
      simp [ht, hne, Nat.testBit_succ, hdiv]

theorem xor_two_pow_of_set {j i : ℕ} (h : j.testBit i = true) :
    2 ^ i ≤ j ∧ j ^^^ 2 ^ i = j - 2 ^ i := by
  have hdiv := h
  rw [Nat.testBit_eq_decide_div_mod_eq, decide_eq_true_iff] at hdiv
  have hle : 2 ^ i ≤ j := by
    by_contra hlt
    rw [Nat.div_eq_of_lt (by omega)] at hdiv
    omega
  obtain ⟨t, rfl⟩ : ∃ t, j = t + 2 ^ i := ⟨j - 2 ^ i, by omega⟩
  rw [Nat.add_div_right _ (Nat.two_pow_pos i)] at hdiv
  have ht : t.testBit i = false := by
    rw [Nat.testBit_eq_decide_div_mod_eq, decide_eq_false_iff_not]
    omega
  refine ⟨hle, ?_⟩
  rw [← xor_two_pow_of_clear ht, Nat.xor_assoc, Nat.xor_self, Nat.xor_zero,
    xor_two_pow_of_clear ht, Nat.add_sub_cancel]

/-- A number with one more bit. -/
theorem mod_two_pow_succ_of_set {s n : ℕ} (h : s.testBit n = true) :
    s % 2 ^ (n + 1) = s % 2 ^ n ^^^ 2 ^ n := by
  have hclear : (s % 2 ^ n).testBit n = false := by simp
  rw [Nat.testBit_eq_decide_div_mod_eq, decide_eq_true_iff] at h
  rw [xor_two_pow_of_clear hclear, Nat.mod_pow_succ, h, Nat.mul_one]

theorem mod_two_pow_succ_of_clear {s n : ℕ} (h : s.testBit n = false) :
    s % 2 ^ (n + 1) = s % 2 ^ n := by
  rw [Nat.testBit_eq_decide_div_mod_eq, decide_eq_false_iff_not] at h
  rw [Nat.mod_pow_succ, (by omega : s / 2 ^ n % 2 = 0), Nat.mul_zero, Nat.add_zero]

/-- An involution of the indices below `w` leaves the number of those with a property. -/
theorem countP_involution {f : ℕ → ℕ} (hlt : ∀ i < w, f i < w) (hinv : ∀ i < w, f (f i) = i)
    (p : ℕ → Bool) : (List.range w).countP (fun i => p (f i)) = (List.range w).countP p := by
  have hperm : ((List.range w).map f).Perm (List.range w) := by
    refine (List.perm_ext_iff_of_nodup ?_ List.nodup_range).2 fun i => ?_
    · refine List.Nodup.map_on ?_ List.nodup_range
      intro i hi j hj hij
      rw [List.mem_range] at hi hj
      rw [← hinv i hi, hij, hinv j hj]
    · rw [List.mem_map, List.mem_range]
      constructor
      · rintro ⟨j, hj, rfl⟩
        exact hlt j (List.mem_range.1 hj)
      · intro hi
        exact ⟨f i, List.mem_range.2 (hlt i hi), hinv i hi⟩
  have hcount := hperm.countP_eq p
  rw [List.countP_map] at hcount
  exact hcount

end Indices

section Masks

/-- The mask that a loop over the indices collects. -/
theorem getLsbD_collect (p : ℕ → Prop) [DecidablePred p] (n j : ℕ) :
    ((List.range n).foldl (fun result i => if p i then result ||| 1#w <<< i else result)
      0#w).getLsbD j = (decide (j < n) && decide (j < w) && decide (p j)) := by
  induction n with
  | zero => simp
  | succ n ih =>
    rw [List.range_succ, List.foldl_append, List.foldl_cons, List.foldl_nil]
    split_ifs with hp
    · rw [BitVec.getLsbD_or, ih, ← BitVec.twoPow_eq, BitVec.getLsbD_twoPow]
      by_cases hj : j = n
      · simp [hj, hp]
      · have : j < n ↔ j < n + 1 := by omega
        simp [this, Ne.symm hj]
    · rw [ih]
      by_cases hj : j = n
      · simp [hj, hp]
      · have : j < n ↔ j < n + 1 := by omega
        simp [this]

end Masks

section Networks

variable {α ι : Type*} (step : α → ι → α)

/-- Stages that undo themselves, run in one order and then in the other. -/
theorem foldl_reverse_cancel : ∀ (l : List ι) (_ : ∀ i ∈ l, ∀ a, step (step a i) i = a) (a : α),
    l.reverse.foldl step (l.foldl step a) = a
  | [], _, _ => rfl
  | i :: l, h, a => by
    simp only [List.reverse_cons, List.foldl_append, List.foldl_cons, List.foldl_nil]
    rw [foldl_reverse_cancel l fun j hj => h j (List.mem_cons_of_mem i hj)]
    exact h i List.mem_cons_self a

theorem foldl_cancel_reverse (l : List ι) (h : ∀ i ∈ l, ∀ a, step (step a i) i = a) (a : α) :
    l.foldl step (l.reverse.foldl step a) = a := by
  have hrev := foldl_reverse_cancel step l.reverse (fun i hi => h i (List.mem_reverse.1 hi)) a
  rwa [List.reverse_reverse] at hrev

/-- What every stage keeps, the network keeps. -/
theorem foldl_keeps {β : Type*} (f : α → β) : ∀ (l : List ι) (_ : ∀ i ∈ l, ∀ a, f (step a i) = f a)
    (a : α), f (l.foldl step a) = f a
  | [], _, _ => rfl
  | i :: l, h, a => by
    rw [List.foldl_cons, foldl_keeps f l fun j hj => h j (List.mem_cons_of_mem i hj)]
    exact h i List.mem_cons_self a

/-- Networks whose stages agree. -/
theorem foldl_agree {step' : α → ι → α} : ∀ (l : List ι) (_ : ∀ i ∈ l, ∀ a, step a i = step' a i)
    (a : α), l.foldl step a = l.foldl step' a
  | [], _, _ => rfl
  | i :: l, h, a => by
    rw [List.foldl_cons, List.foldl_cons, h i List.mem_cons_self,
      foldl_agree l fun j hj => h j (List.mem_cons_of_mem i hj)]

end Networks

end Bits
