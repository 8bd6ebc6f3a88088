import Mathlib.Data.Finset.Card

/-!
# Recency

The items of a history of uses, each of them once and the most recently used one first. An item is
among the first `k` of them just when fewer than `k` others were used since its last use. So a store
that takes an item in when it is used, and gives up the one that was not used for longest, holds
these.
-/

namespace Machines

variable {α : Type*} [DecidableEq α]

def moveToFront (a : α) (s : List α) : List α := a :: s.erase a

/-- The items of a history that starts with its most recent use. -/
def recency : List α → List α
  | [] => []
  | a :: l => moveToFront a (recency l)

section Order

theorem mem_moveToFront {a x : α} {s : List α} : x ∈ moveToFront a s ↔ x = a ∨ x ∈ s := by
  unfold moveToFront
  rw [List.mem_cons]
  by_cases hx : x = a
  · simp [hx]
  · simp [hx, List.mem_erase_of_ne hx]

theorem mem_recency {x : α} : ∀ {l : List α}, x ∈ recency l ↔ x ∈ l
  | [] => by simp [recency]
  | a :: l => by rw [recency, mem_moveToFront, mem_recency, List.mem_cons]

theorem nodup_moveToFront {a : α} {s : List α} (h : s.Nodup) : (moveToFront a s).Nodup :=
  List.nodup_cons.2 ⟨h.not_mem_erase, h.erase a⟩

theorem nodup_recency : ∀ l : List α, (recency l).Nodup
  | [] => List.nodup_nil
  | _ :: l => nodup_moveToFront (nodup_recency l)

theorem map_erase_of_inj {β : Type*} [DecidableEq β] {f : α → β} {a : α} :
    ∀ {l : List α}, (∀ x ∈ l, f x = f a → x = a) → (l.erase a).map f = (l.map f).erase (f a)
  | [], _ => rfl
  | x :: l, h => by
    have ih := map_erase_of_inj (fun y hy => h y (List.mem_cons_of_mem x hy))
    by_cases hx : x = a
    · simp [hx]
    · have hfx : f x ≠ f a := fun hf => hx (h x List.mem_cons_self hf)
      simp [hx, hfx, ih]

theorem moveToFront_map {β : Type*} [DecidableEq β] {f : α → β} {a : α} {l : List α}
    (h : ∀ x ∈ l, f x = f a → x = a) : (moveToFront a l).map f = moveToFront (f a) (l.map f) := by
  rw [moveToFront, moveToFront, List.map_cons, map_erase_of_inj h]

/-- Items are told apart by an injection, and what stands after them is left alone. -/
theorem erase_map_append {β : Type*} [DecidableEq β] {f : α → β} {a : α} {s : List α}
    (hf : Function.Injective f) (ha : a ∈ s) (t : List β) :
    (s.map f ++ t).erase (f a) = (s.erase a).map f ++ t := by
  rw [List.erase_append_left _ (List.mem_map_of_mem ha), map_erase_of_inj fun x _ hx => hf hx]

/-- The items ahead of one are not reordered when another one is taken out. -/
theorem takeWhile_erase {a b : α} (hba : b ≠ a) : ∀ s : List α,
    (s.erase b).takeWhile (· ≠ a) = (s.takeWhile (· ≠ a)).erase b
  | [] => rfl
  | x :: s => by
    by_cases hx : x = b
    · subst hx
      simp [hba]
    · by_cases hxa : x = a
      · subst hxa
        simp [hx]
      · have ih := takeWhile_erase hba s
        simp only [ne_eq, decide_not] at ih
        simp [hx, hxa, ih]

/-- Ahead of an item stand those that were used after it. -/
theorem mem_takeWhile_recency {a x : α} : ∀ {l : List α},
    x ∈ (recency l).takeWhile (· ≠ a) ↔ x ∈ l.takeWhile (· ≠ a)
  | [] => by simp [recency]
  | b :: l => by
    rw [recency, moveToFront]
    by_cases hb : b = a
    · simp [hb]
    · rw [List.takeWhile_cons_of_pos (by simpa using hb),
        List.takeWhile_cons_of_pos (by simpa using hb), takeWhile_erase hb]
      have ih : x ∈ (recency l).takeWhile (· ≠ a) ↔ x ∈ l.takeWhile (· ≠ a) := mem_takeWhile_recency
      have hfront := @mem_moveToFront _ _ b x ((recency l).takeWhile (· ≠ a))
      rw [moveToFront, ih] at hfront
      rw [hfront, List.mem_cons]

theorem length_takeWhile_recency (a : α) (l : List α) :
    ((recency l).takeWhile (· ≠ a)).length = (l.takeWhile (· ≠ a)).toFinset.card := by
  have hnodup : ((recency l).takeWhile (· ≠ a)).Nodup :=
    (nodup_recency l).sublist (List.takeWhile_sublist _)
  rw [← List.toFinset_card_of_nodup hnodup]
  congr 1
  ext x
  rw [List.mem_toFinset, List.mem_toFinset, mem_takeWhile_recency]

theorem mem_take_iff {a : α} : ∀ {s : List α} {k : ℕ},
    a ∈ s.take k ↔ a ∈ s ∧ (s.takeWhile (· ≠ a)).length < k
  | [], k => by simp
  | x :: s, 0 => by simp
  | x :: s, k + 1 => by
    by_cases hx : x = a
    · simp [hx]
    · have hx' : a ≠ x := Ne.symm hx
      simp [hx, hx', mem_take_iff (s := s) (k := k)]

/-- An item is among the first `k` just when fewer than `k` others were used since. -/
theorem mem_take_recency {a : α} {l : List α} {k : ℕ} :
    a ∈ (recency l).take k ↔ a ∈ l ∧ (l.takeWhile (· ≠ a)).toFinset.card < k := by
  rw [mem_take_iff, mem_recency, length_takeWhile_recency]

end Order

section Bounded

variable {a : α}

theorem take_erase_of_mem : ∀ {s : List α} {n : ℕ}, a ∈ s.take (n + 1) →
    (s.erase a).take n = (s.take (n + 1)).erase a
  | [], n, h => by simp at h
  | x :: s, n, h => by
    by_cases hx : x = a
    · simp [hx]
    · have hx' : a ≠ x := Ne.symm hx
      cases n with
      | zero => simp [hx'] at h
      | succ n =>
        have h' : a ∈ s.take (n + 1) := by simpa [hx'] using h
        simp [hx, take_erase_of_mem h']

theorem take_erase_of_notMem : ∀ {s : List α} {n : ℕ}, a ∉ s.take (n + 1) →
    (s.erase a).take n = s.take n
  | [], n, h => by simp
  | x :: s, n, h => by
    rw [List.take_succ_cons, List.mem_cons, not_or] at h
    have hx : x ≠ a := Ne.symm h.1
    cases n with
    | zero => simp
    | succ n => simp [hx, take_erase_of_notMem h.2]

variable {s : List α} {k : ℕ}

/-- The use of an item that is held reorders what is held. -/
theorem take_moveToFront_of_mem (h : a ∈ s.take k) :
    (moveToFront a s).take k = moveToFront a (s.take k) := by
  cases k with
  | zero => simp at h
  | succ n => rw [moveToFront, List.take_succ_cons, take_erase_of_mem h, moveToFront]

/-- The use of an item that is not held gives up the last one. -/
theorem take_moveToFront_of_notMem (h : a ∉ s.take k) (hk : 0 < k) (hlen : k ≤ s.length) :
    (moveToFront a s).take k = a :: (s.take k).dropLast := by
  cases k with
  | zero => omega
  | succ n =>
    rw [moveToFront, List.take_succ_cons, take_erase_of_notMem h, List.dropLast_eq_take,
      List.take_take, List.length_take, Nat.min_eq_left hlen, Nat.add_sub_cancel,
      Nat.min_eq_left (Nat.le_succ n)]

end Bounded

end Machines
