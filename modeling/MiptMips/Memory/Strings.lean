import MiptMips.Memory.AnyMemory
import MiptMips.Memory.PlainReads

/-!
# Strings in memory

The length of a string is how far it is to the first zero. In range of a memory, it reaches at least
as far as there is no zero; and a copy of bytes in range is all of them, zeroes or not.
-/

namespace MiptMips

open FuncMemory LawfulFuncMemory

/-- A search from an index on that stops where a property holds, or at the end. -/
theorem le_search_iff {p : ℕ → Prop} [DecidablePred p] (search : ℕ → ℕ → ℕ) {n : ℕ}
    (hend : search n 0 = n)
    (hstep : ∀ i left, search i (left + 1) = if p i then i else search (i + 1) left) :
    ∀ {left i k : ℕ}, i + left = n → i ≤ k → k ≤ n →
      (k ≤ search i left ↔ ∀ j, i ≤ j → j < k → ¬ p j)
  | 0, i, k, hsum, hik, hk => by
    obtain rfl : i = n := by omega
    rw [hend]
    exact iff_of_true hk fun j hj hj' => absurd hj' (by omega)
  | left + 1, i, k, hsum, hik, hk => by
    have ih := @le_search_iff p _ search n hend hstep left (i + 1)
    rw [hstep]
    split_ifs with hp
    · rcases Nat.eq_or_lt_of_le hik with rfl | hlt
      · exact iff_of_true le_rfl fun j hj hj' => absurd hj' (by omega)
      · exact iff_of_false (by omega) fun hall => hall i le_rfl hlt hp
    · rcases Nat.eq_or_lt_of_le hik with rfl | hlt
      · have hnext := (ih (by omega) le_rfl (by omega)).2 fun j hj hj' => absurd hj' (by omega)
        exact iff_of_true (by omega) fun j hj hj' => absurd hj' (by omega)
      · rw [ih (by omega) hlt hk]
        refine ⟨fun hall j hj hjk => ?_, fun hall j hj hjk => hall j (by omega) hjk⟩
        rcases Nat.eq_or_lt_of_le hj with rfl | hj
        · exact hp
        · exact hall j hj hjk

namespace PlainMemory

variable {m : PlainMemory} {addr : Addr} {n : ℕ} (h : addr.toNat + n ≤ m.arena.length)
include h

theorem le_strlen_iff : n ≤ m.strlen addr ↔ ∀ i < n, m.byteAt (addr.offset i) ≠ 0#8 := by
  have hle : addr.toNat ≤ m.arena.length := by omega
  rw [strlen, if_pos (.inl hle), distance_of_le hle,
    le_search_iff (m.findFrom addr) rfl (fun _ _ => rfl) (Nat.zero_add _) (Nat.zero_le _)
      (by omega)]
  simp

theorem memcpyGuestToHost_in :
    m.memcpyGuestToHost addr n = (List.range n).map fun i => m.byteAt (addr.offset i) := by
  have hmin : Nat.min n (m.arena.length - addr.toNat) = n := Nat.min_eq_left (by omega)
  rw [memcpyGuestToHost, validSize_of_le (by omega), hmin]

end PlainMemory

namespace HierarchiedMemory

variable {m : HierarchiedMemory} {addr : Addr}

theorem le_strlen_iff {n : ℕ} (h : n ≤ m.size) :
    n ≤ m.strlen addr ↔ ∀ i < n, m.checkAndReadByte (addr.offset i) ≠ 0#8 := by
  by_cases hbits : m.addrBits < 64
  · have hmask : m.addrMask.toNat + 1 = m.size := by
      have hsize := m.size_eq
      rw [if_pos hbits] at hsize
      have hpos := Nat.two_pow_pos m.addrBits
      rw [size, BitVec.toNat_add] at hsize ⊢
      have hlt := m.addrMask.isLt
      have hone : (1#64).toNat = 1 := rfl
      omega
    have hend : m.strlenFrom addr m.size 0 = m.size := rfl
    rw [strlen, hmask, le_search_iff (m.strlenFrom addr) hend (fun _ _ => rfl) (Nat.zero_add _)
      (Nat.zero_le _) h]
    simp
  · have hsize := m.size_eq
    rw [if_neg hbits] at hsize
    obtain rfl : n = 0 := by omega
    simp

end HierarchiedMemory

namespace AnyMemory

variable {m : AnyMemory} {addr : Addr} {n : ℕ} (h : addr.toNat + n ≤ size m)
include h

theorem le_strlen_iff :
    n ≤ FuncMemory.strlen m addr ↔ ∀ i < n, FuncMemory.byteAt m (addr.offset i) ≠ 0#8 := by
  cases m with
  | plain m => exact PlainMemory.le_strlen_iff h
  | hierarchied m => exact HierarchiedMemory.le_strlen_iff (Nat.le_of_add_left_le h)

/-- All bytes are copied. -/
theorem memcpyGuestToHost_in : FuncMemory.memcpyGuestToHost m addr n
    = (List.range n).map fun i => FuncMemory.byteAt m (addr.offset i) := by
  cases m with
  | plain m => exact PlainMemory.memcpyGuestToHost_in h
  | hierarchied m => rfl

end AnyMemory

end MiptMips
