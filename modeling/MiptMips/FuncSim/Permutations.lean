import Mathlib.Data.Nat.Bitwise
import MiptMips.FuncSim.AluPrimitives
import MiptMips.Lib.BitPermutation

/-!
# Bit permutations

The stages of the generalized reverse flip one bit of every index; those of the shuffles swap two
neighbouring bits of every index. The width is a power of two.
-/

namespace MiptMips

open Bits

variable {w k : ℕ}

section Reverse

theorem getLsbD_interleavedMask (d : ℕ) {j : ℕ} (hj : j < w) :
    (interleavedMask w d).getLsbD j = !j.testBit d := by
  have hcollect := getLsbD_collect (w := w) (fun i => (i >>> d) % 2 = 0) w j
  rw [interleavedMask, lsbSet, hcollect, Nat.testBit_eq_decide_div_mod_eq,
    Nat.shiftRight_eq_div_pow]
  rcases Nat.mod_two_eq_zero_or_one (j / 2 ^ d) with h | h <;> simp [hj, h]

/-- A stage of the reverse brings each bit from the index that differs in one place. -/
theorem getLsbD_interleave (hw : w = 2 ^ k) {i j : ℕ} (hi : i < k) (hj : j < w) (v : BitVec w) :
    (interleave v i).getLsbD j = v.getLsbD (j ^^^ 2 ^ i) := by
  have hlt : j ^^^ 2 ^ i < w := by
    subst hw
    exact Nat.xor_lt_two_pow hj (Nat.pow_lt_pow_right (by decide) hi)
  have hp := Nat.two_pow_pos i
  rw [interleave, Nat.one_shiftLeft, BitVec.getLsbD_or, BitVec.getLsbD_shiftLeft,
    BitVec.getLsbD_ushiftRight, BitVec.getLsbD_and, BitVec.getLsbD_and, BitVec.getLsbD_not]
  rcases h : j.testBit i with _ | _
  · -- the bit comes from above
    rw [xor_two_pow_of_clear h, Nat.add_comm j] at hlt ⊢
    rw [getLsbD_interleavedMask i hlt, Nat.testBit_two_pow_add_eq, h]
    by_cases hji : j < 2 ^ i
    · simp [hji, hlt]
    · obtain ⟨t, rfl⟩ : ∃ t, j = 2 ^ i + t := ⟨j - 2 ^ i, by omega⟩
      rw [Nat.testBit_two_pow_add_eq, Bool.not_eq_false'] at h
      rw [Nat.add_sub_cancel_left, getLsbD_interleavedMask i (by omega : t < w), h]
      simp [hlt]
  · -- the bit comes from below
    obtain ⟨hle, hxor⟩ := xor_two_pow_of_set h
    obtain ⟨t, rfl⟩ : ∃ t, j = 2 ^ i + t := ⟨j - 2 ^ i, by omega⟩
    rw [hxor, Nat.add_sub_cancel_left, getLsbD_interleavedMask i (by omega : t < w)]
    rw [Nat.testBit_two_pow_add_eq, Bool.not_eq_true'] at h
    by_cases hup : 2 ^ i + (2 ^ i + t) < w
    · rw [getLsbD_interleavedMask i hup, Nat.testBit_two_pow_add_eq, Nat.testBit_two_pow_add_eq, h]
      simp [hj]
    · simp [h, hj, hup]

theorem and_shift_ne_zero_iff (s i : ℕ) : s &&& (1 <<< i) ≠ 0 ↔ s.testBit i = true := by
  have hp := Nat.two_pow_pos i
  rw [Nat.one_shiftLeft, Nat.and_two_pow]
  cases s.testBit i <;> simp

/-- The first `n` stages flip the low `n` bits of the amount in every index. -/
theorem getLsbD_reverseStages (hw : w = 2 ^ k) (x : BitVec w) (s : ℕ) : ∀ n ≤ k, ∀ j < w,
    ((List.range n).foldl (fun value i => if s &&& (1 <<< i) ≠ 0 then interleave value i else value)
      x).getLsbD j = x.getLsbD (j ^^^ s % 2 ^ n)
  | 0, _, j, _ => by simp [Nat.mod_one]
  | n + 1, hn, j, hj => by
    have ih := getLsbD_reverseStages hw x s n (by omega)
    rw [List.range_succ, List.foldl_append, List.foldl_cons, List.foldl_nil]
    rcases h : s.testBit n with _ | _
    · rw [if_neg (by rw [and_shift_ne_zero_iff, h]; decide), ih j hj, mod_two_pow_succ_of_clear h]
    · have hlt : j ^^^ 2 ^ n < w := by
        subst hw
        exact Nat.xor_lt_two_pow hj (Nat.pow_lt_pow_right (by decide) hn)
      rw [if_pos (by rw [and_shift_ne_zero_iff, h]), getLsbD_interleave hw hn hj, ih _ hlt,
        mod_two_pow_succ_of_set h, Nat.xor_assoc, Nat.xor_comm (2 ^ n)]

/-- All set bits of the first number are set in the second. -/
def SubsetBits (t s : ℕ) : Prop := t &&& s = t

theorem subsetBits_iff {t s : ℕ} : SubsetBits t s ↔ ∀ i, t.testBit i → s.testBit i := by
  constructor
  · intro h i hi
    have hbit := congrArg (Nat.testBit · i) h
    simpa [hi] using hbit
  · intro h
    refine Nat.eq_of_testBit_eq fun i => ?_
    rw [Nat.testBit_and]
    have hi := h i
    cases ht : t.testBit i <;> simp_all

/-- The subsets of a number with one more bit. -/
theorem subsetBits_succ_iff {s n : ℕ} (h : s.testBit n = true) (t : ℕ) :
    SubsetBits t (s % 2 ^ (n + 1))
      ↔ SubsetBits t (s % 2 ^ n) ∨ SubsetBits (t ^^^ 2 ^ n) (s % 2 ^ n) := by
  simp only [subsetBits_iff, Nat.testBit_mod_two_pow, Nat.testBit_xor, Nat.testBit_two_pow,
    Bool.and_eq_true, decide_eq_true_eq]
  constructor
  · intro ht
    cases hn : t.testBit n with
    | false =>
      refine .inl fun i hi => ?_
      have hne : i ≠ n := by
        rintro rfl
        simp [hn] at hi
      exact ⟨by have := (ht i hi).1; omega, (ht i hi).2⟩
    | true =>
      refine .inr fun i hi => ?_
      by_cases hin : n = i
      · subst hin
        simp [hn] at hi
      · have hti : t.testBit i = true := by simpa [hin] using hi
        exact ⟨by have := (ht i hti).1; omega, (ht i hti).2⟩
  · rintro (ht | ht) i hi
    · exact ⟨by have := (ht i hi).1; omega, (ht i hi).2⟩
    · by_cases hin : n = i
      · subst hin
        exact ⟨Nat.lt_succ_self n, h⟩
      · have hti := ht i (by simpa [hin] using hi)
        exact ⟨by omega, hti.2⟩

/-- The first `n` stages of the combination collect every subset of the low `n` bits. -/
theorem getLsbD_combineStages (hw : w = 2 ^ k) (x : BitVec w) (s : ℕ) : ∀ n ≤ k, ∀ j < w,
    (((List.range n).foldl
      (fun value i => if s &&& (1 <<< i) ≠ 0 then value ||| interleave value i else value)
      x).getLsbD j ↔ ∃ t, SubsetBits t (s % 2 ^ n) ∧ x.getLsbD (j ^^^ t))
  | 0, _, j, _ => by simp [SubsetBits, Nat.mod_one]
  | n + 1, hn, j, hj => by
    have ih := getLsbD_combineStages hw x s n (by omega)
    rw [List.range_succ, List.foldl_append, List.foldl_cons, List.foldl_nil]
    rcases h : s.testBit n with _ | _
    · rw [if_neg (by rw [and_shift_ne_zero_iff, h]; decide), ih j hj, mod_two_pow_succ_of_clear h]
    · have hlt : j ^^^ 2 ^ n < w := by
        subst hw
        exact Nat.xor_lt_two_pow hj (Nat.pow_lt_pow_right (by decide) hn)
      rw [if_pos (by rw [and_shift_ne_zero_iff, h]), BitVec.getLsbD_or,
        getLsbD_interleave hw hn hj, Bool.or_eq_true, ih _ hlt, ih _ hj]
      simp only [subsetBits_succ_iff h]
      constructor
      · rintro (⟨t, ht, hx⟩ | ⟨t, ht, hx⟩)
        · exact ⟨t, .inl ht, hx⟩
        · refine ⟨t ^^^ 2 ^ n, .inr ?_, ?_⟩
          · rwa [Nat.xor_assoc, Nat.xor_self, Nat.xor_zero]
          · rwa [Nat.xor_comm t, ← Nat.xor_assoc]
      · rintro ⟨t, ht | ht, hx⟩
        · exact .inl ⟨t, ht, hx⟩
        · refine .inr ⟨t ^^^ 2 ^ n, ht, ?_⟩
          rwa [Nat.xor_comm t, ← Nat.xor_assoc, Nat.xor_assoc j, Nat.xor_self, Nat.xor_zero]

variable (hw : w = 2 ^ logBitwidth w) (x : BitVec w) (s : ℕ)

include hw

theorem mod_width : s % 2 ^ logBitwidth w = s % w := by rw [← hw]

theorem xor_mod_lt {j : ℕ} (hj : j < w) : j ^^^ s % w < w := by
  have hs : s % w < w := Nat.mod_lt _ (by omega)
  generalize s % w = t at hs ⊢
  generalize logBitwidth w = n at hw
  subst hw
  exact Nat.xor_lt_two_pow hj hs

theorem getLsbD_genReverse {j : ℕ} (hj : j < w) :
    (genReverse x s).getLsbD j = x.getLsbD (j ^^^ s % w) := by
  rw [← mod_width hw]
  exact getLsbD_reverseStages hw x s _ le_rfl j hj

theorem getLsbD_genOrCombine {j : ℕ} (hj : j < w) :
    (genOrCombine x s).getLsbD j ↔ ∃ t, SubsetBits t (s % w) ∧ x.getLsbD (j ^^^ t) := by
  rw [← mod_width hw]
  exact getLsbD_combineStages hw x s _ le_rfl j hj

theorem genReverse_genReverse : genReverse (genReverse x s) s = x := by
  apply BitVec.eq_of_getLsbD_eq
  intro j hj
  rw [getLsbD_genReverse hw _ s hj, getLsbD_genReverse hw x s (xor_mod_lt hw s hj), Nat.xor_assoc,
    Nat.xor_self, Nat.xor_zero]

theorem genOrCombine_genOrCombine : genOrCombine (genOrCombine x s) s = genOrCombine x s := by
  apply BitVec.eq_of_getLsbD_eq
  intro j hj
  rw [Bool.eq_iff_iff, getLsbD_genOrCombine hw _ s hj, getLsbD_genOrCombine hw x s hj]
  constructor
  · rintro ⟨t, ht, hx⟩
    have htw : t < w := by
      have hle : t ≤ s % w := ht ▸ Nat.and_le_right
      exact hle.trans_lt (Nat.mod_lt _ (by omega))
    have hjt : j ^^^ t < w := by
      have hlt := xor_mod_lt hw t hj
      rwa [Nat.mod_eq_of_lt htw] at hlt
    obtain ⟨u, hu, hxu⟩ := (getLsbD_genOrCombine hw x s hjt).1 hx
    refine ⟨t ^^^ u, ?_, by rwa [← Nat.xor_assoc]⟩
    rw [SubsetBits, Nat.and_xor_distrib_right, ht, hu]
  · rintro ⟨t, ht, hx⟩
    refine ⟨0, Nat.zero_and _, ?_⟩
    rw [Nat.xor_zero]
    exact (getLsbD_genOrCombine hw x s hj).2 ⟨t, ht, hx⟩

end Reverse

section Shuffle

/-- An index with its bits `l` and `l + 1` swapped. -/
def swapIndex (l i : ℕ) : ℕ :=
  if i / 2 ^ l % 4 = 2 then i - 2 ^ l else if i / 2 ^ l % 4 = 1 then i + 2 ^ l else i

/-- The swap acts on the quotient alone. -/
theorem swapIndex_eq (l : ℕ) {q r : ℕ} (hr : r < 2 ^ l) : swapIndex l (2 ^ l * q + r)
    = 2 ^ l * (if q % 4 = 2 then q - 1 else if q % 4 = 1 then q + 1 else q) + r := by
  have hp := Nat.two_pow_pos l
  have hdiv : (2 ^ l * q + r) / 2 ^ l = q := by
    rw [Nat.mul_add_div hp, Nat.div_eq_of_lt hr, Nat.add_zero]
  rw [swapIndex, hdiv]
  split_ifs with h₂ h₁
  · obtain ⟨t, rfl⟩ : ∃ t, q = t + 1 := ⟨q - 1, by omega⟩
    rw [Nat.mul_add, Nat.add_sub_cancel]
    omega
  · rw [Nat.mul_add]
    omega
  · rfl

theorem swapIndex_swapIndex (l i : ℕ) : swapIndex l (swapIndex l i) = i := by
  have hr : i % 2 ^ l < 2 ^ l := Nat.mod_lt _ (Nat.two_pow_pos l)
  have hi := Nat.div_add_mod i (2 ^ l)
  rw [← hi]
  generalize i / 2 ^ l = q
  generalize i % 2 ^ l = r at hr
  rw [swapIndex_eq l hr, swapIndex_eq l hr]
  congr 2
  split_ifs <;> omega

theorem swapIndex_lt (hw : w = 2 ^ k) {l i : ℕ} (hl : l + 1 < k) (hi : i < w) :
    swapIndex l i < w := by
  have hp := Nat.two_pow_pos l
  have hr : i % 2 ^ l < 2 ^ l := Nat.mod_lt _ hp
  obtain ⟨m, rfl⟩ : ∃ m, k = l + 2 + m := ⟨k - (l + 2), by omega⟩
  have hpow : w = 2 ^ l * (4 * 2 ^ m) := by
    rw [hw, Nat.pow_add, Nat.pow_add, Nat.mul_assoc]
  rw [hpow] at hi ⊢
  have hq : i / 2 ^ l < 4 * 2 ^ m := Nat.div_lt_of_lt_mul hi
  rw [← Nat.div_add_mod i (2 ^ l), swapIndex_eq l hr]
  generalize i / 2 ^ l = q at hq
  refine Nat.lt_of_lt_of_le (Nat.add_lt_add_left hr _) ?_
  rw [← Nat.mul_succ]
  refine Nat.mul_le_mul_left _ ?_
  split_ifs <;> omega

theorem getLsbD_shuffleMask (shift d : ℕ) {j : ℕ} (hj : j < w) :
    (shuffleMask w shift d).getLsbD j = decide (j / 2 ^ d % 4 = shift) := by
  have hcollect := getLsbD_collect (w := w) (fun i => (i >>> d) % 4 = shift) w j
  rw [shuffleMask, lsbSet, hcollect, Nat.shiftRight_eq_div_pow]
  simp [hj]

/-- A stage of a shuffle brings each bit from the index with the two bits swapped. -/
theorem getLsbD_bitShuffle (hw : w = 2 ^ k) {l j : ℕ} (hl : l + 1 < k) (hj : j < w) (x : BitVec w) :
    (bitShuffle x l).getLsbD j = x.getLsbD (swapIndex l j) := by
  have hlt := swapIndex_lt hw hl hj
  simp only [bitShuffle, Nat.one_shiftLeft, BitVec.getLsbD_or, BitVec.getLsbD_and,
    BitVec.getLsbD_not, BitVec.getLsbD_shiftLeft, BitVec.getLsbD_ushiftRight,
    getLsbD_shuffleMask _ _ hj, hj, decide_true, Bool.true_and]
  unfold swapIndex at hlt ⊢
  split_ifs at hlt ⊢ with h₂ h₁
  · have hle : ¬ j < 2 ^ l := by
      intro hj'
      rw [Nat.div_eq_of_lt hj'] at h₂
      omega
    simp [h₂, hle]
  · simp [h₁, Nat.add_comm]
  · simp [h₁, h₂]

theorem bitShuffle_bitShuffle (hw : w = 2 ^ k) {l : ℕ} (hl : l + 1 < k) (x : BitVec w) :
    bitShuffle (bitShuffle x l) l = x := by
  apply BitVec.eq_of_getLsbD_eq
  intro j hj
  rw [getLsbD_bitShuffle hw hl hj, getLsbD_bitShuffle hw hl (swapIndex_lt hw hl hj),
    swapIndex_swapIndex]

theorem popcount_bitShuffle (hw : w = 2 ^ k) {l : ℕ} (hl : l + 1 < k) (x : BitVec w) :
    popcount (bitShuffle x l) = popcount x := by
  have hcount := countP_involution (fun i hi => swapIndex_lt hw hl hi)
    (fun i _ => swapIndex_swapIndex l i) fun i => x.getLsbD i
  rw [popcount, popcount, ← hcount]
  refine List.countP_congr fun j hj => ?_
  rw [getLsbD_bitShuffle hw hl (List.mem_range.1 hj)]

/-- A stage that the control word may switch on. -/
def shuffleStage (control value : BitVec w) (i : ℕ) : BitVec w :=
  if (control >>> i) &&& 1#w ≠ 0#w then bitShuffle value i else value

variable (control x : BitVec w)

theorem shiftRight_and_one_ne_zero_iff (hw : 0 < w) (i : ℕ) :
    (control >>> i) &&& 1#w ≠ 0#w ↔ control.getLsbD i = true := by
  have hone : 1#w = BitVec.twoPow w 0 := by simp [BitVec.twoPow]
  have hne : BitVec.twoPow w 0 ≠ 0#w := by
    rw [← hone, ne_eq, ← BitVec.toNat_inj, BitVec.toNat_ofNat, BitVec.toNat_ofNat,
      Nat.mod_eq_of_lt (Nat.one_lt_two_pow (by omega)), Nat.zero_mod]
    decide
  rw [hone, BitVec.and_twoPow, BitVec.getLsbD_ushiftRight, Nat.add_zero]
  cases control.getLsbD i <;> simp [hne]

theorem shuffleStage_congr {control control' : BitVec w} {i : ℕ}
    (h : control.getLsbD i = control'.getLsbD i) (x : BitVec w) :
    shuffleStage control x i = shuffleStage control' x i := by
  rcases Nat.eq_zero_or_pos w with rfl | hw
  · exact Subsingleton.elim _ _
  · unfold shuffleStage
    simp only [shiftRight_and_one_ne_zero_iff _ hw, h]

theorem shuffleStage_shuffleStage (hw : w = 2 ^ k) {i : ℕ} (hi : i + 1 < k) :
    shuffleStage control (shuffleStage control x i) i = x := by
  unfold shuffleStage
  split_ifs
  · exact bitShuffle_bitShuffle hw hi x
  · rfl

theorem popcount_shuffleStage (hw : w = 2 ^ k) {i : ℕ} (hi : i + 1 < k) :
    popcount (shuffleStage control x i) = popcount x := by
  unfold shuffleStage
  split_ifs
  · exact popcount_bitShuffle hw hi x
  · rfl

/-- Only the control bits of the stages count. -/
theorem shuffle_congr {control control' : BitVec w}
    (h : ∀ i < logBitwidth w - 1, control.getLsbD i = control'.getLsbD i) (x : BitVec w) :
    shuffle x control = shuffle x control' ∧ unshuffle x control = unshuffle x control' := by
  constructor
  · exact foldl_agree (shuffleStage control) _
      (fun i hi a => shuffleStage_congr (h i (by simpa using hi)) a) x
  · exact foldl_agree (shuffleStage control) _
      (fun i hi a => shuffleStage_congr (h i (by simpa using hi)) a) x

variable (hw : w = 2 ^ logBitwidth w)

include hw

/-- The stages of `shuffle`, run upwards, undo it. -/
theorem unshuffle_shuffle : unshuffle (shuffle x control) control = x :=
  foldl_cancel_reverse (shuffleStage control) _
    (fun i hi a => shuffleStage_shuffleStage control a hw
      (by rw [List.mem_range] at hi; omega)) x

theorem shuffle_unshuffle : shuffle (unshuffle x control) control = x :=
  foldl_reverse_cancel (shuffleStage control) _
    (fun i hi a => shuffleStage_shuffleStage control a hw
      (by rw [List.mem_range] at hi; omega)) x

theorem popcount_unshuffle : popcount (unshuffle x control) = popcount x :=
  foldl_keeps (shuffleStage control) popcount _
    (fun i hi a => popcount_shuffleStage control a hw (by rw [List.mem_range] at hi; omega)) x

theorem popcount_shuffle : popcount (shuffle x control) = popcount x :=
  foldl_keeps (shuffleStage control) popcount _
    (fun i hi a => popcount_shuffleStage control a hw
      (by rw [List.mem_reverse, List.mem_range] at hi; omega)) x

end Shuffle

end MiptMips
