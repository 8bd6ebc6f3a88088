import Mathlib.Tactic.Common
import Mathlib.Data.BitVec

/-!
# Bit masks and sign extension

The integer types of the simulator are bit vectors: `uint32` is `BitVec 32`, an address is a
`BitVec 64`, and a template over a register type `T` is a definition over its width `w`. A
narrowing or widening cast of unsigned values is `BitVec.setWidth`.

`bitmask` with a count above the width shifts by more than the width, which the language leaves
undefined; here such a shift gives zero. Which steps of a simulator ask for one is in `MaskWidths`.
-/

namespace MiptMips

/-- Addresses of guest memory. -/
abbrev Addr := BitVec 64

abbrev Byte := BitVec 8

def NO_VAL32 : BitVec 32 := 0xdeadbeef#32

def NO_VAL64 : BitVec 64 := 0xfeedfacecafebeaf#64

def MAX_VAL32 : BitVec 32 := 0xffffffff#32

section Masks

variable {w : ℕ}

def lsbSet (w : ℕ) : BitVec w := 1#w

def msbSet (w : ℕ) : BitVec w := lsbSet w <<< (w - 1)

def allOnes (w : ℕ) : BitVec w := (msbSet w - 1#w) ||| msbSet w

def onesLs (value : BitVec w) (shamt : ℕ) : BitVec w := ~~~(~~~value <<< shamt)

def onesRs (value : BitVec w) (shamt : ℕ) : BitVec w := ~~~(~~~value >>> shamt)

def bitmask (w onecount : ℕ) : BitVec w :=
  if onecount = w then allOnes w else onesLs 0#w onecount

/-- `log_bitwidth`: the number of trailing zeroes of the width. -/
def logBitwidth : ℕ → ℕ
  | 8 => 3
  | 16 => 4
  | 32 => 5
  | 64 => 6
  | 128 => 7
  | _ => 0

def signExtension (bits : ℕ) (value : BitVec w) : BitVec w :=
  if bits < w then
    let msb : BitVec w := if bits = 0 then 0#w else 1#w <<< (bits - 1)
    ((value &&& bitmask w bits) ^^^ msb) - msb
  else
    value

@[simp]
theorem getLsbD_twoPow_sub_one (n i : ℕ) (h : n < w) :
    (BitVec.twoPow w n - 1#w).getLsbD i = decide (i < n) := by
  have hw : 0 < w := by omega
  have h1 : 2 ^ n < 2 ^ w := Nat.pow_lt_pow_right (by omega) h
  have hp : 0 < 2 ^ n := Nat.two_pow_pos n
  have hone : (1#w).toNat = 1 := by
    simp only [BitVec.toNat_ofNat]
    exact Nat.mod_eq_of_lt (Nat.one_lt_two_pow (by omega))
  have ht : (BitVec.twoPow w n - 1#w).toNat = 2 ^ n - 1 := by
    rw [BitVec.toNat_sub_of_le, BitVec.toNat_twoPow_of_lt h, hone]
    rw [BitVec.le_def, BitVec.toNat_twoPow_of_lt h, hone]
    omega
  rw [BitVec.getLsbD, ht, Nat.testBit_two_pow_sub_one]

theorem getLsbD_neg_twoPow (n i : ℕ) (h : n < w) :
    (-BitVec.twoPow w n).getLsbD i = (decide (i < w) && decide (n ≤ i)) := by
  have hn : -BitVec.twoPow w n = ~~~(BitVec.twoPow w n - 1#w) := by
    rw [← BitVec.not_neg, BitVec.not_not]
  rw [hn, BitVec.getLsbD_not, getLsbD_twoPow_sub_one n i h]
  by_cases hi : i < n
  · simp [hi]
  · simp [hi]
    omega

theorem msbSet_eq_twoPow : msbSet w = BitVec.twoPow w (w - 1) := by
  simp [msbSet, lsbSet, BitVec.twoPow]

@[simp]
theorem allOnes_eq : allOnes w = BitVec.allOnes w := by
  ext i hi
  have h := getLsbD_twoPow_sub_one (w := w) (w - 1) i (by omega)
  rw [allOnes, msbSet_eq_twoPow, ← BitVec.getLsbD_eq_getElem, BitVec.getLsbD_or, h,
    BitVec.getLsbD_twoPow]
  simp only [BitVec.getElem_allOnes, Bool.or_eq_true, decide_eq_true_eq, Bool.and_eq_true]
  omega

@[simp]
theorem getLsbD_bitmask (n i : ℕ) :
    (bitmask w n).getLsbD i = (decide (i < w) && decide (i < n)) := by
  unfold bitmask onesLs
  split
  · simp_all
  · by_cases hi : i < n <;> simp [hi]
    omega

@[simp]
theorem getElem_bitmask (n i : ℕ) (h : i < w) : (bitmask w n)[i] = decide (i < n) := by
  rw [← BitVec.getLsbD_eq_getElem, getLsbD_bitmask]
  simp [h]

theorem bitmask_width : bitmask w w = BitVec.allOnes w := by simp [bitmask]

/-- Masking the low bits of a value is truncating it. -/
theorem and_bitmask (x : BitVec w) (n : ℕ) :
    x &&& bitmask w n = (x.setWidth n).setWidth w := by
  apply BitVec.eq_of_getLsbD_eq
  intro i hi
  by_cases h : i < n <;> simp [h, hi]

/-- A field of a value, as masks and shifts take it. -/
theorem toNat_field (x : BitVec w) (n k : ℕ) :
    ((x &&& (bitmask w n <<< k)) >>> k).toNat = x.toNat / 2 ^ k % 2 ^ n := by
  have h : (x &&& (bitmask w n <<< k)) >>> k = (x >>> k) &&& bitmask w n := by
    apply BitVec.eq_of_getLsbD_eq
    intro i hi
    by_cases hk : k + i < w
    · have : ¬ k + i < k := by omega
      simp [hk, hi, this]
    · simp [BitVec.getLsbD_of_ge x (k + i) (by omega), hi]
  have hle : x.toNat / 2 ^ k % 2 ^ n < 2 ^ w :=
    calc x.toNat / 2 ^ k % 2 ^ n ≤ x.toNat / 2 ^ k := Nat.mod_le _ _
      _ ≤ x.toNat := Nat.div_le_self _ _
      _ < 2 ^ w := x.isLt
  rw [h, and_bitmask, BitVec.toNat_setWidth, BitVec.toNat_setWidth, BitVec.toNat_ushiftRight,
    Nat.shiftRight_eq_div_pow, Nat.mod_eq_of_lt hle]

/-- The conditional flip and subtraction of the source extend the sign of the low bits. -/
theorem sign_extension_eq {bits : ℕ} (hb : 0 < bits) (hw : bits ≤ w) (v : BitVec w) :
    signExtension bits v = (v.setWidth bits).signExtend w := by
  rcases Nat.lt_or_eq_of_le hw with hlt | rfl
  · obtain ⟨b, rfl⟩ : ∃ b, bits = b + 1 := ⟨bits - 1, by omega⟩
    have hmsb : (1#w <<< b) = BitVec.twoPow w b := by simp [BitVec.twoPow]
    simp only [signExtension, if_pos hlt, Nat.add_one_sub_one, hmsb, Nat.add_one_ne_zero,
      if_false]
    have hx : ∀ i, i < w → (v &&& bitmask w (b + 1) ^^^ BitVec.twoPow w b).getLsbD i
        = ((v.getLsbD i && decide (i < b + 1)) ^^ decide (b = i)) := by
      intro i hi
      simp [hi, eq_comm]
    have hs : ∀ i, i < w → ((v.setWidth (b + 1)).signExtend w).getLsbD i
        = if i < b + 1 then v.getLsbD i else v.getLsbD b := by
      intro i hi
      rw [BitVec.getLsbD_signExtend, BitVec.msb_eq_getLsbD_last]
      by_cases h : i < b + 1 <;> simp [hi, h]
    rw [BitVec.sub_eq_add_neg]
    rcases hvb : v.getLsbD b with _ | _
    · -- the sign is clear: the flip sets bit `b`, and the subtraction clears it again
      rw [← BitVec.sub_eq_add_neg, BitVec.sub_eq_iff_eq_add, BitVec.add_eq_or_of_and_eq_zero]
      · apply BitVec.eq_of_getLsbD_eq
        intro i hi
        rw [hx i hi, BitVec.getLsbD_or, hs i hi, BitVec.getLsbD_twoPow]
        by_cases hbi : b = i
        · subst hbi
          rw [if_pos (Nat.lt_succ_self b), hvb]
          simp [hi]
        · by_cases h : i < b + 1 <;> simp [hbi, h, hvb]
      · apply BitVec.eq_of_getLsbD_eq
        intro i hi
        rw [BitVec.getLsbD_and, hs i hi, BitVec.getLsbD_twoPow]
        by_cases hbi : b = i
        · subst hbi
          simp [hvb]
        · simp [hbi]
    · -- the sign is set: the flip clears bit `b`, and the subtraction sets it and all above it
      rw [BitVec.add_eq_or_of_and_eq_zero]
      · apply BitVec.eq_of_getLsbD_eq
        intro i hi
        rw [BitVec.getLsbD_or, hx i hi, hs i hi, getLsbD_neg_twoPow b i (by omega)]
        by_cases hbi : b = i
        · subst hbi
          simp [hvb, hi]
        · by_cases h : i < b + 1
          · have : ¬ b ≤ i := by omega
            simp [hbi, h, this]
          · have : b ≤ i := by omega
            simp [h, hi, hvb, this]
      · apply BitVec.eq_of_getLsbD_eq
        intro i hi
        rw [BitVec.getLsbD_and, hx i hi, getLsbD_neg_twoPow b i (by omega)]
        by_cases hbi : b = i
        · subst hbi
          simp [hvb]
        · by_cases h : i < b + 1
          · have : ¬ b ≤ i := by omega
            simp [this]
          · simp [hbi, h]
  · simp [signExtension]

theorem setWidth_setWidth_of_ge {n k : ℕ} (h : n ≤ k) {x : BitVec n} :
    (x.setWidth k).setWidth w = x.setWidth w := by
  apply BitVec.eq_of_getLsbD_eq
  intro i hi
  by_cases hk : i < k
  · simp [hi, hk]
  · simp [hi, hk, BitVec.getLsbD_of_ge x i (by omega)]

/-- Extending the sign of a value that was only widened is extending the sign of the value. -/
theorem signExtension_setWidth {n k : ℕ} (hn : 0 < n) (hle : n ≤ k) (hw : n ≤ w)
    (imm : BitVec n) : signExtension n ((imm.setWidth k).setWidth w) = imm.signExtend w := by
  rw [sign_extension_eq hn hw]
  congr 1
  apply BitVec.eq_of_getLsbD_eq
  intro i hi
  simp [hi, Nat.lt_of_lt_of_le hi hw, Nat.lt_of_lt_of_le hi hle]

end Masks

end MiptMips
