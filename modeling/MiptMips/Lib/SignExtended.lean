import Mathlib.Data.BitVec

/-!
# Sign-extended values

A value of `w` bits is sign-extended from `n` bits when it is what its low `n` bits are extended
to. Between two such values every comparison of the wide values is the comparison of the narrow
ones, signed or not.
-/

namespace Bits

variable {n w : ℕ}

def SignExtended (n : ℕ) (x : BitVec w) : Prop := (x.setWidth n).signExtend w = x

instance (n : ℕ) (x : BitVec w) : Decidable (SignExtended n x) :=
  inferInstanceAs (Decidable (_ = _))

/-- The integers that a signed value of `n` bits has. -/
def Representable (n : ℕ) (z : ℤ) : Prop := -2 ^ (n - 1) ≤ z ∧ z < 2 ^ (n - 1)

instance (n : ℕ) (z : ℤ) : Decidable (Representable n z) := inferInstanceAs (Decidable (_ ∧ _))

theorem representable_toInt (x : BitVec w) : Representable w x.toInt :=
  ⟨BitVec.le_toInt x, BitVec.toInt_lt⟩

/-- Cutting a value down before its sign is extended keeps it when it fits. -/
theorem signExtend_setWidth_iff {k m : ℕ} (hk : 0 < k) (hkm : k ≤ m) (hmn : m ≤ n)
    (x : BitVec m) : (x.setWidth k).signExtend n = x.signExtend n
      ↔ -2 ^ (k - 1) ≤ x.toInt ∧ x.toInt < 2 ^ (k - 1) := by
  have hcut : (x.setWidth k).toInt = x.toInt.bmod (2 ^ k) := by
    rw [← BitVec.signExtend_eq_setWidth_of_le _ hkm,
      BitVec.toInt_signExtend_eq_toInt_bmod_of_le _ hkm]
  have hpow : 2 ^ k = 2 * 2 ^ (k - 1) := by
    rw [← Nat.pow_succ']
    congr 1
    omega
  have hpos : 0 < 2 ^ (k - 1) := Nat.two_pow_pos _
  have hcast : ((2 ^ (k - 1) : ℕ) : Int) = 2 ^ (k - 1) := by push_cast; rfl
  rw [← BitVec.toInt_inj, BitVec.toInt_signExtend_of_le (hkm.trans hmn),
    BitVec.toInt_signExtend_of_le hmn, hcut, ← hcast]
  constructor
  · intro h
    have hle := Int.le_bmod (x := x.toInt) (m := 2 ^ k) (by omega)
    have hlt := Int.bmod_lt (x := x.toInt) (m := 2 ^ k) (by omega)
    rw [h, hpow] at hle hlt
    omega
  · rintro ⟨hle, hlt⟩
    apply Int.bmod_eq_of_le <;> rw [hpow] <;> omega

theorem signExtended_iff (hn : 0 < n) (hw : n ≤ w) (x : BitVec w) :
    SignExtended n x ↔ Representable n x.toInt := by
  have h := signExtend_setWidth_iff hn hw (le_refl w) x
  rw [BitVec.signExtend_eq] at h
  exact h

/-- A shift to the right moves a number towards zero or minus one. -/
theorem Representable.shiftRight {z : ℤ} (hz : Representable n z) (k : ℕ) :
    Representable n (z >>> k) := by
  have hp : (1 : ℤ) ≤ 2 ^ k := by exact_mod_cast Nat.two_pow_pos k
  rw [Int.shiftRight_eq_div_pow]
  push_cast
  obtain ⟨hlo, hhi⟩ := hz
  rcases Int.lt_or_le z 0 with h | h
  · have hmul := Int.mul_le_mul_of_nonpos_left h.le hp
    have hle : z ≤ z / 2 ^ k := Int.le_ediv_of_mul_le (by omega) (by omega)
    have hneg : z / 2 ^ k < 0 := Int.ediv_neg_of_neg_of_pos h (by omega)
    exact ⟨hlo.trans hle, hneg.trans (by exact_mod_cast Nat.two_pow_pos (n - 1))⟩
  · have hle : z / 2 ^ k ≤ z := Int.ediv_le_self _ h
    have hpos : 0 ≤ z / 2 ^ k := Int.ediv_nonneg h (by omega)
    exact ⟨by omega, hle.trans_lt hhi⟩

theorem SignExtended.sshiftRight {x : BitVec w} (hn : 0 < n) (hw : n ≤ w) (h : SignExtended n x)
    (k : ℕ) : SignExtended n (x.sshiftRight k) := by
  rw [signExtended_iff hn hw] at h ⊢
  rw [BitVec.toInt_sshiftRight]
  exact h.shiftRight k

namespace SignExtended

section Extend

theorem setWidth_signExtend (h : n ≤ w) (x : BitVec n) : (x.signExtend w).setWidth n = x := by
  apply BitVec.eq_of_getLsbD_eq
  intro i hi
  have : i < w := by omega
  rw [BitVec.getLsbD_setWidth, BitVec.getLsbD_signExtend]
  simp [hi, this]

theorem signExtend (h : n ≤ w) (x : BitVec n) : SignExtended n (x.signExtend w) := by
  rw [SignExtended, setWidth_signExtend h]

theorem zero (n w : ℕ) : SignExtended n (0#w) := by
  have h : (0#w).setWidth n = 0#n := BitVec.setWidth_zero n w
  rw [SignExtended, h, BitVec.signExtend_eq_setWidth_of_msb_false BitVec.msb_zero]
  exact BitVec.setWidth_zero w n

end Extend

section Compare

variable {x y : BitVec w}

theorem toInt_setWidth (hnw : n ≤ w) (hx : SignExtended n x) : (x.setWidth n).toInt = x.toInt := by
  rw [← BitVec.toInt_signExtend_of_le hnw, hx]

theorem setWidth_inj (hx : SignExtended n x) (hy : SignExtended n y) :
    x.setWidth n = y.setWidth n ↔ x = y :=
  ⟨fun h => by rw [← hx, h, hy], fun h => by rw [h]⟩

theorem slt_setWidth (hnw : n ≤ w) (hx : SignExtended n x) (hy : SignExtended n y) :
    (x.setWidth n).slt (y.setWidth n) = x.slt y := by
  rw [BitVec.slt_eq_decide, BitVec.slt_eq_decide, hx.toInt_setWidth hnw, hy.toInt_setWidth hnw]

theorem sle_setWidth (hnw : n ≤ w) (hx : SignExtended n x) (hy : SignExtended n y) :
    (x.setWidth n).sle (y.setWidth n) = x.sle y := by
  rw [BitVec.sle_eq_decide, BitVec.sle_eq_decide, hx.toInt_setWidth hnw, hy.toInt_setWidth hnw]

/-- Extension adds the same to all negative values, and nothing to the others. -/
theorem toNat_eq (hnw : n ≤ w) (hx : SignExtended n x) :
    x.toNat = (x.setWidth n).toNat + if (x.setWidth n).msb then 2 ^ w - 2 ^ n else 0 := by
  have h := congrArg BitVec.toNat hx
  rw [BitVec.toNat_signExtend, BitVec.toNat_setWidth_of_le hnw] at h
  exact h.symm

theorem toNat_lt_iff (hnw : n ≤ w) (hx : SignExtended n x) (hy : SignExtended n y) :
    (x.setWidth n).toNat < (y.setWidth n).toNat ↔ x.toNat < y.toNat := by
  rw [hx.toNat_eq hnw, hy.toNat_eq hnw]
  have hx' := BitVec.msb_eq_decide (x.setWidth n)
  have hy' := BitVec.msb_eq_decide (y.setWidth n)
  have hltx := (x.setWidth n).isLt
  have hlty := (y.setWidth n).isLt
  have hpow : 2 ^ n ≤ 2 ^ w := Nat.pow_le_pow_right (by omega) hnw
  rw [hx', hy']
  split_ifs <;> simp_all <;> omega

theorem ult_setWidth (hnw : n ≤ w) (hx : SignExtended n x) (hy : SignExtended n y) :
    (x.setWidth n).ult (y.setWidth n) = x.ult y :=
  decide_eq_decide.2 (hx.toNat_lt_iff hnw hy)

theorem ule_setWidth (hnw : n ≤ w) (hx : SignExtended n x) (hy : SignExtended n y) :
    (x.setWidth n).ule (y.setWidth n) = x.ule y := by
  have h := hy.toNat_lt_iff hnw hx
  exact decide_eq_decide.2 (by omega)

end Compare

end SignExtended

end Bits
