import Mathlib.Algebra.Order.Ring.Abs
import Mathlib.Algebra.Order.Ring.Int
import Mathlib.Tactic.Ring
import MiptMips.FuncSim.AluPrimitives

/-!
# Wide multiplication

The high half of an unsigned product is put together from four products of half-width parts, and
that of a signed one from the magnitudes. Both are the exact product divided by `2 ^ w`, rounded
down.
-/

namespace MiptMips

variable {w : ℕ}

section Unsigned

/-- The carries of a product of two numbers of two digits each. -/
theorem mul_div_sq {B : ℕ} (hB : 0 < B) (x₁ x₀ y₁ y₀ : ℕ) :
    (x₁ * B + x₀) * (y₁ * B + y₀) / (B * B)
      = x₁ * y₁ + x₀ * y₁ / B + x₁ * y₀ / B
        + (x₀ * y₀ / B + x₀ * y₁ % B + x₁ * y₀ % B) / B := by
  have hsplit : (x₁ * B + x₀) * (y₁ * B + y₀)
      = x₀ * y₀ + B * (x₀ * y₁ + x₁ * y₀ + B * (x₁ * y₁)) := by ring
  have hb := Nat.div_add_mod (x₀ * y₁) B
  have hc := Nat.div_add_mod (x₁ * y₀) B
  have hsum : x₀ * y₀ / B + (x₀ * y₁ + x₁ * y₀ + B * (x₁ * y₁))
      = (x₀ * y₀ / B + x₀ * y₁ % B + x₁ * y₀ % B)
        + B * (x₁ * y₁ + x₀ * y₁ / B + x₁ * y₀ / B) := by
    rw [Nat.mul_add, Nat.mul_add]
    omega
  rw [hsplit, ← Nat.div_div_eq_div_mul, Nat.add_mul_div_left _ _ hB, hsum,
    Nat.add_mul_div_left _ _ hB]
  omega

theorem toNat_and_half (h : ℕ) (v : BitVec (h + h)) :
    (v &&& allOnes (h + h) >>> h).toNat = v.toNat % 2 ^ h := by
  have hmask : allOnes (h + h) >>> h = bitmask (h + h) h := by
    apply BitVec.eq_of_getLsbD_eq
    intro i hi
    simp [hi]
  rw [hmask, and_bitmask, BitVec.toNat_setWidth, BitVec.toNat_setWidth, Nat.mod_eq_of_lt]
  exact (Nat.mod_lt _ (Nat.two_pow_pos h)).trans_le
    (Nat.pow_le_pow_right (by decide) (by omega))

/-- The product of two values of half the width does not wrap. -/
theorem toNat_mul_halves {h : ℕ} {u v : BitVec (h + h)} (hu : u.toNat < 2 ^ h)
    (hv : v.toNat < 2 ^ h) :
    (u * v).toNat = u.toNat * v.toNat ∧ (u * v).toNat < 2 ^ h * 2 ^ h := by
  have hlt : u.toNat * v.toNat < 2 ^ h * 2 ^ h := Nat.mul_lt_mul'' hu hv
  rw [BitVec.toNat_mul, Nat.pow_add, Nat.mod_eq_of_lt hlt]
  exact ⟨rfl, hlt⟩

theorem three_lt_sq {B a b c : ℕ} (ha : a < B) (hb : b < B) (hc : c < B) : a + b + c < B * B := by
  rcases Nat.lt_or_ge B 3 with h | h
  · obtain rfl | rfl : B = 1 ∨ B = 2 := by omega
    · omega
    · omega
  · have := Nat.mul_le_mul_right B h
    omega

/-- No sum of the partial products loses a carry. -/
theorem toNat_highUu (hw : w % 2 = 0) (x y : BitVec w) :
    (riscvMultiplicationHighUu x y).toNat = x.toNat * y.toNat / 2 ^ w := by
  obtain ⟨h, rfl⟩ : ∃ h, w = h + h := ⟨w / 2, by omega⟩
  have hhalf : (h + h) / 2 = h := by omega
  have hB : 0 < 2 ^ h := Nat.two_pow_pos h
  have hpow : 2 ^ (h + h) = 2 ^ h * 2 ^ h := Nat.pow_add 2 h h
  have hdiv : ∀ {n}, n < 2 ^ h * 2 ^ h → n / 2 ^ h < 2 ^ h := Nat.div_lt_of_lt_mul
  unfold riscvMultiplicationHighUu
  rw [hhalf]
  dsimp only
  generalize hx₁ : x >>> h = x₁
  generalize hy₁ : y >>> h = y₁
  generalize hx₀ : x &&& allOnes (h + h) >>> h = x₀
  generalize hy₀ : y &&& allOnes (h + h) >>> h = y₀
  have hx₁' : x₁.toNat = x.toNat / 2 ^ h := by
    rw [← hx₁, BitVec.toNat_ushiftRight, Nat.shiftRight_eq_div_pow]
  have hy₁' : y₁.toNat = y.toNat / 2 ^ h := by
    rw [← hy₁, BitVec.toNat_ushiftRight, Nat.shiftRight_eq_div_pow]
  have hx₀' : x₀.toNat = x.toNat % 2 ^ h := by rw [← hx₀, toNat_and_half]
  have hy₀' : y₀.toNat = y.toNat % 2 ^ h := by rw [← hy₀, toNat_and_half]
  have hlx₁ : x₁.toNat < 2 ^ h := hx₁' ▸ hdiv (hpow ▸ x.isLt)
  have hly₁ : y₁.toNat < 2 ^ h := hy₁' ▸ hdiv (hpow ▸ y.isLt)
  have hlx₀ : x₀.toNat < 2 ^ h := hx₀' ▸ Nat.mod_lt _ hB
  have hly₀ : y₀.toNat < 2 ^ h := hy₀' ▸ Nat.mod_lt _ hB
  obtain ⟨h00, h00'⟩ := toNat_mul_halves hlx₀ hly₀
  obtain ⟨h01, -⟩ := toNat_mul_halves hlx₀ hly₁
  obtain ⟨h10, -⟩ := toNat_mul_halves hlx₁ hly₀
  obtain ⟨h11, -⟩ := toNat_mul_halves hlx₁ hly₁
  have hx : x.toNat = x₁.toNat * 2 ^ h + x₀.toNat := by
    rw [hx₁', hx₀', Nat.mul_comm]
    exact (Nat.div_add_mod _ _).symm
  have hy : y.toNat = y₁.toNat * 2 ^ h + y₀.toNat := by
    rw [hy₁', hy₀', Nat.mul_comm]
    exact (Nat.div_add_mod _ _).symm
  have hlow := three_lt_sq (hdiv (h00 ▸ h00'))
    (Nat.mod_lt (x₀.toNat * y₁.toNat) hB) (Nat.mod_lt (x₁.toNat * y₀.toNat) hB)
  have htop : x.toNat * y.toNat / 2 ^ (h + h) < 2 ^ (h + h) :=
    Nat.div_lt_of_lt_mul (Nat.mul_lt_mul'' x.isLt y.isLt)
  simp only [BitVec.toNat_add, BitVec.toNat_ushiftRight, Nat.shiftRight_eq_div_pow,
    toNat_and_half, h00, h01, h10, h11, Nat.mod_add_mod]
  rw [← Nat.mod_eq_of_lt htop, hx, hy, hpow, mul_div_sq hB, Nat.mod_eq_of_lt hlow]

theorem low_eq (x y : BitVec w) : riscvMultiplicationLow x y = x * y := by
  simp [riscvMultiplicationLow]

end Unsigned

section Signed

/-- The sign bit moved down, as the source tests it. -/
theorem toNat_sign (hw : 0 < w) (x : BitVec w) :
    (x >>> (w - 1)).toNat = if x.toInt < 0 then 1 else 0 := by
  have hlt : x.toNat / 2 ^ (w - 1) < 2 := by
    refine Nat.div_lt_of_lt_mul ?_
    rw [← Nat.pow_succ, Nat.succ_eq_add_one, Nat.sub_add_cancel hw]
    exact x.isLt
  have hmsb := BitVec.msb_eq_decide x
  rw [BitVec.msb_eq_toInt, decide_eq_decide] at hmsb
  have hzero := Nat.div_eq_zero_iff (a := x.toNat) (b := 2 ^ (w - 1))
  have hp := Nat.two_pow_pos (w - 1)
  rw [BitVec.toNat_ushiftRight, Nat.shiftRight_eq_div_pow]
  generalize x.toNat / 2 ^ (w - 1) = q at *
  split_ifs <;> omega

theorem sign_ne_zero_iff (hw : 0 < w) (x : BitVec w) : x >>> (w - 1) ≠ 0#w ↔ x.toInt < 0 := by
  rw [ne_eq, ← BitVec.toNat_inj, toNat_sign hw, BitVec.toNat_ofNat, Nat.zero_mod]
  split_ifs <;> simp_all

theorem signs_ne_iff (hw : 0 < w) (x y : BitVec w) :
    x >>> (w - 1) ^^^ y >>> (w - 1) ≠ 0#w ↔ ¬ (x.toInt < 0 ↔ y.toInt < 0) := by
  rw [ne_eq, BitVec.xor_eq_zero_iff, ← BitVec.toNat_inj, toNat_sign hw, toNat_sign hw]
  by_cases hx : x.toInt < 0 <;> by_cases hy : y.toInt < 0 <;> simp [hx, hy]

theorem toNat_absBy (hw : 0 < w) (x : BitVec w) :
    (absBy (x >>> (w - 1)) x).toNat = x.toInt.natAbs := by
  have hneg := sign_ne_zero_iff hw x
  have hcond := BitVec.toInt_eq_toNat_cond x
  have hlt := x.isLt
  unfold absBy
  split_ifs with h
  · have hx : x.toInt < 0 := hneg.1 h
    rw [BitVec.not_sub_one_eq_not_add_one, ← BitVec.neg_eq_not_add, BitVec.toNat_neg]
    split_ifs at hcond <;> rw [Nat.mod_eq_of_lt] <;> omega
  · have hx : ¬ x.toInt < 0 := fun hx => h (hneg.2 hx)
    split_ifs at hcond <;> omega

/-- The high half of a negated number needs the carry of the low half. -/
theorem neg_ediv_two_pow (n w : ℕ) : -(n : ℤ) / 2 ^ w
    = if n % 2 ^ w = 0 then -((n / 2 ^ w : ℕ) : ℤ) else -((n / 2 ^ w : ℕ) : ℤ) - 1 := by
  have hp : (0 : ℤ) < 2 ^ w := by exact_mod_cast Nat.two_pow_pos w
  have hdiv : (n : ℤ) = 2 ^ w * (n / 2 ^ w : ℕ) + (n % 2 ^ w : ℕ) := by
    exact_mod_cast (Nat.div_add_mod n (2 ^ w)).symm
  have hlt : ((n % 2 ^ w : ℕ) : ℤ) < 2 ^ w := by exact_mod_cast Nat.mod_lt n (Nat.two_pow_pos w)
  split_ifs with h
  · refine ((Int.ediv_emod_unique (r := 0) hp).2 ⟨?_, le_rfl, hp⟩).1
    rw [h] at hdiv
    rw [hdiv]
    push_cast
    ring
  · refine ((Int.ediv_emod_unique (r := 2 ^ w - (n % 2 ^ w : ℕ)) hp).2 ⟨?_, ?_, ?_⟩).1
    · rw [hdiv]
      push_cast
      ring
    · omega
    · omega

theorem negateHigh_eq {hi lo : BitVec w} {n : ℕ} (hhi : hi.toNat = n / 2 ^ w)
    (hlo : lo.toNat = n % 2 ^ w) : negateHigh hi lo = BitVec.ofInt w (-(n : ℤ) / 2 ^ w) := by
  have hzero : lo = 0#w ↔ n % 2 ^ w = 0 := by
    rw [← BitVec.toNat_inj, hlo, BitVec.toNat_ofNat, Nat.zero_mod]
  have hofNat : BitVec.ofNat w (n / 2 ^ w) = hi := by
    rw [← hhi, BitVec.ofNat_toNat, BitVec.setWidth_eq]
  rw [neg_ediv_two_pow, negateHigh]
  by_cases h : lo = 0#w
  · rw [if_pos h, if_pos (hzero.1 h), BitVec.ofInt_neg, BitVec.ofInt_natCast, hofNat,
      BitVec.neg_eq_not_add]
  · rw [if_neg h, if_neg (mt hzero.2 h), Int.sub_eq_add_neg, BitVec.ofInt_add, BitVec.ofInt_neg,
      BitVec.ofInt_natCast, hofNat, BitVec.not_eq_neg_add, BitVec.sub_eq_add_neg, BitVec.ofInt_neg]
    rfl

/-- A product of magnitudes with its sign put back. -/
theorem highAbs_eq (hw : w % 2 = 0) {a b : BitVec w} {n : ℕ} (hn : a.toNat * b.toNat = n)
    (neg : Prop) [Decidable neg] :
    (if neg then negateHigh (riscvMultiplicationHighUu a b) (riscvMultiplicationLow a b)
      else riscvMultiplicationHighUu a b)
      = BitVec.ofInt w ((if neg then -(n : ℤ) else n) / 2 ^ w) := by
  have hhi := toNat_highUu hw a b
  rw [hn] at hhi
  have hlo : (riscvMultiplicationLow a b).toNat = n % 2 ^ w := by
    rw [low_eq, BitVec.toNat_mul, hn]
  split_ifs
  · exact negateHigh_eq hhi hlo
  · have hcast : (n : ℤ) / 2 ^ w = (n / 2 ^ w : ℕ) := by push_cast; rfl
    rw [hcast, BitVec.ofInt_natCast, ← hhi, BitVec.ofNat_toNat, BitVec.setWidth_eq]

theorem highSu_eq (hw0 : 0 < w) (hw : w % 2 = 0) (x y : BitVec w) :
    riscvMultiplicationHighSu x y = BitVec.ofInt w (x.toInt * y.toNat / 2 ^ w) := by
  have hsign := sign_ne_zero_iff hw0 x
  unfold riscvMultiplicationHighSu
  dsimp only
  rw [highAbs_eq hw (by rw [toNat_absBy hw0])]
  congr 2
  rw [Nat.cast_mul]
  split_ifs with h
  · have hneg := hsign.1 h
    have hx : (x.toInt.natAbs : ℤ) = -x.toInt := by omega
    rw [hx, ← Int.neg_mul, Int.neg_neg]
  · have hpos := mt hsign.2 h
    have hx : (x.toInt.natAbs : ℤ) = x.toInt := by omega
    rw [hx]

theorem highSs_eq (hw0 : 0 < w) (hw : w % 2 = 0) (x y : BitVec w) :
    riscvMultiplicationHighSs x y = BitVec.ofInt w (x.toInt * y.toInt / 2 ^ w) := by
  have hsigns := signs_ne_iff hw0 x y
  unfold riscvMultiplicationHighSs
  dsimp only
  rw [highAbs_eq hw (by rw [toNat_absBy hw0, toNat_absBy hw0])]
  congr 2
  have hmul := Int.natAbs_mul x.toInt y.toInt
  rw [← hmul]
  split_ifs with h
  · have hdiff := hsigns.1 h
    rcases Int.lt_or_le x.toInt 0 with hx | hx
    · have hy : 0 ≤ y.toInt := by omega
      have := Int.mul_nonpos_of_nonpos_of_nonneg hx.le hy
      omega
    · have hy : y.toInt ≤ 0 := by omega
      have := Int.mul_nonpos_of_nonneg_of_nonpos hx hy
      omega
  · have hsame := not_not.1 (mt hsigns.2 h)
    rcases Int.lt_or_le x.toInt 0 with hx | hx
    · have hy : y.toInt ≤ 0 := by omega
      have := Int.mul_nonneg_of_nonpos_of_nonpos hx.le hy
      omega
    · have hy : 0 ≤ y.toInt := by omega
      have := Int.mul_nonneg hx hy
      omega

end Signed

section Reconstruct

/-- A signed factor and one of at most the modulus leave a quotient that is signed. -/
theorem quotient_bounds {a b : ℤ} (ha : -2 ^ (w - 1) ≤ a) (ha' : a < 2 ^ (w - 1))
    (hb : |b| < 2 ^ w) : -2 ^ (w - 1) ≤ a * b / 2 ^ w ∧ a * b / 2 ^ w < 2 ^ (w - 1) := by
  have hp : (0 : ℤ) < 2 ^ w := by exact_mod_cast Nat.two_pow_pos w
  have hM : (0 : ℤ) < 2 ^ (w - 1) := by exact_mod_cast Nat.two_pow_pos (w - 1)
  have habs : |a * b| < 2 ^ (w - 1) * 2 ^ w :=
    calc |a * b| = |a| * |b| := abs_mul a b
      _ ≤ 2 ^ (w - 1) * |b| :=
        mul_le_mul_of_nonneg_right (abs_le.2 ⟨ha, ha'.le⟩) (abs_nonneg b)
      _ < 2 ^ (w - 1) * 2 ^ w := mul_lt_mul_of_pos_left hb hM
  obtain ⟨hlo, hhi⟩ := abs_lt.1 habs
  refine ⟨?_, Int.ediv_lt_of_lt_mul hp hhi⟩
  exact Int.le_ediv_of_mul_le hp (by rw [Int.neg_mul]; exact hlo.le)

/-- A number of twice the width is its signed high half and its low half. -/
theorem reconstruct_signed {n : ℤ} (hw : 0 < w)
    (h : -2 ^ (w - 1) ≤ n / 2 ^ w ∧ n / 2 ^ w < 2 ^ (w - 1)) :
    (BitVec.ofInt w (n / 2 ^ w)).toInt * 2 ^ w + (BitVec.ofInt w n).toNat = n := by
  have hp : (0 : ℤ) < 2 ^ w := by exact_mod_cast Nat.two_pow_pos w
  have hmod : ((BitVec.ofInt w n).toNat : ℤ) = n % 2 ^ w := by
    rw [BitVec.toNat_ofInt]
    push_cast
    exact Int.toNat_of_nonneg (Int.emod_nonneg _ hp.ne')
  rw [BitVec.toInt_ofInt_eq_self hw h.1 h.2, hmod, Int.mul_comm]
  exact Int.mul_ediv_add_emod ..

end Reconstruct

end MiptMips
