import MiptMips.FuncSim.Permutations
import MiptMips.Lib.BitSeries
import MiptMips.RiscV.Units

/-!
# Carry-less multiplication

The loop adds up the first operand, shifted by the index of each bit that is set in the second one.
The sum is the product of the two words as polynomials over the field of two elements, cut to the
width of a register; the laws of `clmul` are those of this product.
-/

namespace MiptMips

open Alu Bits PowerSeries

variable {w : ℕ}

section Loop

variable (x y : BitVec w)

theorem carrylessMul_succ (hw : 0 < w) (n : ℕ) : carrylessMul (n + 1) x y
    = if y.getLsbD n then carrylessMul n x y ^^^ (x <<< n) else carrylessMul n x y := by
  unfold carrylessMul
  rw [List.range_succ, List.foldl_append, List.foldl_cons, List.foldl_nil]
  exact if_congr (shiftRight_and_one_ne_zero_iff y hw n) rfl rfl

/-- The lowest bits of a word. -/
noncomputable def lowSeries (n : ℕ) : PowerSeries (ZMod 2) :=
  ∑ i ∈ Finset.range n, monomial i (ofBool (y.getLsbD i))

theorem agreeBelow_lowSeries : AgreeBelow w (lowSeries y w) (series y) := by
  rw [agreeBelow_iff]
  intro k hk
  simp [lowSeries, coeff_monomial, hk]

/-- The sum after the first bits of the second operand. -/
theorem agreeBelow_carrylessMul (hw : 0 < w) :
    ∀ n, AgreeBelow w (series (carrylessMul n x y)) (lowSeries y n * series x)
  | 0 => by
    have hzero : series (carrylessMul 0 x y) = 0 := by
      ext i
      simp [carrylessMul, ofBool]
    rw [hzero, lowSeries, Finset.sum_range_zero, zero_mul]
    exact AgreeBelow.refl 0
  | n + 1 => by
    have ih := agreeBelow_carrylessMul hw n
    rw [carrylessMul_succ x y hw, lowSeries, Finset.sum_range_succ, add_mul]
    split_ifs with hbit
    · rw [hbit, series_xor, ofBool, if_pos rfl, ← X_pow_eq]
      exact ih.add (agreeBelow_shiftLeft x n)
    · rw [Bool.not_eq_true] at hbit
      rw [hbit, ofBool, if_neg Bool.false_ne_true, map_zero, zero_mul, add_zero]
      exact ih

theorem isProduct_carrylessMul : IsProduct x y (carrylessMul w x y) := by
  rcases Nat.eq_zero_or_pos w with rfl | hw
  · rw [isProduct_iff]
    exact fun k hk => absurd hk (Nat.not_lt_zero k)
  · have hloop := agreeBelow_carrylessMul x y hw w
    have hlow := (agreeBelow_lowSeries y).mul_right (series x)
    exact IsProduct.symm (hloop.trans hlow)

end Loop

namespace RiscV

section Laws

variable (instr : FuncInstr w)

theorem resultOf_clmul :
    resultOf "clmul" instr = some (carrylessMul w instr.vSrc0 instr.vSrc1) := by
  rw [resultOf_of_unit (.clmul w) instr rfl]
  simp [Executor.run, setDst]

/-- Each bit is the exclusive or of the products of the bits whose indices add up to its own. -/
def ConvolutionLaw (x y result : BitVec w) : Prop := ∀ k < w,
  result.getLsbD k = xorBelow (fun i => x.getLsbD i && y.getLsbD (k - i)) (k + 1)

/-- The bits of a product, and the product of the operands in the other order, with a sum and with
another product. -/
theorem clmul_laws (c : BitVec w) : ∃ ab ac bc abc : BitVec w,
    resultOf "clmul" instr = some ab
      ∧ resultOf "clmul" { instr with vSrc1 := c } = some ac
      ∧ resultOf "clmul" { instr with vSrc0 := instr.vSrc1, vSrc1 := c } = some bc
      ∧ ConvolutionLaw instr.vSrc0 instr.vSrc1 ab
      ∧ resultOf "clmul" { instr with vSrc0 := instr.vSrc1, vSrc1 := instr.vSrc0 } = some ab
      ∧ resultOf "clmul" { instr with vSrc1 := instr.vSrc1 ^^^ c } = some (ab ^^^ ac)
      ∧ resultOf "clmul" { instr with vSrc0 := ab, vSrc1 := c } = some abc
      ∧ resultOf "clmul" { instr with vSrc1 := bc } = some abc := by
  have hab := isProduct_carrylessMul instr.vSrc0 instr.vSrc1
  have hac := isProduct_carrylessMul instr.vSrc0 c
  have hbc := isProduct_carrylessMul instr.vSrc1 c
  refine ⟨_, _, _, _, resultOf_clmul _, resultOf_clmul _, resultOf_clmul _, isProduct_iff.1 hab, ?_,
    ?_, resultOf_clmul _, ?_⟩
  · rw [resultOf_clmul]
    exact congrArg some ((isProduct_carrylessMul _ _).eq hab.symm)
  · rw [resultOf_clmul]
    exact congrArg some ((isProduct_carrylessMul _ _).eq (hab.xor hac))
  · rw [resultOf_clmul]
    exact congrArg some
      (hab.assoc hbc (isProduct_carrylessMul _ _) (isProduct_carrylessMul _ _)).symm

end Laws

end RiscV

end MiptMips
