import MiptMips.FuncSim.WideMultiplication
import MiptMips.RiscV.Instr

/-!
# The units of the mnemonics

What the table executes for a mnemonic, whatever the words of the opcodes are, and the exactness of
the products.
-/

namespace MiptMips

namespace RiscV

variable {w : ℕ}

section Mnemonics

/-- The entry whose opcode the table takes by the mnemonic. -/
def entryOf (w : ℕ) (mnemonic : String) : Option RiscVTableEntry :=
  (cmdDescOf w fun name => (if name = mnemonic then 1#32 else 0#32, 0#32)).find?
    fun e => e.entry.1 == 1#32

/-- The first result of the unit of the mnemonic. -/
def resultOf (mnemonic : String) (instr : FuncInstr w) : Option (BitVec w) :=
  (entryOf w mnemonic).map fun e => (e.function.run instr).vDst0

theorem resultOf_of_unit {mnemonic : String} (unit : Executor) (instr : FuncInstr w)
    (h : (entryOf w mnemonic).map (·.function) = some unit) :
    resultOf mnemonic instr = some (unit.run instr).vDst0 := by
  obtain ⟨e, he, rfl⟩ := Option.map_eq_some_iff.1 h
  rw [resultOf, he, Option.map_some]

/-- An instruction with nothing but its operand values. -/
def withOperands (x y : BitVec w) : FuncInstr w :=
  { PC := 0#64, newPC := 4#64, raw := 0#32, endian := .little, executor := .unknownInstruction
    src0 := RiscVRegister.zero, src1 := RiscVRegister.zero
    dst0 := RiscVRegister.zero, dst1 := RiscVRegister.zero, vSrc0 := x, vSrc1 := y }

end Mnemonics

section Multiplication

/-- Both halves of an exact product, and the product put together from the value of the high one. -/
structure WideProduct (n : ℤ) (low high : BitVec w) (value : BitVec w → ℤ) : Prop where
  low_eq : low = BitVec.ofInt w n
  high_eq : high = BitVec.ofInt w (n / 2 ^ w)
  reconstruct : value high * 2 ^ w + low.toNat = n

variable (instr : FuncInstr w)

theorem resultOf_mul :
    resultOf "mul" instr = some (riscvMultiplicationLow instr.vSrc0 instr.vSrc1) := by
  rw [resultOf_of_unit (.multL w) instr rfl]
  simp [Executor.run, Alu.setDst]

theorem resultOf_mulh :
    resultOf "mulh" instr = some (riscvMultiplicationHighSs instr.vSrc0 instr.vSrc1) := by
  rw [resultOf_of_unit (.multHSs w) instr rfl]
  simp [Executor.run, Alu.setDst]

theorem resultOf_mulhsu :
    resultOf "mulhsu" instr = some (riscvMultiplicationHighSu instr.vSrc0 instr.vSrc1) := by
  rw [resultOf_of_unit (.multHSu w) instr rfl]
  simp [Executor.run, Alu.setDst]

theorem resultOf_mulhu :
    resultOf "mulhu" instr = some (riscvMultiplicationHighUu instr.vSrc0 instr.vSrc1) := by
  rw [resultOf_of_unit (.multHUu w) instr rfl]
  simp [Executor.run, Alu.setDst]

theorem wideProduct_signed (hw : 0 < w) (x : BitVec w) {b : ℤ} (hb : |b| < 2 ^ w)
    {low high : BitVec w} (hlow : low = BitVec.ofInt w (x.toInt * b))
    (hhigh : high = BitVec.ofInt w (x.toInt * b / 2 ^ w)) :
    WideProduct (x.toInt * b) low high BitVec.toInt := by
  refine ⟨hlow, hhigh, ?_⟩
  rw [hlow, hhigh]
  exact reconstruct_signed hw (quotient_bounds (BitVec.le_toInt x) BitVec.toInt_lt hb)

/-- All three high halves belong to the one low half. -/
theorem wide_multiplication (hw : w = 32 ∨ w = 64 ∨ w = 128) :
    ∃ low ss uu su : BitVec w,
      resultOf "mul" instr = some low ∧ resultOf "mulh" instr = some ss
        ∧ resultOf "mulhu" instr = some uu ∧ resultOf "mulhsu" instr = some su
        ∧ WideProduct (instr.vSrc0.toInt * instr.vSrc1.toInt) low ss BitVec.toInt
        ∧ WideProduct (instr.vSrc0.toNat * instr.vSrc1.toNat) low uu (fun v => v.toNat)
        ∧ WideProduct (instr.vSrc0.toInt * instr.vSrc1.toNat) low su BitVec.toInt := by
  have hw0 : 0 < w := by omega
  have heven : w % 2 = 0 := by omega
  have hofNat : ∀ v : BitVec w, BitVec.ofNat w v.toNat = v := fun v => by simp
  generalize hx : instr.vSrc0 = x
  generalize hy : instr.vSrc1 = y
  have hlt : (y.toNat : ℤ) < 2 ^ w := by exact_mod_cast y.isLt
  refine ⟨_, _, _, _, resultOf_mul instr, resultOf_mulh instr, resultOf_mulhu instr,
    resultOf_mulhsu instr, ?_, ?_, ?_⟩
  · refine wideProduct_signed hw0 x ?_ ?_ (by rw [hx, hy, highSs_eq hw0 heven])
    · have hp : (0 : ℤ) < 2 ^ w := by exact_mod_cast Nat.two_pow_pos w
      have hlo := BitVec.le_two_mul_toInt (x := y)
      have hhi := BitVec.two_mul_toInt_lt (x := y)
      exact abs_lt.2 ⟨by omega, by omega⟩
    · rw [hx, hy, low_eq, BitVec.ofInt_mul, BitVec.ofInt_toInt, BitVec.ofInt_toInt]
  · have hcast : (x.toNat : ℤ) * y.toNat = (x.toNat * y.toNat : ℕ) := by push_cast; rfl
    refine ⟨?_, ?_, ?_⟩
    · rw [hx, hy, low_eq, hcast, BitVec.ofInt_natCast, BitVec.ofNat_mul, hofNat, hofNat]
    · have hdiv : (x.toNat : ℤ) * y.toNat / 2 ^ w = (x.toNat * y.toNat / 2 ^ w : ℕ) := by
        push_cast
        rfl
      rw [hx, hy, hdiv, BitVec.ofInt_natCast, ← toNat_highUu heven, hofNat]
    · rw [hx, hy, toNat_highUu heven, low_eq, BitVec.toNat_mul]
      exact_mod_cast Nat.div_add_mod' _ _
  · refine wideProduct_signed hw0 x ?_ ?_ (by rw [hx, hy, highSu_eq hw0 heven])
    · rwa [abs_of_nonneg (Int.natCast_nonneg _)]
    · rw [hx, hy, low_eq, BitVec.ofInt_mul, BitVec.ofInt_toInt, BitVec.ofInt_natCast, hofNat]

/-- The least value of 128 bits times an odd number, whose low half is not zero. -/
theorem wide_multiplication_intMin :
    ∃ low ss uu su : BitVec 128,
      resultOf "mul" (withOperands (BitVec.intMin 128) 3#128) = some low
        ∧ resultOf "mulh" (withOperands (BitVec.intMin 128) 3#128) = some ss
        ∧ resultOf "mulhu" (withOperands (BitVec.intMin 128) 3#128) = some uu
        ∧ resultOf "mulhsu" (withOperands (BitVec.intMin 128) 3#128) = some su
        ∧ WideProduct ((BitVec.intMin 128).toInt * (3#128).toInt) low ss BitVec.toInt
        ∧ WideProduct ((BitVec.intMin 128).toNat * (3#128).toNat) low uu (fun v => v.toNat)
        ∧ WideProduct ((BitVec.intMin 128).toInt * (3#128).toNat) low su BitVec.toInt :=
  wide_multiplication (withOperands (BitVec.intMin 128) 3#128) (.inr (.inr rfl))

end Multiplication

end RiscV

end MiptMips
