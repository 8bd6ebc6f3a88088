import MiptMips.FuncSim.Division
import MiptMips.Mips.Instr
import MiptMips.RiscV.Units

/-!
# The division instructions

The law of the division for the instructions of both instruction sets, with the results that RISC-V
gives where the host has none.
-/

namespace MiptMips

open RiscV

section Mnemonics

def RiscV.divMnemonic (signed : Bool) : String := if signed then "div" else "divu"

def RiscV.remMnemonic (signed : Bool) : String := if signed then "rem" else "remu"

/-- The division of MIPS on operands of 32 or 64 bits. -/
def Mips.divMnemonic (width : ℕ) (signed : Bool) : String :=
  (if width = 64 then "d" else "") ++ if signed then "div" else "divu"

end Mnemonics

section Law

variable {w n : ℕ}

theorem resultOf_div (signed : Bool) (instr : FuncInstr w) :
    resultOf (RiscV.divMnemonic signed) instr
      = some (riscvDivision signed instr.vSrc0 instr.vSrc1) := by
  have h : resultOf (RiscV.divMnemonic signed) instr
      = some ((Executor.div w signed).run instr).vDst0 := by
    cases signed with
    | true => exact resultOf_of_unit (.div w true) instr rfl
    | false => exact resultOf_of_unit (.div w false) instr rfl
  rw [h]
  simp [Executor.run, Alu.setDst]

theorem resultOf_rem (signed : Bool) (instr : FuncInstr w) :
    resultOf (RiscV.remMnemonic signed) instr
      = some (riscvRemainder signed instr.vSrc0 instr.vSrc1) := by
  have h : resultOf (RiscV.remMnemonic signed) instr
      = some ((Executor.rem w signed).run instr).vDst0 := by
    cases signed with
    | true => exact resultOf_of_unit (.rem w true) instr rfl
    | false => exact resultOf_of_unit (.rem w false) instr rfl
  rw [h]
  simp [Executor.run, Alu.setDst]

theorem division_entries (hw : w = 32 ∨ w = 64) (signed : Bool) :
    ∀ e ∈ MipsTable.entries, e.name = Mips.divMnemonic w signed →
      e.function = .division w signed := by
  rcases hw with rfl | rfl <;> cases signed <;> decide +kernel

/-- A division of MIPS leaves what its routine computes, in LO and in HI. -/
theorem mips_division (hw : w = 32 ∨ w = 64) (hn : w ≤ n) {signed : Bool} {version : MipsVersion}
    (endian : Endian) {bytes : BitVec 32} (PC : Addr)
    (hname : (MipsTable.getTableEntry bytes).name = Mips.divMnemonic w signed)
    (hsup : (MipsTable.getTableEntry bytes).versions.isSupported version) (src0 src1 : BitVec n) :
    let instr := { Mips.createInstr version endian bytes PC n with vSrc0 := src0, vSrc1 := src1 }
    let result := mipsDivision signed (src0.setWidth w) (src1.setWidth w)
    instr.execute.vDst0.setWidth w = result.1 ∧ instr.execute.vDst1.setWidth w = result.2 := by
  have hfun := division_entries hw signed _ (MipsTable.getTableEntry_mem bytes) hname
  intro instr result
  have hexec : instr.executor = .division w signed := by
    show (Mips.createInstr version endian bytes PC n).executor = _
    rw [Mips.executor_createInstr, if_pos hsup, hfun]
  rw [FuncInstr.execute, hexec]
  exact ⟨(setWidth_setWidth_of_ge hn).trans (BitVec.setWidth_eq _),
    (setWidth_setWidth_of_ge hn).trans (BitVec.setWidth_eq _)⟩

/-- The results of RISC-V in all cases, those of MIPS where there is a quotient, and no case in which
the host is asked for a division that it does not have. -/
theorem division_law (hw : w = 32 ∨ w = 64) (signed : Bool) :
    (∀ instr : FuncInstr w, ∃ quotient remainder,
      resultOf (RiscV.divMnemonic signed) instr = some quotient
        ∧ resultOf (RiscV.remMnemonic signed) instr = some remainder
        ∧ (HostDefined signed instr.vSrc0 instr.vSrc1 →
          DivisionLaw signed instr.vSrc0 instr.vSrc1 quotient remainder)
        ∧ (instr.vSrc1 = 0#w → quotient = BitVec.allOnes w ∧ remainder = instr.vSrc0)
        ∧ (signed → instr.vSrc0 = BitVec.intMin w → instr.vSrc1 = -1#w →
          quotient = BitVec.intMin w ∧ remainder = 0#w))
      ∧ (∀ n, w ≤ n → ∀ version endian bytes PC,
        (MipsTable.getTableEntry bytes).name = Mips.divMnemonic w signed →
        (MipsTable.getTableEntry bytes).versions.isSupported version → ∀ src0 src1 : BitVec n,
        HostDefined signed (src0.setWidth w) (src1.setWidth w) →
          let instr :=
            { Mips.createInstr version endian bytes PC n with vSrc0 := src0, vSrc1 := src1 }
          DivisionLaw signed (src0.setWidth w) (src1.setWidth w)
            (instr.execute.vDst0.setWidth w) (instr.execute.vDst1.setWidth w))
      ∧ ∀ x y : BitVec w, riscvDivisionOnHost signed x y = some (riscvDivision signed x y)
        ∧ riscvRemainderOnHost signed x y = some (riscvRemainder signed x y)
        ∧ mipsDivisionOnHost signed x y = some (mipsDivision signed x y) := by
  have hw0 : 0 < w := by omega
  refine ⟨fun instr => ⟨_, _, resultOf_div signed instr, resultOf_rem signed instr, ?_, ?_, ?_⟩,
    ?_, ?_⟩
  · exact divisionLaw_of_defined hw0
  · intro hy
    rw [riscvDivision, riscvRemainder, if_pos hy, if_pos hy, allOnes_eq]
    exact ⟨rfl, rfl⟩
  · intro hs hx hy
    have ho : isSignedDivisionOverflow signed instr.vSrc0 instr.vSrc1 :=
      isSignedDivisionOverflow_iff.2 ⟨hs, hx, hy⟩
    have hy0 : instr.vSrc1 ≠ 0#w := by
      rw [hy]
      rcases hw with rfl | rfl <;> decide
    rw [riscvDivision, riscvRemainder, if_neg hy0, if_neg hy0, if_pos ho, if_pos ho,
      msbSet_eq_twoPow]
    exact ⟨rfl, rfl⟩
  · intro n hn version endian bytes PC hname hsup src0 src1 hdef instr
    obtain ⟨hq, hr⟩ := mips_division hw hn endian PC hname hsup src0 src1
    have hlaw := divisionLaw_mips hw0 hdef
    rw [← hq, ← hr] at hlaw
    exact hlaw
  · intro x y
    exact ⟨riscvDivisionOnHost_eq hw0, riscvRemainderOnHost_eq hw0, mipsDivisionOnHost_eq hw0⟩

/-- The law of the signed division on 64 bits, at the overflowing pair. -/
theorem division_law_overflow :
    (∃ quotient remainder,
      resultOf (RiscV.divMnemonic true) (withOperands (BitVec.intMin 64) (-1#64)) = some quotient
        ∧ resultOf (RiscV.remMnemonic true) (withOperands (BitVec.intMin 64) (-1#64))
          = some remainder
        ∧ quotient = BitVec.intMin 64 ∧ remainder = 0#64)
      ∧ mipsDivisionOnHost true (BitVec.intMin 64) (-1#64)
        = some (mipsDivision true (BitVec.intMin 64) (-1#64)) := by
  obtain ⟨hriscv, -, hhost⟩ := division_law (.inr rfl : 64 = 32 ∨ 64 = 64) true
  obtain ⟨q, r, hq, hr, -, -, ho⟩ := hriscv (withOperands (BitVec.intMin 64) (-1#64))
  exact ⟨⟨q, r, hq, hr, ho rfl rfl rfl⟩, (hhost _ _).2.2⟩

end Law

end MiptMips
