import MiptMips.Mips.Instr

/-!
# Targets of MIPS branches and jumps

A branch adds its offset to the whole address of its slot. A jump keeps four bits of its own
address, so it loses the bits above the low four gigabytes, and in the last word of a region it
stays in the region that its slot has left.
-/

namespace MiptMips

namespace Mips

open MipsTable MipsInstrDecoder

variable {w : ℕ} (version : MipsVersion) (endian : Endian) (bytes : BitVec 32) (PC : Addr)

section Spec

/-- The address of the slot with its low 28 bits replaced. -/
def jumpTarget : Addr :=
  ((PC + 4#64) &&& ~~~0xfffffff#64) ||| ((bytes.setWidth 26).setWidth 64 <<< 2)

def branchTarget : Addr := PC + 4#64 + ((bytes.setWidth 16).signExtend 64 <<< 2)

/-- The words of `j` and `jal`. -/
def IsJumpWord : Prop := opcode bytes = 2#32 ∨ opcode bytes = 3#32

instance : Decidable (IsJumpWord bytes) := inferInstanceAs (Decidable (_ ∨ _))

/-- The target that the instruction set gives a word. -/
structure TargetExact : Prop where
  jump : IsJumpWord bytes →
    (createInstr version endian bytes PC version.width).target = jumpTarget bytes PC
  branch : (createInstr version endian bytes PC version.width).isBranch →
    (createInstr version endian bytes PC version.width).target = branchTarget bytes PC

end Spec

section Decoded

variable {bytes}

theorem target_of_branch
    (ht : (getTableEntry bytes).operation = .outBranch
      ∨ (getTableEntry bytes).operation = .outBranchLikely) :
    (createInstr version endian bytes PC w).target = PC + 4#64 + (signExtension w
      ((getImmediate w (getTableEntry bytes).immType
        (getImmediateValue bytes (getTableEntry bytes).immType)).setWidth 64) <<< 2) := by
  rcases ht with ht | ht <;> simp [createInstr, initTarget, init, FuncInstr.isBranch,
    FuncInstr.isCommonBranch, FuncInstr.isLikelyBranch, ht]

theorem target_of_jump (ht : (getTableEntry bytes).operation = .outJJump) :
    (createInstr version endian bytes PC w).target = (PC &&& 0xf0000000#64)
      ||| (getImmediate w (getTableEntry bytes).immType
        (getImmediateValue bytes (getTableEntry bytes).immType) <<< 2).setWidth 64 := by
  simp [createInstr, initTarget, init, FuncInstr.isBranch, FuncInstr.isCommonBranch,
    FuncInstr.isLikelyBranch, FuncInstr.isDirectJump, ht]

theorem isBranch_createInstr : (createInstr version endian bytes PC w).isBranch
    ↔ (getTableEntry bytes).operation = .outBranch
      ∨ (getTableEntry bytes).operation = .outBranchLikely := by
  simp [FuncInstr.isBranch, FuncInstr.isCommonBranch, FuncInstr.isLikelyBranch,
    operation_createInstr]

/-- The offset of a branch is its low half. -/
theorem branch_entries : ∀ e ∈ MipsTable.entries,
    e.operation = .outBranch ∨ e.operation = .outBranchLikely → e.immType = 'I' := by
  decide +kernel

theorem jump_entry (h : IsJumpWord bytes) :
    (getTableEntry bytes).operation = .outJJump ∧ (getTableEntry bytes).immType = 'J' := by
  have hne : bytes ≠ 0#32 := by
    rintro rfl
    revert h
    decide
  unfold getTableEntry
  rw [if_neg hne]
  rcases h with h | h <;> rw [h] <;> exact ⟨rfl, rfl⟩

end Decoded

section Targets

variable {bytes}

/-- The low half is extended to a register, and the register to an address. -/
theorem branchOffset (hw : w = 32 ∨ w = 64) :
    signExtension w ((getImmediate w 'I' (getImmediateValue bytes 'I')).setWidth 64)
      = (bytes.setWidth 16).signExtend 64 := by
  have himm : getImmediateValue bytes 'I' = (bytes.setWidth 16).setWidth 32 := by
    show (bytes &&& 0x0000ffff#32) >>> 0 = _
    rw [BitVec.ushiftRight_zero, ← and_bitmask]
    rfl
  have hreg : getImmediate w 'I' (getImmediateValue bytes 'I') = (bytes.setWidth 16).signExtend w := by
    rw [himm]
    exact signExtension_setWidth (by decide) (by decide) (by omega) _
  rw [hreg, sign_extension_eq (by omega) (by omega), BitVec.setWidth_setWidth_of_le _ (by omega),
    BitVec.setWidth_eq, ← BitVec.toInt_inj, BitVec.toInt_signExtend_of_le (by omega),
    BitVec.toInt_signExtend_of_le (by omega), BitVec.toInt_signExtend_of_le (by omega)]

theorem jumpOffset (hw : w = 32 ∨ w = 64) :
    (getImmediate w 'J' (getImmediateValue bytes 'J') <<< 2).setWidth 64
      = (bytes.setWidth 26).setWidth 64 <<< 2 := by
  have himm : getImmediateValue bytes 'J' = (bytes.setWidth 26).setWidth 32 := by
    show (bytes &&& 0x03ffffff#32) >>> 0 = _
    rw [BitVec.ushiftRight_zero, ← and_bitmask]
    rfl
  have hreg : getImmediate w 'J' (getImmediateValue bytes 'J') = (bytes.setWidth 26).setWidth w := by
    rw [himm]
    exact setWidth_setWidth_of_ge (by decide)
  rw [hreg]
  apply BitVec.eq_of_getLsbD_eq
  intro i hi
  by_cases hw' : i < w
  · simp [hi, hw']
  · have hbit : ¬ i - 2 < 26 := by omega
    simp [hi, hw', hbit]

/-- The four bits that a jump keeps of its own address are all the bits it has to keep. -/
theorem region_iff (x : BitVec 26) :
    (PC &&& 0xf0000000#64) ||| (x.setWidth 64 <<< 2)
        = ((PC + 4#64) &&& ~~~0xfffffff#64) ||| (x.setWidth 64 <<< 2)
      ↔ (PC + 4#64).toNat < 2 ^ 32 ∧ (PC + 4#64).toNat / 2 ^ 28 = PC.toNat / 2 ^ 28 := by
  have hkeep : (0xf0000000#64 : BitVec 64) = bitmask 64 4 <<< 28 := by decide
  have hclear : (0xfffffff#64 : BitVec 64) = bitmask 64 28 := by decide
  have hbits : (PC &&& 0xf0000000#64) ||| (x.setWidth 64 <<< 2)
        = ((PC + 4#64) &&& ~~~0xfffffff#64) ||| (x.setWidth 64 <<< 2)
      ↔ (PC &&& (bitmask 64 4 <<< 28)) >>> 28 = (PC + 4#64) >>> 28 := by
    rw [hkeep, hclear]
    constructor
    · intro h
      apply BitVec.eq_of_getLsbD_eq
      intro i hi
      have hi' := congrArg (BitVec.getLsbD · (28 + i)) h
      by_cases hlt : 28 + i < 64
      · have hhigh : ¬ 28 + i < 28 := by omega
        have hfield : x.getLsbD (28 + i - 2) = false := BitVec.getLsbD_of_ge _ _ (by omega)
        simpa [hlt, hhigh, hfield] using hi'
      · simp [BitVec.getLsbD_of_ge _ (28 + i) (Nat.le_of_not_lt hlt)]
    · intro h
      congr 1
      apply BitVec.eq_of_getLsbD_eq
      intro i hi
      by_cases hlow : i < 28
      · simp [hi, hlow]
      · have hi' := congrArg (BitVec.getLsbD · (i - 28)) h
        have hsub : 28 + (i - 28) = i := by omega
        simp only [BitVec.getLsbD_ushiftRight, hsub] at hi'
        rw [hi']
        simp [hi, hlow]
  rw [hbits, ← BitVec.toNat_inj, toNat_field, BitVec.toNat_ushiftRight, Nat.shiftRight_eq_div_pow,
    BitVec.toNat_add]
  have := PC.isLt
  simp only [BitVec.toNat_ofNat]
  omega

end Targets

/-- The target is right exactly when no jump has more to keep of the address of its slot. -/
theorem targetExact_iff : TargetExact version endian bytes PC ↔ (IsJumpWord bytes →
    (PC + 4#64).toNat < 2 ^ 32 ∧ (PC + 4#64).toNat / 2 ^ 28 = PC.toNat / 2 ^ 28) := by
  have hw : version.width = 32 ∨ version.width = 64 := by cases version <;> decide
  have hjump : IsJumpWord bytes →
      ((createInstr version endian bytes PC version.width).target = jumpTarget bytes PC
        ↔ (PC + 4#64).toNat < 2 ^ 32 ∧ (PC + 4#64).toNat / 2 ^ 28 = PC.toNat / 2 ^ 28) := by
    intro h
    obtain ⟨ht, hi⟩ := jump_entry h
    rw [target_of_jump version endian PC ht, hi, jumpOffset hw]
    exact region_iff PC _
  constructor
  · exact fun h hj => (hjump hj).1 (h.jump hj)
  · refine fun h => ⟨fun hj => (hjump hj).2 (h hj), fun hb => ?_⟩
    have ht := (isBranch_createInstr version endian PC).1 hb
    rw [target_of_branch version endian PC ht, branch_entries _ (getTableEntry_mem bytes) ht,
      branchOffset hw]
    rfl

/-- `j` in the exception handler goes to the low gigabytes. -/
theorem not_targetExact_trapVector :
    (createInstr .v32 .little 0x08000000#32 trapVector 32).target = 0#64
      ∧ ¬ TargetExact .v32 .little 0x08000000#32 trapVector := by
  refine ⟨by decide +kernel, fun h => ?_⟩
  have htarget := h.jump (by decide)
  revert htarget
  decide +kernel

end Mips

end MiptMips
