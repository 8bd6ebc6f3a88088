import MiptMips.Mips.Narrow

/-!
# Decoding for both widths

A word that the 32-bit version has is decoded by the 64-bit version to an instruction whose
narrowing is what the 32-bit version makes of it, with an immediate that is sign-extended.
-/

namespace MiptMips

open Bits

/-- A version on 64-bit registers that has all instructions of one on 32-bit registers. -/
inductive Widens : MipsVersion → MipsVersion → Prop
  | mips : Widens .v32 .v64
  | mars : Widens .mars .mars64

section Entries

open MipsTable

variable {v v' : MipsVersion}

theorem Widens.supported (hv : Widens v v') : ∀ e ∈ entries,
    e.versions.isSupported v → e.versions.isSupported v' := by
  cases hv <;> decide +kernel

theorem Widens.isMips32 (hv : Widens v v') : ∀ e ∈ entries, e.versions.isSupported v →
    e.function ≠ .unknownInstruction → e.function.isMips32 := by
  cases hv <;> decide +kernel

theorem shift_entries :
    ∀ e ∈ entries, e.function.isImmediateShift → e.immType = 'S' := by decide +kernel

theorem jump_entries :
    ∀ e ∈ entries, e.operation = .outJJump → e.immType = 'J' := by decide +kernel

end Entries

section Immediate

open MipsInstrDecoder

theorem getImmediateValue_lt (raw : BitVec 32) (type : Char) :
    (getImmediateValue raw type).toNat < 2 ^ 26 := by
  have hs := toNat_applyMask_le raw 0x000007c0#32 6
  have hj := toNat_applyMask_le raw 0x03ffffff#32 0
  have hi := toNat_applyMask_le raw 0x0000ffff#32 0
  simp only [BitVec.toNat_ofNat] at hs hj hi
  unfold getImmediateValue shamt jump imm
  split_ifs
  · decide
  all_goals omega

theorem getImmediateValue_shamt_lt (raw : BitVec 32) : (getImmediateValue raw 'S').toNat < 32 := by
  have hs := toNat_applyMask_le raw 0x000007c0#32 6
  simp only [BitVec.toNat_ofNat] at hs
  show (applyMask raw 0x000007c0#32 6).toNat < 32
  omega

theorem signExtended_zeroExtend {x : BitVec 32} (h : x.toNat < 2 ^ 31) :
    SignExtended 32 (x.setWidth 64) := by
  have hmsb : x.msb = false := by
    rw [BitVec.msb_eq_decide]
    exact decide_eq_false (by omega)
  rw [SignExtended, BitVec.setWidth_setWidth_of_le _ (by decide), BitVec.setWidth_eq,
    BitVec.signExtend_eq_setWidth_of_msb_false hmsb]

/-- Extension from fewer than 32 bits is extension from 32 bits too. -/
theorem signExtended_signExtension (x : BitVec 64) : SignExtended 32 (signExtension 16 x) := by
  rw [sign_extension_eq (by decide) (by decide), SignExtended]
  apply BitVec.eq_of_getLsbD_eq
  intro i hi
  rw [BitVec.getLsbD_signExtend, BitVec.getLsbD_setWidth, BitVec.msb_eq_getLsbD_last,
    BitVec.getLsbD_setWidth, BitVec.getLsbD_signExtend, BitVec.getLsbD_signExtend]
  by_cases h : i < 32
  · simp [hi, h]
  · have : ¬ i < 16 := by omega
    simp [hi, h, this]

theorem signExtended_getImmediate (raw : BitVec 32) (type : Char) :
    SignExtended 32 (getImmediate 64 type (getImmediateValue raw type)) := by
  have hlt := getImmediateValue_lt raw type
  unfold getImmediate
  split_ifs
  · exact signExtended_zeroExtend (by omega)
  · exact signExtended_signExtension _

theorem getImmediate_narrow (type : Char) (value : BitVec 32) :
    (getImmediate 64 type value).setWidth 32 = getImmediate 32 type value := by
  unfold getImmediate
  split_ifs
  · simp
  · rw [sign_extension_eq (by decide) (by decide), sign_extension_eq (by decide) (by decide)]
    apply BitVec.eq_of_getLsbD_eq
    intro i hi
    have : i < 64 := by omega
    rw [BitVec.getLsbD_setWidth, BitVec.getLsbD_signExtend, BitVec.getLsbD_signExtend]
    simp [hi, this]

end Immediate

section Decode

open MipsInstrDecoder MipsTable

theorem initTarget_narrow {g : FuncInstr 64} (h : SignExtended 32 g.vImm)
    (hj : g.isDirectJump → g.vImm.toNat < 2 ^ 26) :
    (Mips.initTarget g).narrow = Mips.initTarget g.narrow := by
  have hb : g.narrow.isBranch = g.isBranch := rfl
  have hd : g.narrow.isDirectJump = g.isDirectJump := rfl
  unfold Mips.initTarget
  rw [hb, hd]
  split_ifs with h₁ h₂
  · have he : signExtension 32 (g.narrow.vImm.setWidth 64) = signExtension 64 (g.vImm.setWidth 64) := by
      rw [sign_extension_eq (by decide) (by decide), sign_extension_eq (by decide) (by decide),
        BitVec.setWidth_eq, BitVec.setWidth_setWidth_of_le _ (by decide), BitVec.setWidth_eq,
        BitVec.setWidth_eq, BitVec.signExtend_eq]
      exact h
    rw [he]
    rfl
  · have he : (g.narrow.vImm <<< 2).setWidth 64 = (g.vImm <<< 2).setWidth 64 := by
      have hlt := hj h₂
      apply BitVec.eq_of_toNat_eq
      simp only [FuncInstr.narrow, BitVec.toNat_setWidth, BitVec.toNat_shiftLeft, Nat.shiftLeft_eq]
      omega
    rw [he]
    rfl
  · rfl

variable {v v' : MipsVersion}

theorem createInstr_narrow (hv : Widens v v') (endian : Endian) (bytes : BitVec 32) (PC : Addr)
    (hs : (getTableEntry bytes).versions.isSupported v) :
    (Mips.createInstr v' endian bytes PC 64).narrow = Mips.createInstr v endian bytes PC 32 := by
  have hm := getTableEntry_mem bytes
  have hs' := hv.supported _ hm hs
  have hslot : ∀ b : Bool, (b && v' != .mars && v' != .mars64)
      = (b && v != .mars && v != .mars64) := by
    intro b
    cases hv <;> cases b <;> rfl
  unfold Mips.createInstr
  dsimp only
  rw [initTarget_narrow]
  · congr 1
    simp only [Mips.init, hs, hs', hslot, if_true, FuncInstr.narrow, getImmediate_narrow]
    rfl
  · exact signExtended_getImmediate _ _
  · intro h
    have ht : (getTableEntry bytes).immType = 'J' :=
      jump_entries _ hm (by simpa [FuncInstr.isDirectJump, Mips.init] using h)
    have hlt := getImmediateValue_lt bytes 'J'
    rw [ht]
    show ((getImmediateValue bytes 'J').setWidth 64).toNat < 2 ^ 26
    rw [BitVec.toNat_setWidth]
    omega

end Decode

end MiptMips
