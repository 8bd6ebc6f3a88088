import MiptMips.Mips.Narrow
import MiptMips.RiscV.Units

/-!
# Word operations

Each word operation of the 64-bit registers does what an operation of the 32-bit registers does on
the low halves of its operands, and extends the sign of the result.
-/

namespace MiptMips

open Bits Alu RiscVInstrDecoder

namespace RiscV

inductive WordOperation where
  | addw | subw | addiw | sllw | srlw | sraw | slliw | srliw | sraiw
  deriving DecidableEq, Repr

namespace WordOperation

def mnemonic : WordOperation → String
  | addw => "addw"
  | subw => "subw"
  | addiw => "addiw"
  | sllw => "sllw"
  | srlw => "srlw"
  | sraw => "sraw"
  | slliw => "slliw"
  | srliw => "srliw"
  | sraiw => "sraiw"

/-- The operation of the narrow registers. -/
def narrowMnemonic : WordOperation → String
  | addw => "add"
  | subw => "sub"
  | addiw => "addi"
  | sllw => "sll"
  | srlw => "srl"
  | sraw => "sra"
  | slliw => "slli"
  | srliw => "srli"
  | sraiw => "srai"

end WordOperation

section Immediates

/-- Both widths extend the sign of the same field. -/
theorem setWidth_arith (value : BitVec 32) :
    (getImmediate 64 .I value).setWidth 32 = getImmediate 32 .I value := by
  have h64 : getImmediate 64 .I value = ((value.setWidth 64).setWidth 12).signExtend 64 :=
    sign_extension_eq (by decide) (by decide) _
  have h32 : getImmediate 32 .I value = ((value.setWidth 32).setWidth 12).signExtend 32 :=
    sign_extension_eq (by decide) (by decide) _
  rw [h64, h32, setWidth_setWidth_of_ge (by decide), BitVec.setWidth_eq]
  apply BitVec.eq_of_getLsbD_eq
  intro i hi
  have hi' : i < 64 := by omega
  rw [BitVec.getLsbD_setWidth, BitVec.getLsbD_signExtend, BitVec.getLsbD_signExtend]
  simp [hi, hi']

theorem toNat_five_lt (bytes : BitVec 32) : (getImmediateValue bytes .five).toNat < 32 := by
  show (iImm bytes &&& bitmask 32 5).toNat < 32
  rw [and_bitmask, BitVec.toNat_setWidth_of_le (by decide)]
  exact BitVec.isLt _

/-- A shift amount below 32 is decoded to itself on both widths. -/
theorem toNat_shamt {value : BitVec 32} (h : value.toNat < 32) :
    (getImmediate 64 .five value).toNat = value.toNat
      ∧ (getImmediate 32 .seven value).toNat = value.toNat := by
  have h64 : getImmediate 64 .five value = value.setWidth 64 &&& bitmask 64 6 := rfl
  have h32 : getImmediate 32 .seven value = value.setWidth 32 &&& bitmask 32 5 := rfl
  rw [h64, h32, and_bitmask, and_bitmask]
  simp only [BitVec.toNat_setWidth]
  omega

end Immediates

section Results

variable {v : BitVec 64} {u : BitVec 32}

theorem signExtended_signExtension (v : BitVec 64) : SignExtended 32 (signExtension 32 v) := by
  rw [sign_extension_eq (by decide) (by decide)]
  exact .signExtend (by decide) _

/-- A shift to the right of a sign-extended value leaves it sign-extended. -/
theorem signExtended_sra (x : BitVec 64) (n : ℕ) :
    SignExtended 32 (arithmeticRs (signExtension 32 x) n) := by
  have hne : (64 : ℕ) ≠ 128 := by decide
  rw [arithmeticRs, if_pos hne]
  exact (signExtended_signExtension x).sshiftRight (by decide) (by decide) n

theorem eq_signExtend (hv : SignExtended 32 v) (h : v.setWidth 32 = u) : v = u.signExtend 64 := by
  rw [← h, hv]

theorem signExtension_eq_signExtend (h : v.setWidth 32 = u) :
    signExtension 32 v = u.signExtend 64 :=
  eq_signExtend (signExtended_signExtension v) ((setWidth_signExtension v).trans h)

/-- The narrow instruction has the low halves of the operands. -/
structure Narrows (g : FuncInstr 64) (f : FuncInstr 32) : Prop where
  src0 : f.vSrc0 = g.vSrc0.setWidth 32
  src1 : f.vSrc1 = g.vSrc1.setWidth 32

namespace Narrows

variable {g : FuncInstr 64} {f : FuncInstr 32}

theorem addition (h : Narrows g f) : ((Executor.riscvAddition 32).run g).vDst0
    = ((Executor.riscvAddition 32).run f).vDst0.signExtend 64 := by
  simp only [Executor.run, setDst, BitVec.setWidth_eq, signExtension_self]
  refine signExtension_eq_signExtend ?_
  rw [h.src0, h.src1, BitVec.setWidth_setWidth_of_le _ (by decide), BitVec.setWidth_eq]

theorem subtraction (h : Narrows g f) : ((Executor.riscvSubtraction 32).run g).vDst0
    = ((Executor.riscvSubtraction 32).run f).vDst0.signExtend 64 := by
  simp only [Executor.run, setDst, BitVec.setWidth_eq, signExtension_self]
  refine signExtension_eq_signExtend ?_
  rw [h.src0, h.src1, setWidth_setWidth_of_ge (by decide), BitVec.setWidth_eq]

theorem additionImm (h : Narrows g f) (himm : g.vImm.setWidth 32 = f.vImm) :
    ((Executor.riscvAdditionImm 32).run g).vDst0
      = ((Executor.riscvAdditionImm 32).run f).vDst0.signExtend 64 := by
  simp only [Executor.run, setDst, BitVec.setWidth_eq, signExtension_self]
  refine signExtension_eq_signExtend ?_
  rw [h.src0, ← himm, BitVec.setWidth_add _ _ (by decide)]

theorem shl (h : Narrows g f) (n : ℕ) : signExtension 32 (lowPart g 32 <<< n)
    = (signExtension 32 (lowPart f 32 <<< n)).signExtend 64 := by
  have hlow : lowPart f 32 = lowPart g.narrow 32 := by rw [lowPart, h.src0]; rfl
  rw [hlow]
  exact eq_signExtend (signExtended_signExtension _) (setWidth_shl n)

theorem shr (h : Narrows g f) (n : ℕ) : signExtension 32 (lowPart g 32 >>> n)
    = (signExtension 32 (lowPart f 32 >>> n)).signExtend 64 := by
  have hlow : lowPart f 32 = lowPart g.narrow 32 := by rw [lowPart, h.src0]; rfl
  rw [hlow]
  exact eq_signExtend (signExtended_signExtension _) (setWidth_shr n)

theorem arithmetic (h : Narrows g f) (n : ℕ) : arithmeticRs (signExtension 32 g.vSrc0) n
    = (arithmeticRs (signExtension 32 f.vSrc0) n).signExtend 64 := by
  rw [h.src0]
  exact eq_signExtend (signExtended_sra _ n) (setWidth_sra n)

theorem shamtVSrc2_eq (h : Narrows g f) : shamtVSrc2 f 32 = shamtVSrc2 g 32 := by
  rw [← shamtVSrc2_narrow, shamtVSrc2, h.src1]
  rfl

theorem sll (h : Narrows g f) (hs : shamtImm f = shamtImm g) :
    ((Executor.sll 32).run g).vDst0 = ((Executor.sll 32).run f).vDst0.signExtend 64 := by
  simp only [Executor.run, setDst, BitVec.setWidth_eq]
  rw [hs, h.shl]

theorem srl (h : Narrows g f) (hs : shamtImm f = shamtImm g) :
    ((Executor.srl 32).run g).vDst0 = ((Executor.srl 32).run f).vDst0.signExtend 64 := by
  simp only [Executor.run, setDst, BitVec.setWidth_eq]
  rw [hs, h.shr]

theorem sra (h : Narrows g f) (hs : shamtImm f = shamtImm g) :
    ((Executor.sra 32).run g).vDst0 = ((Executor.sra 32).run f).vDst0.signExtend 64 := by
  simp only [Executor.run, setDst, BitVec.setWidth_eq]
  rw [hs, h.arithmetic]

theorem sllv (h : Narrows g f) :
    ((Executor.sllv 32).run g).vDst0 = ((Executor.sllv 32).run f).vDst0.signExtend 64 := by
  simp only [Executor.run, setDst, BitVec.setWidth_eq]
  rw [h.shamtVSrc2_eq, h.shl]

theorem srlv (h : Narrows g f) :
    ((Executor.srlv 32).run g).vDst0 = ((Executor.srlv 32).run f).vDst0.signExtend 64 := by
  simp only [Executor.run, setDst, BitVec.setWidth_eq]
  rw [h.shamtVSrc2_eq, h.shr]

theorem srav (h : Narrows g f) :
    ((Executor.srav 32).run g).vDst0 = ((Executor.srav 32).run f).vDst0.signExtend 64 := by
  simp only [Executor.run, setDst, BitVec.setWidth_eq]
  rw [h.shamtVSrc2_eq, h.arithmetic]

end Narrows

/-- The amounts of the register shifts. -/
theorem shamtVSrc2_eq_mod (instr : FuncInstr 64) :
    shamtVSrc2 instr 32 = instr.vSrc1.toNat % 32 := by
  show ((instr.vSrc1.setWidth 64) &&& bitmask 64 5).toNat = _
  rw [and_bitmask]
  simp only [BitVec.toNat_setWidth]
  omega

end Results

section Simulation

variable (op : WordOperation) (instr : FuncInstr 64)

/-- For every operand pair and every immediate that a word can hold: the result is the narrow one,
sign-extended. -/
theorem word_operations : ∃ e64 e32, entryOf 64 op.mnemonic = some e64
    ∧ entryOf 32 op.narrowMnemonic = some e32
    ∧ (∀ bytes : BitVec 32,
      let field := getImmediateValue bytes e64.immediateType
      let wide := { instr with vImm := getImmediate 64 e64.immediateType field }
      let narrow := { instr.narrow with vImm := getImmediate 32 e32.immediateType field }
      (e64.function.run wide).vDst0 = (e32.function.run narrow).vDst0.signExtend 64)
    ∧ shamtVSrc2 instr 32 = instr.vSrc1.toNat % 32 := by
  have hmod := shamtVSrc2_eq_mod instr
  -- the field of five bits is the amount on both widths
  have hshamt : ∀ bytes, shamtImm { instr.narrow with
        vImm := getImmediate 32 .seven (getImmediateValue bytes .five) }
      = shamtImm { instr with vImm := getImmediate 64 .five (getImmediateValue bytes .five) } := by
    intro bytes
    obtain ⟨h64, h32⟩ := toNat_shamt (toNat_five_lt bytes)
    rw [shamtImm, shamtImm, BitVec.toNat_setWidth, BitVec.toNat_setWidth, h64, h32]
  cases op with
  | addw => exact ⟨_, _, rfl, rfl, fun bytes => Narrows.addition ⟨rfl, rfl⟩, hmod⟩
  | subw => exact ⟨_, _, rfl, rfl, fun bytes => Narrows.subtraction ⟨rfl, rfl⟩, hmod⟩
  | addiw =>
    exact ⟨_, _, rfl, rfl, fun bytes => Narrows.additionImm ⟨rfl, rfl⟩ (setWidth_arith _), hmod⟩
  | sllw => exact ⟨_, _, rfl, rfl, fun bytes => Narrows.sllv ⟨rfl, rfl⟩, hmod⟩
  | srlw => exact ⟨_, _, rfl, rfl, fun bytes => Narrows.srlv ⟨rfl, rfl⟩, hmod⟩
  | sraw => exact ⟨_, _, rfl, rfl, fun bytes => Narrows.srav ⟨rfl, rfl⟩, hmod⟩
  | slliw => exact ⟨_, _, rfl, rfl, fun bytes => Narrows.sll ⟨rfl, rfl⟩ (hshamt bytes), hmod⟩
  | srliw => exact ⟨_, _, rfl, rfl, fun bytes => Narrows.srl ⟨rfl, rfl⟩ (hshamt bytes), hmod⟩
  | sraiw => exact ⟨_, _, rfl, rfl, fun bytes => Narrows.sra ⟨rfl, rfl⟩ (hshamt bytes), hmod⟩

end Simulation

end RiscV

end MiptMips
