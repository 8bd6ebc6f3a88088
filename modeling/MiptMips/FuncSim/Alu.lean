import MiptMips.FuncSim.Operation
import MiptMips.FuncSim.AluPrimitives

/-!
# Execution units

The functions of the ALU, each from an instruction with its operands to the instruction with its
result, and `execute`, which runs the unit that the decoder chose.
-/

namespace MiptMips

namespace Alu

variable {w : ℕ} (instr : FuncInstr w)

section Operands

def shamtImm : ℕ := (instr.vImm.setWidth 64).toNat

def shamtImm32 : ℕ := shamtImm instr + 32

def shamtVSrc2 (T : ℕ) : ℕ := (instr.vSrc1.setWidth 64 &&& bitmask 64 (logBitwidth T)).toNat

/-- Writes the first result; a result of a narrower type is extended by zeroes. -/
def setDst {T : ℕ} (value : BitVec T) : FuncInstr w := { instr with vDst0 := value.setWidth w }

def setBoth {T : ℕ} (value : BitVec T × BitVec T) : FuncInstr w :=
  { instr with vDst0 := value.1.setWidth w, vDst1 := value.2.setWidth w }

def holds : Predicate → Bool
  | .lez => instr.vSrc0.sle 0#w
  | .gez => (0#w).sle instr.vSrc0
  | .ltz => instr.vSrc0.slt 0#w
  | .gtz => (0#w).slt instr.vSrc0
  | .eq => instr.vSrc0 == instr.vSrc1
  | .ne => instr.vSrc0 != instr.vSrc1
  | .geu => instr.vSrc1.ule instr.vSrc0
  | .ltu => instr.vSrc0.ult instr.vSrc1
  | .ge => instr.vSrc1.sle instr.vSrc0
  | .lt => instr.vSrc0.slt instr.vSrc1
  | .eqi => instr.vSrc0 == instr.vImm
  | .nei => instr.vSrc0 != instr.vImm
  | .lti => instr.vSrc0.slt instr.vImm
  | .gei => instr.vImm.sle instr.vSrc0
  | .ltiu => instr.vSrc0.ult instr.vImm
  | .geiu => instr.vImm.ule instr.vSrc0

end Operands

section Addresses

def addr : FuncInstr w := { instr with memAddr := (instr.vSrc0 + instr.vImm).setWidth 64 }

def loadAddr : FuncInstr w := addr instr

def storeAddr : FuncInstr w := { addr instr with mask := bitmask w (instr.memSize * 8) }

/-- The access is not at a multiple of its size. -/
def misaligned : Bool := instr.memAddr.toNat % instr.memSize != 0

/-- The mask of the bytes from the address up to the end of its word. -/
def rightMask : BitVec w := (bitmask 32 ((4 - instr.memAddr.toNat % 4) * 8)).setWidth w

/-- The mask of the bytes from the start of the word up to the address. -/
def leftMask : BitVec w :=
  bitmask w ((1 + instr.memAddr.toNat % 4) * 8) <<< ((3 - instr.memAddr.toNat % 4) * 8)

def loadAddrAligned : FuncInstr w :=
  let instr := loadAddr instr
  if misaligned instr then { instr with trap := .unalignedLoad } else instr

def loadAddrRight32 : FuncInstr w :=
  let instr := loadAddr instr
  { instr with mask := rightMask instr }

def loadAddrLeft32 : FuncInstr w :=
  let instr := loadAddr instr
  { instr with mask := leftMask instr, memAddr := instr.memAddr - 3#64 }

def storeAddrAligned : FuncInstr w :=
  let instr := storeAddr instr
  if misaligned instr then { instr with trap := .unalignedStore } else instr

def storeAddrRight32 : FuncInstr w :=
  let instr := storeAddr instr
  { instr with mask := rightMask instr }

def storeAddrLeft32 : FuncInstr w :=
  let instr := storeAddr instr
  { instr with mask := leftMask instr, memAddr := instr.memAddr - 3#64 }

end Addresses

section Arithmetic

def overflowOr {T : ℕ} (res : BitVec T × Bool) : FuncInstr w :=
  if res.2 then { instr with trap := .integerOverflow } else setDst instr res.1

def bitFieldPlace : FuncInstr w :=
  let src1 := (instr.vSrc1.setWidth 64).toNat
  let len := if (src1 >>> 24) &&& 15 > 0 then (src1 >>> 24) &&& 15 else 16
  let off := (src1 >>> 16) &&& (w - 1)
  let mask := bitmask w len <<< off
  let data := instr.vSrc1 <<< off
  setDst instr ((data &&& mask) ||| (instr.vSrc0 &&& ~~~mask))

def move : FuncInstr w := setDst instr instr.vSrc0

/-- A conditional move that is not taken writes under an empty mask. -/
def moveUnless (cond : Bool) : FuncInstr w :=
  if cond then { move instr with mask := 0#w } else move instr

/-- The operand cut to `T` bits, in place. -/
def lowPart (T : ℕ) : BitVec w := instr.vSrc0 &&& (allOnes T).setWidth w

end Arithmetic

section Control

def checkHaltTrap : FuncInstr w :=
  if instr.newPC = 0#64 ∨ instr.newPC = instr.PC then { instr with trap := .halt } else instr

def jumpTo (target : Addr) : FuncInstr w :=
  checkHaltTrap { instr with isTakenBranch := true, newPC := target }

def jr : FuncInstr w :=
  let instr := if instr.vSrc0.toNat % 4 ≠ 0 then { instr with trap := .unalignedFetch } else instr
  jumpTo instr ((alignUp 2 instr.vSrc0).setWidth 64)

def jump : Jump → FuncInstr w
  | .j => jumpTo instr instr.target
  | .jr => jr instr
  | .riscvJr => jumpTo instr ((instr.vSrc0 + instr.vImm).setWidth 64)

def branch (p : Predicate) : FuncInstr w :=
  if holds instr p then
    checkHaltTrap { instr with isTakenBranch := true, newPC := instr.target }
  else { instr with isTakenBranch := false }

def link : FuncInstr w := setDst instr instr.newPC

def jumpAndLink (kind : Jump) : FuncInstr w := jump (link instr) kind

def branchAndLink (p : Predicate) : FuncInstr w := branch (link instr) p

def eret : FuncInstr w :=
  let instr := jumpTo instr (instr.vSrc0.setWidth 64)
  { instr with vDst0 := instr.vDst0 &&& (instr.vSrc1 &&& (~~~4#32).setWidth w) }

end Control

end Alu

open Alu in
/-- What each execution unit does. -/
def Executor.run {w : ℕ} (e : Executor) (instr : FuncInstr w) : FuncInstr w :=
  match e with
  | doNothing => instr
  | move => Alu.move instr
  | set p => setDst instr (if holds instr p then 1#w else 0#w)
  | addr => Alu.addr instr
  | loadAddr => Alu.loadAddr instr
  | storeAddr => Alu.storeAddr instr
  | loadAddrAligned => Alu.loadAddrAligned instr
  | loadAddrRight32 => Alu.loadAddrRight32 instr
  | loadAddrLeft32 => Alu.loadAddrLeft32 instr
  | storeAddrAligned => Alu.storeAddrAligned instr
  | storeAddrRight32 => Alu.storeAddrRight32 instr
  | storeAddrLeft32 => Alu.storeAddrLeft32 instr
  | addition T => setDst instr (instr.vSrc0.setWidth T + instr.vSrc1.setWidth T)
  | subtraction T => setDst instr (instr.vSrc0.setWidth T - instr.vSrc1.setWidth T)
  | riscvAddition T =>
    setDst instr (signExtension T ((instr.vSrc0.setWidth T + instr.vSrc1.setWidth T).setWidth w))
  | riscvSubtraction T =>
    setDst instr (signExtension T ((instr.vSrc0.setWidth T - instr.vSrc1.setWidth T).setWidth w))
  | additionImm T => setDst instr (instr.vSrc0.setWidth T + instr.vImm.setWidth T)
  | riscvAdditionImm T => setDst instr (signExtension T (instr.vSrc0 + instr.vImm))
  | additionOverflow T => overflowOr instr (testAdditionOverflow T instr.vSrc0 instr.vSrc1)
  | additionOverflowImm T => overflowOr instr (testAdditionOverflow T instr.vSrc0 instr.vImm)
  | subtractionOverflow T => overflowOr instr (testSubtractionOverflow T instr.vSrc0 instr.vSrc1)
  | sll T => setDst instr (signExtension T (lowPart instr T <<< shamtImm instr))
  | srl T => setDst instr (signExtension T (lowPart instr T >>> shamtImm instr))
  | sra T => setDst instr (arithmeticRs (signExtension T instr.vSrc0) (shamtImm instr))
  | sllv T => setDst instr (signExtension T (lowPart instr T <<< shamtVSrc2 instr T))
  | srlv T => setDst instr (signExtension T (lowPart instr T >>> shamtVSrc2 instr T))
  | srav T => setDst instr (arithmeticRs (signExtension T instr.vSrc0) (shamtVSrc2 instr T))
  | slo T => setDst instr (onesLs (signExtension T instr.vSrc0) (shamtVSrc2 instr T))
  | sloi T => setDst instr (onesLs (signExtension T instr.vSrc0) (shamtImm instr))
  | sro T => setDst instr (onesRs instr.vSrc0 (shamtVSrc2 instr T))
  | sroi => setDst instr (onesRs instr.vSrc0 (shamtImm instr))
  | rol => setDst instr (circLs (signExtension w instr.vSrc0) (shamtVSrc2 instr w))
  | ror => setDst instr (circRs (signExtension w instr.vSrc0) (shamtVSrc2 instr w))
  | rori => setDst instr (circRs (signExtension w instr.vSrc0) (shamtImm instr))
  | dsll32 => setDst instr (instr.vSrc0 <<< shamtImm32 instr)
  | dsrl32 => setDst instr (instr.vSrc0 >>> shamtImm32 instr)
  | dsra32 => setDst instr (arithmeticRs instr.vSrc0 (shamtImm32 instr))
  | upperImmediate N => setDst instr (instr.vImm <<< N)
  | auipc => setDst instr ((instr.vImm <<< 12) + instr.PC.setWidth w)
  | clo T => setDst instr (BitVec.ofNat w (countLeadingOnes (instr.vSrc0.setWidth T)))
  | clz T => setDst instr (BitVec.ofNat w (countLeadingZeroes (instr.vSrc0.setWidth T)))
  | ctz T => setDst instr (BitVec.ofNat w (countTrailingZeroes (instr.vSrc0.setWidth T)))
  | pcnt T => setDst instr (BitVec.ofNat T (popcount instr.vSrc0))
  | andv => setDst instr (instr.vSrc0 &&& instr.vSrc1)
  | orv => setDst instr (instr.vSrc0 ||| instr.vSrc1)
  | xorv => setDst instr (instr.vSrc0 ^^^ instr.vSrc1)
  | nor => setDst instr (~~~(instr.vSrc0 ||| instr.vSrc1))
  | andi => setDst instr (instr.vSrc0 &&& instr.vImm)
  | ori => setDst instr (instr.vSrc0 ||| instr.vImm)
  | xori => setDst instr (instr.vSrc0 ^^^ instr.vImm)
  | orn => setDst instr (instr.vSrc0 ||| ~~~instr.vSrc1)
  | xnor => setDst instr (instr.vSrc0 ^^^ ~~~instr.vSrc1)
  | grev => setDst instr (genReverse instr.vSrc0 (shamtVSrc2 instr w))
  | riscvUnshfl => setDst instr (unshuffle instr.vSrc0 instr.vSrc1)
  | riscvShfl => setDst instr (shuffle instr.vSrc0 instr.vSrc1)
  | gorc T => setDst instr (genOrCombine instr.vSrc0 (shamtVSrc2 instr T))
  | gorci => setDst instr (genOrCombine instr.vSrc0 (shamtImm instr))
  | movn => moveUnless instr (instr.vSrc1 == 0#w)
  | movz => moveUnless instr (instr.vSrc1 != 0#w)
  | sbinv T => setDst instr (instr.vSrc0 ^^^ (lsbSet T <<< shamtVSrc2 instr T).setWidth w)
  | sbext T => setDst instr (1#w &&& (instr.vSrc0 >>> shamtVSrc2 instr T))
  | max => setDst instr (if holds instr .ge then instr.vSrc0 else instr.vSrc1)
  | maxu => setDst instr (if instr.vSrc0 < instr.vSrc1 then instr.vSrc1 else instr.vSrc0)
  | min => setDst instr (if holds instr .lt then instr.vSrc0 else instr.vSrc1)
  | minu => setDst instr (if instr.vSrc1 < instr.vSrc0 then instr.vSrc1 else instr.vSrc0)
  | clmul T => setDst instr (carrylessMul T instr.vSrc0 instr.vSrc1)
  | pack T =>
    setDst instr ((instr.vSrc0 &&& (bitmask T (T / 2)).setWidth w) ||| (instr.vSrc1 <<< (T / 2)))
  | packu T =>
    setDst instr ((instr.vSrc0 >>> (T / 2)) |||
      (instr.vSrc1 &&& (bitmask T (T / 2) <<< (T / 2)).setWidth w))
  | bitFieldPlace => Alu.bitFieldPlace instr
  | branch p => Alu.branch instr p
  | branchAndLink p => Alu.branchAndLink instr p
  | jump kind => Alu.jump instr kind
  | jumpAndLink kind => Alu.jumpAndLink instr kind
  | eret => Alu.eret instr
  | breakpoint => { instr with trap := .breakpoint }
  | syscall => { instr with trap := .syscall }
  | haltTrap => { instr with trap := .halt }
  | trap p => if holds instr p then { instr with trap := .explicitTrap } else instr
  | unknownInstruction => { instr with trap := .unknownInstruction }
  | csrrw => { instr with vDst0 := instr.vSrc0, vDst1 := instr.vSrc1 }
  | csrrs => { instr with mask := instr.vSrc0, vDst0 := allOnes w, vDst1 := instr.vSrc1 }
  | csrrwi => { instr with vDst0 := instr.vImm, vDst1 := instr.vSrc1 }
  | multHUu T =>
    setDst instr (riscvMultiplicationHighUu (instr.vSrc0.setWidth T) (instr.vSrc1.setWidth T))
  | multHSs T =>
    setDst instr (riscvMultiplicationHighSs (instr.vSrc0.setWidth T) (instr.vSrc1.setWidth T))
  | multHSu T =>
    setDst instr (riscvMultiplicationHighSu (instr.vSrc0.setWidth T) (instr.vSrc1.setWidth T))
  | multL T =>
    setDst instr (riscvMultiplicationLow (instr.vSrc0.setWidth T) (instr.vSrc1.setWidth T))
  | div T signed =>
    setDst instr (riscvDivision signed (instr.vSrc0.setWidth T) (instr.vSrc1.setWidth T))
  | rem T signed =>
    setDst instr (riscvRemainder signed (instr.vSrc0.setWidth T) (instr.vSrc1.setWidth T))
  | multiplication T signed =>
    setBoth instr (mipsMultiplication signed (instr.vSrc0.setWidth T) (instr.vSrc1.setWidth T))
  | division T signed =>
    setBoth instr (mipsDivision signed (instr.vSrc0.setWidth T) (instr.vSrc1.setWidth T))

namespace Alu

variable {w : ℕ} {f : FuncInstr w}

@[simp]
theorem newPC_checkHaltTrap : (checkHaltTrap f).newPC = f.newPC := by
  unfold checkHaltTrap
  split_ifs <;> rfl

@[simp]
theorem isTakenBranch_checkHaltTrap : (checkHaltTrap f).isTakenBranch = f.isTakenBranch := by
  unfold checkHaltTrap
  split_ifs <;> rfl

/-- A jump that is not to an aligned address ends with a trap. -/
theorem aligned_of_jr (h : (jr f).trap = .noTrap) : f.vSrc0.toNat % 4 = 0 := by
  by_contra hne
  unfold jr jumpTo checkHaltTrap at h
  rw [if_pos hne] at h
  dsimp only at h
  split_ifs at h

theorem jr_of_aligned (hw : 2 ≤ w) (h : f.vSrc0.toNat % 4 = 0) :
    jr f = jumpTo f (f.vSrc0.setWidth 64) := by
  have hn : ¬ f.vSrc0.toNat % 4 ≠ 0 := fun hne => hne h
  unfold jr
  rw [if_neg hn]
  dsimp only
  rw [alignUp_eq hw h]

end Alu

section Frame

variable {w : ℕ} {f g h : FuncInstr w}

/-- All that an execution unit may change. -/
def Executed (f g : FuncInstr w) : Prop := ∃ trap memAddr isTakenBranch newPC vDst0 vDst1 mask,
  g = { f with
    trap := trap, memAddr := memAddr, isTakenBranch := isTakenBranch, newPC := newPC
    vDst0 := vDst0, vDst1 := vDst1, mask := mask }

theorem Executed.trans (hfg : Executed f g) (hgh : Executed g h) : Executed f h := by
  obtain ⟨_, _, _, _, _, _, _, rfl⟩ := hfg
  obtain ⟨_, _, _, _, _, _, _, rfl⟩ := hgh
  exact ⟨_, _, _, _, _, _, _, rfl⟩

theorem executed_refl : Executed f f := ⟨_, _, _, _, _, _, _, rfl⟩

namespace Alu

theorem executed_setDst {T : ℕ} (value : BitVec T) : Executed f (setDst f value) :=
  ⟨_, _, _, _, _, _, _, rfl⟩

theorem executed_overflowOr {T : ℕ} (res : BitVec T × Bool) : Executed f (overflowOr f res) := by
  unfold overflowOr
  split_ifs
  · exact ⟨_, _, _, _, _, _, _, rfl⟩
  · exact executed_setDst _

theorem executed_moveUnless (cond : Bool) : Executed f (moveUnless f cond) := by
  unfold moveUnless
  split_ifs <;> exact ⟨_, _, _, _, _, _, _, rfl⟩

theorem executed_checkHaltTrap : Executed f (checkHaltTrap f) := by
  unfold checkHaltTrap
  split_ifs <;> exact ⟨_, _, _, _, _, _, _, rfl⟩

theorem executed_jumpTo (target : Addr) : Executed f (jumpTo f target) :=
  .trans ⟨_, _, _, _, _, _, _, rfl⟩ executed_checkHaltTrap

theorem executed_jump (kind : Jump) : Executed f (jump f kind) := by
  cases kind with
  | j => exact executed_jumpTo _
  | jr =>
    show Executed f (jr f)
    unfold jr
    split_ifs
    · exact .trans ⟨_, _, _, _, _, _, _, rfl⟩ (executed_jumpTo _)
    · exact executed_jumpTo _
  | riscvJr => exact executed_jumpTo _

theorem executed_branch (p : Predicate) : Executed f (branch f p) := by
  unfold branch
  split_ifs
  · exact .trans ⟨_, _, _, _, _, _, _, rfl⟩ executed_checkHaltTrap
  · exact ⟨_, _, _, _, _, _, _, rfl⟩

theorem executed_loadAddrAligned : Executed f (loadAddrAligned f) := by
  unfold loadAddrAligned
  dsimp only
  split_ifs <;> exact ⟨_, _, _, _, _, _, _, rfl⟩

theorem executed_storeAddrAligned : Executed f (storeAddrAligned f) := by
  unfold storeAddrAligned
  dsimp only
  split_ifs <;> exact ⟨_, _, _, _, _, _, _, rfl⟩

end Alu

/-- No unit changes what was decoded or read. -/
theorem executed_run (e : Executor) : Executed f (e.run f) := by
  cases e with
  | doNothing => exact executed_refl
  | additionOverflow T => exact Alu.executed_overflowOr _
  | additionOverflowImm T => exact Alu.executed_overflowOr _
  | subtractionOverflow T => exact Alu.executed_overflowOr _
  | movn => exact Alu.executed_moveUnless _
  | movz => exact Alu.executed_moveUnless _
  | loadAddrAligned => exact Alu.executed_loadAddrAligned
  | storeAddrAligned => exact Alu.executed_storeAddrAligned
  | branch p => exact Alu.executed_branch p
  | branchAndLink p => exact (Alu.executed_setDst _).trans (Alu.executed_branch p)
  | jump kind => exact Alu.executed_jump kind
  | jumpAndLink kind => exact (Alu.executed_setDst _).trans (Alu.executed_jump kind)
  | eret => exact (Alu.executed_jumpTo _).trans ⟨_, _, _, _, _, _, _, rfl⟩
  | trap p =>
    unfold Executor.run
    dsimp only
    split_ifs
    · exact ⟨_, _, _, _, _, _, _, rfl⟩
    · exact executed_refl
  | _ => exact ⟨_, _, _, _, _, _, _, rfl⟩

end Frame

namespace FuncInstr

def execute {w : ℕ} (instr : FuncInstr w) : FuncInstr w :=
  { instr.executor.run instr with complete := true }

end FuncInstr

end MiptMips
