import MiptMips.FuncSim.Trap
import MiptMips.Infra.Endian

/-!
# Instructions

`FuncInstr w` is an instruction over registers of `w` bits with everything the simulators read
from it: the decoded fields, the operand and result values, the trap, the program counters and the
word it was decoded from. The function pointer to the execution unit is an `Executor`, a name for
one function of the ALU with its template arguments; what the names mean is in the ALU modules.

Fields that only the disassembler reads, and the third source operand, which no execution unit
reads, are left out.
-/

namespace MiptMips

/-- Register numbers of both instruction sets, by their index in the register file. -/
inductive Register where
  | mips (value : ℕ)
  | riscv (value : ℕ)
  deriving DecidableEq, Repr

namespace Register

def toRfIndex : Register → ℕ
  | mips value => value
  | riscv value => value

def isZero (num : Register) : Bool := num.toRfIndex == 0

def isMipsLo : Register → Bool
  | mips value => value == 33
  | riscv _ => false

end Register

inductive OperationType where
  | outArithm
  | outDivmult
  | outRAccum
  | outRCondm
  | outRJump
  | outSyscall
  | outBreak
  | outRSubtr
  | outBranch
  | outBranchLikely
  | outTrap
  | outLoad
  | outLoadu
  | outPartialLoad
  | outStore
  | outJJump
  | outJSpecial
  | outFpu
  | outUnknown
  deriving DecidableEq, Repr

/-- The predicates that `set`, `branch` and `trap` take as template arguments. -/
inductive Predicate where
  | lez | gez | ltz | gtz
  | eq | ne | geu | ltu | ge | lt
  | eqi | nei | lti | gei | ltiu | geiu
  deriving DecidableEq, Repr

/-- The jumps that `jump_and_link` takes as a template argument. -/
inductive Jump where
  | j | jr | riscvJr
  deriving DecidableEq, Repr

/-- The execution units. A type argument of a unit is the width of that type, followed by its
signedness where the unit takes signed types too. -/
inductive Executor where
  | doNothing
  | move
  | set (p : Predicate)
  | addr | loadAddr | storeAddr
  | loadAddrAligned | loadAddrRight32 | loadAddrLeft32
  | storeAddrAligned | storeAddrRight32 | storeAddrLeft32
  | addition (T : ℕ) | subtraction (T : ℕ)
  | riscvAddition (T : ℕ) | riscvSubtraction (T : ℕ)
  | additionImm (T : ℕ) | riscvAdditionImm (T : ℕ)
  | additionOverflow (T : ℕ) | additionOverflowImm (T : ℕ) | subtractionOverflow (T : ℕ)
  | sll (T : ℕ) | srl (T : ℕ) | sra (T : ℕ) | sllv (T : ℕ) | srlv (T : ℕ) | srav (T : ℕ)
  | slo (T : ℕ) | sloi (T : ℕ) | sro (T : ℕ) | sroi
  | rol | ror | rori
  | dsll32 | dsrl32 | dsra32
  | upperImmediate (N : ℕ) | auipc
  | clo (T : ℕ) | clz (T : ℕ) | ctz (T : ℕ) | pcnt (T : ℕ)
  | andv | orv | xorv | nor | andi | ori | xori | orn | xnor
  | grev | riscvUnshfl | riscvShfl | gorc (T : ℕ) | gorci
  | movn | movz
  | sbinv (T : ℕ) | sbext (T : ℕ)
  | max | maxu | min | minu
  | clmul (T : ℕ) | pack (T : ℕ) | packu (T : ℕ) | bitFieldPlace
  | branch (p : Predicate) | branchAndLink (p : Predicate)
  | jump (kind : Jump) | jumpAndLink (kind : Jump) | eret
  | breakpoint | syscall | haltTrap | trap (p : Predicate) | unknownInstruction
  | csrrw | csrrs | csrrwi
  | multHUu (T : ℕ) | multHSs (T : ℕ) | multHSu (T : ℕ) | multL (T : ℕ)
  | div (T : ℕ) (signed : Bool) | rem (T : ℕ) (signed : Bool)
  | multiplication (T : ℕ) (signed : Bool) | division (T : ℕ) (signed : Bool)
  deriving DecidableEq, Repr

structure FuncInstr (w : ℕ) where
  operation : OperationType := .outUnknown
  trap : Trap := .noTrap
  memAddr : Addr := NO_VAL32.setWidth 64
  memSize : ℕ := NO_VAL32.toNat
  delayedSlots : ℕ := 0
  isTakenBranch : Bool := false
  PC : Addr
  newPC : Addr
  target : Addr := NO_VAL32.setWidth 64
  sequenceId : BitVec 64 := NO_VAL64
  vSrc0 : BitVec w := NO_VAL32.setWidth w
  vSrc1 : BitVec w := NO_VAL32.setWidth w
  vDst0 : BitVec w := NO_VAL32.setWidth w
  vDst1 : BitVec w := NO_VAL32.setWidth w
  vImm : BitVec w := NO_VAL32.setWidth w
  mask : BitVec w := allOnes w
  executor : Executor
  complete : Bool := false
  memoryComplete : Bool := false
  src0 : Register
  src1 : Register
  dst0 : Register
  dst1 : Register
  raw : BitVec 32
  endian : Endian
  deriving DecidableEq, Repr

namespace FuncInstr

variable {w : ℕ} (instr : FuncInstr w)

def isDirectJump : Bool := instr.operation == .outJJump

def isCommonBranch : Bool := instr.operation == .outBranch

def isLikelyBranch : Bool := instr.operation == .outBranchLikely

def isBranch : Bool := instr.isCommonBranch || instr.isLikelyBranch

def isIndirectJump : Bool := instr.operation == .outRJump

def isJump : Bool := instr.isDirectJump || instr.isBranch || instr.isIndirectJump

def isTaken : Bool := instr.isDirectJump || instr.isIndirectJump || instr.isTakenBranch

def isPartialLoad : Bool := instr.operation == .outPartialLoad

def isUnsignedLoad : Bool := instr.operation == .outLoadu

def isSignedLoad : Bool := instr.operation == .outLoad

def isLoad : Bool := instr.isUnsignedLoad || instr.isSignedLoad || instr.isPartialLoad

def isStore : Bool := instr.operation == .outStore

def getAccumulationType : ℤ :=
  if instr.operation = .outRAccum then 1 else if instr.operation = .outRSubtr then -1 else 0

def isConditionalMove : Bool := instr.operation == .outRCondm

def isDivmult : Bool := instr.operation == .outDivmult || instr.getAccumulationType != 0

def isExplicitTrap : Bool := instr.operation == .outTrap

def hasTrap : Bool := instr.trap != .noTrap

def signExtensionForLoad (value : BitVec w) : BitVec w := signExtension (8 * instr.memSize) value

def load (value : BitVec w) : FuncInstr w :=
  { instr with
    memoryComplete := true
    vDst0 := if instr.isUnsignedLoad then value else instr.signExtensionForLoad value }

def setSequenceId (id : BitVec 64) : FuncInstr w := { instr with sequenceId := id }

def isSameBytes (bytes : BitVec 32) : Bool := instr.raw == bytes

def isNop : Bool := instr.raw == 0#32

def isSame (rhs : FuncInstr w) : Bool := instr.PC == rhs.PC && instr.isSameBytes rhs.raw

def isSameChecker (rhs : FuncInstr w) : Bool :=
  instr.isSame rhs && instr.sequenceId == rhs.sequenceId
    && (instr.dst0.isZero || instr.vDst0 == rhs.vDst0)
    && (instr.dst1.isZero || instr.vDst1 == rhs.vDst1)

end FuncInstr

/-- The types of the loads. -/
def OperationType.loads : OperationType → Bool
  | outLoad | outLoadu | outPartialLoad => true
  | _ => false

theorem FuncInstr.isLoad_eq {w : ℕ} (instr : FuncInstr w) :
    instr.isLoad = instr.operation.loads := by
  unfold isLoad isUnsignedLoad isSignedLoad isPartialLoad
  cases instr.operation <;> rfl

end MiptMips
