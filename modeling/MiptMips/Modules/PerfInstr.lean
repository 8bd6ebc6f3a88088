import MiptMips.FuncSim.Alu
import MiptMips.FuncSim.Rf
import MiptMips.Modules.Bpu

/-!
# Instructions of the performance simulator

An instruction together with the prediction it was fetched with, and the targets the stages send
to each other. A target that is not valid is no target: it is `none` wherever one is optional.
-/

namespace MiptMips

variable {w : ℕ}

structure Target where
  address : Addr
  sequenceId : BitVec 64
  deriving DecidableEq

namespace FuncInstr

def getSrc (instr : FuncInstr w) (index : Fin 2) : Register :=
  if index = 0 then instr.src0 else instr.src1

/-- The sources are numbered from zero. A local instance of the stages that name one by its
number. -/
theorem sources_ne_zero : NeZero 2 := ⟨by decide⟩

def vSrc (instr : FuncInstr w) (index : Fin 2) : BitVec w :=
  if index = 0 then instr.vSrc0 else instr.vSrc1

def setVSrc (instr : FuncInstr w) (value : BitVec w) (index : Fin 2) : FuncInstr w :=
  if index = 0 then { instr with vSrc0 := value } else { instr with vSrc1 := value }

def vDst (instr : FuncInstr w) : BitVec w × BitVec w := (instr.vDst0, instr.vDst1)

end FuncInstr

structure PerfInstr (w : ℕ) extends FuncInstr w where
  bpData : BPInterface

namespace PerfInstr

variable (instr : PerfInstr w)

/-- The same prediction, on another state of the instruction. -/
def withInstr (f : FuncInstr w) : PerfInstr w := { instr with toFuncInstr := f }

def getBpUpdAddress : Addr := if instr.isIndirectJump then instr.newPC else instr.target

def getPredictedTarget : Target := ⟨instr.bpData.target, instr.sequenceId + 1⟩

def getActualTarget : Target := ⟨instr.newPC, instr.sequenceId + 1⟩

def getActualDecodedTarget : Target := ⟨instr.target, instr.sequenceId + 1⟩

def getBpUpd : BPInterface := ⟨instr.PC, instr.isTaken, instr.getBpUpdAddress, true⟩

def isBypassible : Bool :=
  !instr.isConditionalMove && !instr.isPartialLoad && instr.getAccumulationType == 0

def isLongArithmetic : Bool := instr.isDivmult

def isMemStageRequired : Bool := instr.isLoad || instr.isStore || instr.isExplicitTrap

def isBranchStageRequired : Bool := instr.isJump

end PerfInstr

end MiptMips
