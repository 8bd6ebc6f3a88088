import MiptMips.Modules.PerfInstr

/-!
# The bypassing unit

A scoreboard with, for each register, the stage that its last producer is in, and the latency that
the last instruction still has to go before it writes back. It tells Decode where the value of a
source is: in the register file, on one of the bypass ports, or nowhere yet.
-/

namespace MiptMips

variable {w : ℕ}

/-- A stage of the pipeline: its place, and the bypass port that it writes to. -/
structure RegisterStage where
  bypassDirection : ℕ := 0
  value : ℕ := 255
  deriving DecidableEq

namespace RegisterStage

def inRFStage : ℕ := 255

def memOrBranchStage : ℕ := inRFStage - 2

def wbStage : ℕ := inRFStage - 1

variable (stage : RegisterStage)

def inc : RegisterStage := { stage with value := stage.value + 1 }

def setToStage (v : ℕ) : RegisterStage := { stage with value := v }

def setToFirstExecutionStage : RegisterStage := { stage.setToStage 0 with bypassDirection := 0 }

def setToMemStage : RegisterStage :=
  { stage.setToStage memOrBranchStage with bypassDirection := 2 }

def setToWriteback : RegisterStage := { stage.setToStage wbStage with bypassDirection := 3 }

def setToBranchStage : RegisterStage :=
  { stage.setToStage memOrBranchStage with bypassDirection := 4 }

def setToInRF : RegisterStage := stage.setToStage inRFStage

def isSameStage (v : ℕ) : Bool := stage.value == v

def isFirstExecutionStage : Bool := stage.isSameStage 0

def isMemOrBranchStage : Bool := stage.isSameStage memOrBranchStage

def isWriteback : Bool := stage.isSameStage wbStage

def isInRF : Bool := stage.isSameStage inRFStage

end RegisterStage

/-- `==` of stages looks at their places alone. -/
def sameStage (x y : RegisterStage) : Bool := x.isSameStage y.value

structure BypassCommand where
  bypassingStage : RegisterStage
  lastExecutionStage : ℕ
  deriving DecidableEq

/-- The index of the port the data is on. -/
def BypassCommand.getBypassDirection (command : BypassCommand) : ℕ :=
  if command.bypassingStage.isSameStage command.lastExecutionStage then 1
  else command.bypassingStage.bypassDirection

structure RegisterInfo where
  currentStage : RegisterStage := {}
  readyStage : RegisterStage := {}
  nextStageAfterFirstExecutionStage : RegisterStage := {}
  isBypassible : Bool := false
  isTraced : Bool := false
  deriving DecidableEq

namespace RegisterInfo

def setNextStageAfterFirstExecutionStage (entry : RegisterInfo) (instr : PerfInstr w) :
    RegisterInfo :=
  let stage := entry.nextStageAfterFirstExecutionStage
  { entry with
    nextStageAfterFirstExecutionStage :=
      if instr.isLongArithmetic then stage.setToFirstExecutionStage.inc
      else if instr.isBranchStageRequired then stage.setToBranchStage
      else if instr.isMemStageRequired then stage.setToMemStage
      else stage.setToWriteback }

end RegisterInfo

structure DataBypass where
  longAluLatency : ℕ
  scoreboard : ℕ → RegisterInfo := fun _ => {}
  operationLatency : ℕ := 0
  writebackBandwidth : ℕ := 1

namespace DataBypass

variable (unit : DataBypass)

def getEntry (num : Register) : RegisterInfo := unit.scoreboard num.toRfIndex

section Query

attribute [local instance] FuncInstr.sources_ne_zero

variable (instr : PerfInstr w) (index : Fin 2)

def isInRF : Bool := (unit.getEntry (instr.getSrc index)).currentStage.isInRF

def isBypassible : Bool := (unit.getEntry (instr.getSrc index)).isBypassible

def getInstructionLatency : ℕ :=
  if instr.isMemStageRequired || instr.isBranchStageRequired then 2
  else if instr.isLongArithmetic then unit.longAluLatency
  else 1

def isStall : Bool :=
  (!unit.isInRF instr 0 && !unit.isBypassible instr 0)
    || (!unit.isInRF instr 1 && !unit.isBypassible instr 1)
    || (unit.getInstructionLatency instr < unit.operationLatency
      && unit.writebackBandwidth < unit.operationLatency)

def getBypassCommand : BypassCommand :=
  ⟨(unit.getEntry (instr.getSrc index)).currentStage, unit.longAluLatency - 1⟩

end Query

section Trace

variable (instr : PerfInstr w)

def setEntry (num : Register) (entry : RegisterInfo) : DataBypass :=
  { unit with
    scoreboard := fun i => if i = num.toRfIndex then entry else unit.scoreboard i }

/-- The stage where the first destination gets its value. -/
def readyStageOf (stage : RegisterStage) : RegisterStage :=
  let stage :=
    if instr.isLongArithmetic then stage.setToStage (unit.longAluLatency - 1)
    else if instr.isJump then stage.setToBranchStage
    else if instr.isLoad then stage.setToMemStage
    else stage.setToFirstExecutionStage
  if instr.isBypassible then stage else stage.setToInRF

def traceNewDstRegister (num : Register) : DataBypass :=
  let entry := unit.getEntry num
  let entry := { entry with currentStage := entry.currentStage.setToFirstExecutionStage }
  let entry := entry.setNextStageAfterFirstExecutionStage instr
  let entry := { entry with readyStage := unit.readyStageOf instr entry.readyStage }
  unit.setEntry num
    { entry with
      isBypassible := sameStage entry.currentStage entry.readyStage
      isTraced := true }

def traceNewDst2Register (num : Register) : DataBypass :=
  let entry := unit.getEntry num
  let entry := { entry with currentStage := entry.currentStage.setToFirstExecutionStage }
  let entry := entry.setNextStageAfterFirstExecutionStage instr
  unit.setEntry num { entry with readyStage := entry.readyStage.setToInRF, isTraced := true }

def traceNewInstr : DataBypass :=
  let unit := { unit with operationLatency := unit.getInstructionLatency instr }
  let unit := if instr.dst0.isZero then unit else unit.traceNewDstRegister instr instr.dst0
  if instr.dst1.isZero then unit else unit.traceNewDst2Register instr instr.dst1

end Trace

section Update

def updateEntry (entry : RegisterInfo) : RegisterInfo :=
  if !entry.isTraced then entry
  else if entry.currentStage.isWriteback then {}
  else
    let stage :=
      if entry.currentStage.isFirstExecutionStage then entry.nextStageAfterFirstExecutionStage
      else if entry.currentStage.isSameStage (unit.longAluLatency - 1)
          || entry.currentStage.isMemOrBranchStage then entry.currentStage.setToWriteback
      else entry.currentStage.inc
    { entry with
      currentStage := stage
      isBypassible := entry.isBypassible || sameStage stage entry.readyStage }

def update : DataBypass :=
  { unit with
    scoreboard := fun i => unit.updateEntry (unit.scoreboard i)
    operationLatency := unit.operationLatency - 1 }

def handleFlush : DataBypass :=
  { unit with
    scoreboard := fun i => if (unit.scoreboard i).isTraced then {} else unit.scoreboard i
    operationLatency := 0 }

end Update

end DataBypass

end MiptMips
