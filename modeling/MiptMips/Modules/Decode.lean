import MiptMips.Modules.DataBypass

/-!
# Decode

Decode takes an instruction from Fetch, or the one that it held back in the last cycle. It checks
the prediction as far as the decoded instruction tells, asks the bypassing unit whether the
instruction can go, and reads the sources that are in the register file.
-/

namespace MiptMips

variable {w : ℕ}

/-- What Decode can read from its ports. -/
structure DecodeIn (w : ℕ) where
  datapath : Option (PerfInstr w)
  stallDatapath : Option (PerfInstr w)
  flush : Bool
  bypassingUnitNotify : Option (PerfInstr w)
  bypassingUnitFlushNotify : Bool
  flushFetch : Bool
  trap : Bool

structure DecodeOut (w : ℕ) where
  datapath : Option (PerfInstr w) := none
  stallDatapath : Option (PerfInstr w) := none
  stall : Bool := false
  commands : Fin 2 → Option BypassCommand := fun _ => none
  bypassingUnitNotify : Option (PerfInstr w) := none
  bpUpdate : Option BPInterface := none
  flushFetch : Bool := false
  flushTarget : Option Target := none

namespace Decode

section Checks

/-- A likely branch that is not in the buffer counts as a misprediction. -/
def isMisprediction (instr : FuncInstr w) (bpData : BPInterface) : Bool :=
  if (instr.isDirectJump || instr.isIndirectJump) && !bpData.isTaken then true
  else if instr.isLikelyBranch && !bpData.isHit then true
  else (instr.isDirectJump || instr.isBranch) && bpData.target != instr.target && bpData.isTaken

end Checks

section Clock

attribute [local instance] FuncInstr.sources_ne_zero

variable (unit : DataBypass) (rf : RF w) (input : DecodeIn w)

/-- The bypassing unit as Decode finds it in a cycle. -/
def clockUnit : DataBypass :=
  let unit := unit.update
  let unit := match input.bypassingUnitNotify with
    | some instr => unit.traceNewInstr instr
    | none => unit
  if input.bypassingUnitFlushNotify || input.trap then unit.handleFlush else unit

def hasFlush : Bool := input.flush || input.flushFetch || input.trap

/-- The instruction that Decode looks at: one that was held back goes first. -/
def readInstr : Option (PerfInstr w) := input.stallDatapath.or input.datapath

def readSource (instr : PerfInstr w) (index : Fin 2) : Except SimException (PerfInstr w) :=
  if unit.isInRF instr index then do
    let value ← rf.read (instr.getSrc index)
    return instr.withInstr (instr.setVSrc value index)
  else .ok instr

/-- The bypass command for a source that is not in the register file. -/
def command (instr : PerfInstr w) (index : Fin 2) : Option BypassCommand :=
  if !unit.isInRF instr index && unit.isBypassible instr index then
    some (unit.getBypassCommand instr index)
  else none

/-- The signals of an early detected misprediction. -/
def handleMisprediction (instr : PerfInstr w) : DecodeOut w :=
  if isMisprediction instr.toFuncInstr instr.bpData then
    { bpUpdate := some instr.getBpUpd
      flushFetch := !unit.isStall instr
      flushTarget :=
        if input.stallDatapath.isSome then none else some instr.getActualDecodedTarget }
  else {}

def clock : Except SimException (DecodeOut w × DataBypass) :=
  let unit := clockUnit unit input
  if hasFlush input then .ok ({}, unit)
  else
    match readInstr input with
    | none => .ok ({}, unit)
    | some instr =>
      let out := handleMisprediction unit input instr
      if unit.isStall instr then
        .ok ({ out with stall := true, stallDatapath := some instr }, unit)
      else do
        let read ← readSource unit rf instr 0
        let read ← readSource unit rf read 1
        return ({ out with
                  commands := command unit instr
                  bypassingUnitNotify := some read
                  datapath := some read }, unit)

end Clock

end Decode

end MiptMips
