import MiptMips.Lib.DelayLine
import MiptMips.Memory.Memory
import MiptMips.Modules.DataBypass

/-!
# Execute, Mem and Branch

The stages between Decode and Writeback. A module's clock takes what it can read from its ports in
a cycle and gives what it writes to them, to be read in the next one. Every port that is written
at most once in a cycle is an option; the ports from Execute to Writeback and from Writeback to
Execute can be written more than once and are lists, in the order of the writes.

The stages never throw on their own: only an access to memory can.
-/

namespace MiptMips

open Machines

variable {w : ℕ}

/-- The results of an instruction, for its two destinations. -/
abbrev InstructionOutput (w : ℕ) := BitVec w × BitVec w

structure ExecuteOut (w : ℕ) where
  mem : Option (PerfInstr w) := none
  branch : Option (PerfInstr w) := none
  writeback : List (PerfInstr w) := []
  bypass : Option (InstructionOutput w) := none
  longArithmeticBypass : Option (InstructionOutput w) := none

structure Execute (w : ℕ) where
  lastExecutionStageLatency : ℕ
  flushExpirationLatency : ℕ := 0
  longLatencyExecutionUnit : DelayLine (PerfInstr w)

namespace Execute

def create (w longAluLatency : ℕ) : Execute w where
  lastExecutionStageLatency := longAluLatency - 1
  longLatencyExecutionUnit := .empty (longAluLatency - 1)

/-- What the bypass ports hold, by their direction. -/
abbrev BypassData (w : ℕ) := ℕ → List (InstructionOutput w)

/-- The last value on a port. -/
def lastData (data : List (InstructionOutput w)) : BitVec w :=
  (data.getLast?.map Prod.fst).getD 0#w

def readBypass (data : BypassData w) (commands : Fin 2 → Option BypassCommand)
    (instr : FuncInstr w) (index : Fin 2) : FuncInstr w :=
  match commands index with
  | some command => instr.setVSrc (lastData (data command.getBypassDirection)) index
  | none => instr

section Operands

attribute [local instance] FuncInstr.sources_ne_zero

def readOperands (data : BypassData w) (commands : Fin 2 → Option BypassCommand)
    (instr : FuncInstr w) : FuncInstr w :=
  readBypass data commands (readBypass data commands instr 0) 1

end Operands

/-- Where an executed instruction goes, other than into the long-latency unit. -/
def dispatch (instr : PerfInstr w) : ExecuteOut w :=
  if instr.isJump then { bypass := some instr.vDst, branch := some instr }
  else if instr.isMemStageRequired then { bypass := some instr.vDst, mem := some instr }
  else { bypass := some instr.vDst, writeback := [instr] }

variable (execute : Execute w)

def clock (flush : Bool) (datapath : Option (PerfInstr w)) (commands : Fin 2 → Option BypassCommand)
    (data : BypassData w) : ExecuteOut w × Execute w :=
  let expiration := execute.flushExpirationLatency - 1
  let next (expiration : ℕ) (instr : Option (PerfInstr w)) : Execute w :=
    { execute with
      flushExpirationLatency := expiration
      longLatencyExecutionUnit := execute.longLatencyExecutionUnit.shift instr }
  if flush then ({}, next execute.lastExecutionStageLatency none)
  else
    let long := if expiration = 0 then execute.longLatencyExecutionUnit.out else none
    match datapath with
    | none =>
      ({ writeback := long.toList, longArithmeticBypass := long.map (·.vDst) },
        next expiration none)
    | some instr =>
      let instr := instr.withInstr (readOperands data commands instr.toFuncInstr).execute
      if instr.isLongArithmetic then
        ({ writeback := long.toList, longArithmeticBypass := long.map (·.vDst) },
          next expiration (some instr))
      else
        let out := dispatch instr
        ({ out with
            writeback := long.toList ++ out.writeback
            longArithmeticBypass := long.map (·.vDst) },
          next expiration none)

end Execute

structure MemOut (w : ℕ) where
  datapath : Option (PerfInstr w) := none
  bypass : Option (InstructionOutput w) := none

namespace Mem

variable {M : Type} [FuncMemory M]

def clock (flush : Bool) (datapath : Option (PerfInstr w)) (mem : M) :
    Except SimException (MemOut w × M) :=
  if flush then .ok ({}, mem)
  else
    match datapath with
    | none => .ok ({}, mem)
    | some instr => do
      let (f, mem) ← FuncMemory.loadStore mem instr.toFuncInstr
      return ({ datapath := some (instr.withInstr f), bypass := some f.vDst }, mem)

end Mem

structure BranchOut (w : ℕ) where
  datapath : Option (PerfInstr w) := none
  flushAll : Bool := false
  flushTarget : Option Target := none
  bpUpdate : Option BPInterface := none
  bypass : Option (InstructionOutput w) := none
  bypassingUnitFlushNotify : Bool := false

namespace Branch

def isMisprediction (instr : FuncInstr w) (bpData : BPInterface) : Bool :=
  if !bpData.isHit && ((instr.isCommonBranch && instr.isTaken)
      || (instr.isLikelyBranch && !instr.isTaken) || instr.isIndirectJump) then true
  else if bpData.isHit && bpData.isTaken != instr.isTaken then true
  else (bpData.isTaken || instr.isIndirectJump) && bpData.target != instr.newPC

def clock (flush : Bool) (datapath : Option (PerfInstr w)) : BranchOut w :=
  match datapath with
  | none => {}
  | some instr =>
    if flush then {}
    else
      let mispredicted := isMisprediction instr.toFuncInstr instr.bpData
      { datapath := some instr
        flushAll := mispredicted
        flushTarget := if mispredicted then some instr.getActualTarget else none
        bpUpdate := some instr.getBpUpd
        bypass := some instr.vDst
        bypassingUnitFlushNotify := mispredicted }

end Branch

/-- The stages together, with what they have written. -/
structure Backend (w : ℕ) where
  execute : Execute w
  fromExecute : ExecuteOut w := {}
  fromMem : MemOut w := {}
  fromBranch : BranchOut w := {}

namespace Backend

def create (w longAluLatency : ℕ) : Backend w where
  execute := .create w longAluLatency

variable (backend : Backend w)

def bypassData (fromWriteback : List (InstructionOutput w)) : Execute.BypassData w
  | 0 => backend.fromExecute.bypass.toList
  | 1 => backend.fromExecute.longArithmeticBypass.toList
  | 2 => backend.fromMem.bypass.toList
  | 3 => fromWriteback
  | _ => backend.fromBranch.bypass.toList

/-- The instructions that arrive at Writeback. -/
def arrived : List (PerfInstr w) :=
  backend.fromBranch.datapath.toList ++ backend.fromMem.datapath.toList
    ++ backend.fromExecute.writeback

variable {M : Type} [FuncMemory M]

/-- A cycle of the three stages: `datapath` and `commands` are from Decode. -/
def clock (flush : Bool) (datapath : Option (PerfInstr w))
    (commands : Fin 2 → Option BypassCommand) (fromWriteback : List (InstructionOutput w))
    (mem : M) : Except SimException (Backend w × M) := do
  let (fromExecute, execute) :=
    backend.execute.clock flush datapath commands (backend.bypassData fromWriteback)
  let (fromMem, mem) ← Mem.clock flush backend.fromExecute.mem mem
  let fromBranch := Branch.clock flush backend.fromExecute.branch
  return ({ execute, fromExecute, fromMem, fromBranch }, mem)

end Backend

end MiptMips
