import MiptMips.Modules.Decode
import MiptMips.Modules.Fetch
import MiptMips.Modules.Writeback

/-!
# The performance simulator

In a cycle the modules are clocked one after another, from Fetch to Writeback. They share the
register file and the memory, so the order within a cycle matters there; what they write to their
ports is read in the next cycle. `Core` is all but Fetch.
-/

namespace MiptMips

open Machines

variable {w : ℕ} {E M K : Type} [BPEntry E] [FuncMemory M]

structure Core (w : ℕ) (M K : Type) where
  currCycle : ℕ := 0
  decode : DataBypass
  backend : Backend w
  writeback : Writeback := {}
  fromDecode : DecodeOut w := {}
  fromWriteback : WritebackOut w := {}
  /-- What is written to Writeback's ports between two clocks. -/
  pending : WritebackOut w := {}
  rf : RF w
  mem : M
  kernelState : K

namespace Core

variable (core : Core w M K)

/-- Both kinds of flush stop the stages in the same way. -/
def flush : Bool := core.backend.fromBranch.flushAll || core.fromWriteback.trap

def decodeIn (fetched : Option (PerfInstr w)) : DecodeIn w where
  datapath := fetched
  stallDatapath := core.fromDecode.stallDatapath
  flush := core.backend.fromBranch.flushAll
  bypassingUnitNotify := core.fromDecode.bypassingUnitNotify
  bypassingUnitFlushNotify := core.backend.fromBranch.bypassingUnitFlushNotify
  flushFetch := core.fromDecode.flushFetch
  trap := core.fromWriteback.trap

/-- What Fetch reads of the others' ports. -/
def fetchIn : FetchIn where
  stall := core.fromDecode.stall
  externalTarget := core.fromWriteback.target
  flushTarget := core.backend.fromBranch.flushTarget
  flushTargetFromDecode := core.fromDecode.flushTarget
  bpUpdate := core.backend.fromBranch.bpUpdate
  bpUpdateFromDecode := core.fromDecode.bpUpdate

variable (kernel : Kernel w M K) (isa : ISA w)

def clock (fetched : Option (PerfInstr w)) : Except SimException (Core w M K) := do
  let (fromDecode, decode) ← Decode.clock core.decode core.rf (core.decodeIn fetched)
  let (backend, mem) ← core.backend.clock core.flush core.fromDecode.datapath
    core.fromDecode.commands core.fromWriteback.bypass core.mem
  let wb : WritebackState w M K :=
    { unit := core.writeback, rf := core.rf, mem, kernelState := core.kernelState
      out := core.pending }
  let wb ← wb.clock kernel isa core.fromWriteback.trap core.backend.arrived core.currCycle
  return {
    currCycle := core.currCycle + 1
    decode, backend, fromDecode
    writeback := wb.unit, fromWriteback := wb.out, pending := {}
    rf := wb.rf, mem := wb.mem, kernelState := wb.kernelState }

/-- `set_target`: Writeback sends the target to Fetch. -/
def setTarget (value : Target) : Core w M K :=
  { core with
    writeback := { core.writeback with nextPC := value.address }
    pending := { core.pending with trap := true, target := core.pending.target.or (some value) } }

/-- All ports are empty. -/
def create (isa : ISA w) (longAluLatency : ℕ) (mem : M) (kernelState : K) : Core w M K where
  decode := { longAluLatency }
  backend := .create w longAluLatency
  rf := .zeroed w isa.maxReg
  mem := mem
  kernelState := kernelState

end Core

structure PerfSim (w : ℕ) (E M K : Type) where
  fetch : Fetch w E
  fromFetch : FetchOut w := {}
  core : Core w M K
  currentTrap : Trap := .noTrap

namespace PerfSim

variable (sim : PerfSim w E M K) (kernel : Kernel w M K) (isa : ISA w)

def clock : Except SimException (PerfSim w E M K) := do
  let (fromFetch, fetch) := sim.fetch.clock sim.core.fetchIn sim.fromFetch isa sim.core.mem
  let core ← sim.core.clock kernel isa sim.fromFetch.datapath
  return { fetch, fromFetch, core
           currentTrap := sim.core.fromWriteback.halt.getD sim.currentTrap }

def setTarget (value : Target) : PerfSim w E M K := { sim with core := sim.core.setTarget value }

/-- The instructions that are written back in a cycle. -/
def retired : List (PerfInstr w) :=
  if sim.core.fromWriteback.trap then [] else sim.core.backend.arrived

/-- What `run` sets before its loop. -/
def beginRun (instrsToRun : ℕ) : PerfSim w E M K :=
  { sim with
    currentTrap := .noTrap
    core := { sim.core with writeback := { sim.core.writeback with instrsToRun } } }

/-- The loop of `run`, for no more than so many cycles: what is written back in each of them, and
the state after them. -/
def runLoop : ℕ → PerfSim w E M K →
    Except SimException (List (List (PerfInstr w)) × PerfSim w E M K)
  | 0, sim => .ok ([], sim)
  | cycles + 1, sim =>
    if sim.currentTrap ≠ .noTrap then .ok ([], sim)
    else do
      let next ← sim.clock kernel isa
      let (retired, last) ← runLoop cycles next
      return (sim.retired :: retired, last)

/-- `run` returns. -/
def Runs (instrsToRun : ℕ) (retired : List (List (PerfInstr w))) (last : PerfSim w E M K) : Prop :=
  ∃ cycles, runLoop kernel isa cycles (sim.beginRun instrsToRun) = .ok (retired, last)
    ∧ last.currentTrap ≠ .noTrap

end PerfSim

end MiptMips
