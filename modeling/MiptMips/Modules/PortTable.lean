import MiptMips.Infra.PortProgram
import MiptMips.Modules.PerfSim

/-!
# The ports of the performance simulator

The read and write ports of each module, with their keys, latencies and the types of what goes
through them. A read port gets what is written to the write port with its key; every key has one
write port, so the write ports stand for the keys.
-/

namespace MiptMips

open Machines

variable {w : ℕ}

section Names

/-- Where a bypassed value comes from, in the order of the bypass directions. -/
inductive BypassSource where
  | execute | longArithmetic | mem | writeback | branch
  deriving DecidableEq

namespace Fetch

inductive Rp where
  | stall | hitOrMiss | bpUpdate | bpUpdateFromDecode | flushTarget | externalTarget | holdPC | target
  | longLatencyPCHolder | flushTargetFromDecode
  deriving DecidableEq

inductive Wp where
  | datapath | holdPC | target | longLatencyPCHolder | hitOrMiss
  deriving DecidableEq

end Fetch

namespace Decode

inductive Rp where
  | datapath | stallDatapath | flush | bypassingUnitNotify | bypassingUnitFlushNotify | flushFetch
  | trap
  deriving DecidableEq

inductive Wp where
  | datapath | stallDatapath | stall | bypassingUnitNotify | bpUpdate | command (index : Fin 2)
  | flushFetch | flushTarget
  deriving DecidableEq

end Decode

namespace Execute

inductive Rp where
  | datapath | longLatencyExecutionUnit | flush | trap | command (index : Fin 2)
  | data (index : Fin 2) (source : BypassSource)
  deriving DecidableEq

inductive Wp where
  | memDatapath | branchDatapath | writebackDatapath | longLatencyExecutionUnit | bypass
  | longArithmeticBypass
  deriving DecidableEq

end Execute

namespace Mem

inductive Rp where
  | datapath | flush | trap
  deriving DecidableEq

inductive Wp where
  | datapath | bypass
  deriving DecidableEq

end Mem

namespace Branch

inductive Rp where
  | datapath | flush | trap
  deriving DecidableEq

inductive Wp where
  | datapath | flushAll | flushTarget | bpUpdate | bypass | bypassingUnitFlushNotify
  deriving DecidableEq

end Branch

namespace Writeback

inductive Rp where
  | memDatapath | executeDatapath | branchDatapath | trap
  deriving DecidableEq

inductive Wp where
  | bypass | halt | trap | target
  deriving DecidableEq

end Writeback

/-- All write ports. -/
inductive Wp where
  | fetch (p : Fetch.Wp)
  | decode (p : Decode.Wp)
  | execute (p : Execute.Wp)
  | mem (p : Mem.Wp)
  | branch (p : Branch.Wp)
  | writeback (p : Writeback.Wp)
  deriving DecidableEq

/-- All read ports; the last one is that of the core itself. -/
inductive Rp where
  | fetch (p : Fetch.Rp)
  | decode (p : Decode.Rp)
  | execute (p : Execute.Rp)
  | mem (p : Mem.Rp)
  | branch (p : Branch.Rp)
  | writeback (p : Writeback.Rp)
  | halt
  deriving DecidableEq

end Names

section Keys

/-- The key that a write port is made with. -/
def Wp.key : Wp → String
  | .fetch .datapath => "FETCH_2_DECODE"
  | .fetch .holdPC => "HOLD_PC"
  | .fetch .target => "TARGET"
  | .fetch .longLatencyPCHolder => "LONG_LATENCY_PC_HOLDER"
  | .fetch .hitOrMiss => "HIT_OR_MISS"
  | .decode .datapath => "DECODE_2_EXECUTE"
  | .decode .stallDatapath => "DECODE_2_DECODE"
  | .decode .stall => "DECODE_2_FETCH_STALL"
  | .decode .bypassingUnitNotify => "DECODE_2_BYPASSING_UNIT_NOTIFY"
  | .decode .bpUpdate => "DECODE_2_FETCH"
  | .decode (.command index) =>
    if index.val = 0 then "DECODE_2_EXECUTE_SRC1_COMMAND" else "DECODE_2_EXECUTE_SRC2_COMMAND"
  | .decode .flushFetch => "DECODE_2_FETCH_FLUSH"
  | .decode .flushTarget => "DECODE_2_FETCH_TARGET"
  | .execute .memDatapath => "EXECUTE_2_MEMORY"
  | .execute .branchDatapath => "EXECUTE_2_BRANCH"
  | .execute .writebackDatapath => "EXECUTE_2_WRITEBACK"
  | .execute .longLatencyExecutionUnit => "EXECUTE_2_EXECUTE_LONG_LATENCY"
  | .execute .bypass => "EXECUTE_2_EXECUTE_BYPASS"
  | .execute .longArithmeticBypass => "EXECUTE_COMPLEX_ALU_2_EXECUTE_BYPASS"
  | .mem .datapath => "MEMORY_2_WRITEBACK"
  | .mem .bypass => "MEMORY_2_EXECUTE_BYPASS"
  | .branch .datapath => "BRANCH_2_WRITEBACK"
  | .branch .flushAll => "BRANCH_2_ALL_FLUSH"
  | .branch .flushTarget => "BRANCH_2_FETCH_TARGET"
  | .branch .bpUpdate => "BRANCH_2_FETCH"
  | .branch .bypass => "BRANCH_2_EXECUTE_BYPASS"
  | .branch .bypassingUnitFlushNotify => "BRANCH_2_BYPASSING_UNIT_FLUSH_NOTIFY"
  | .writeback .bypass => "WRITEBACK_2_EXECUTE_BYPASS"
  | .writeback .halt => "WRITEBACK_2_CORE_HALT"
  | .writeback .trap => "WRITEBACK_2_ALL_FLUSH"
  | .writeback .target => "WRITEBACK_2_FETCH_TARGET"

/-- The key that a read port is made with. -/
def Rp.key : Rp → String
  | .fetch .stall => "DECODE_2_FETCH_STALL"
  | .fetch .flushTarget => "BRANCH_2_FETCH_TARGET"
  | .fetch .target => "TARGET"
  | .fetch .holdPC => "HOLD_PC"
  | .fetch .externalTarget => "WRITEBACK_2_FETCH_TARGET"
  | .fetch .bpUpdate => "BRANCH_2_FETCH"
  | .fetch .longLatencyPCHolder => "LONG_LATENCY_PC_HOLDER"
  | .fetch .hitOrMiss => "HIT_OR_MISS"
  | .fetch .bpUpdateFromDecode => "DECODE_2_FETCH"
  | .fetch .flushTargetFromDecode => "DECODE_2_FETCH_TARGET"
  | .decode .datapath => "FETCH_2_DECODE"
  | .decode .stallDatapath => "DECODE_2_DECODE"
  | .decode .flush => "BRANCH_2_ALL_FLUSH"
  | .decode .bypassingUnitNotify => "DECODE_2_BYPASSING_UNIT_NOTIFY"
  | .decode .bypassingUnitFlushNotify => "BRANCH_2_BYPASSING_UNIT_FLUSH_NOTIFY"
  | .decode .flushFetch => "DECODE_2_FETCH_FLUSH"
  | .decode .trap => "WRITEBACK_2_ALL_FLUSH"
  | .execute .datapath => "DECODE_2_EXECUTE"
  | .execute .trap => "WRITEBACK_2_ALL_FLUSH"
  | .execute .longLatencyExecutionUnit => "EXECUTE_2_EXECUTE_LONG_LATENCY"
  | .execute .flush => "BRANCH_2_ALL_FLUSH"
  | .execute (.command index) =>
    if index.val = 0 then "DECODE_2_EXECUTE_SRC1_COMMAND" else "DECODE_2_EXECUTE_SRC2_COMMAND"
  | .execute (.data _ .execute) => "EXECUTE_2_EXECUTE_BYPASS"
  | .execute (.data _ .longArithmetic) => "EXECUTE_COMPLEX_ALU_2_EXECUTE_BYPASS"
  | .execute (.data _ .mem) => "MEMORY_2_EXECUTE_BYPASS"
  | .execute (.data _ .writeback) => "WRITEBACK_2_EXECUTE_BYPASS"
  | .execute (.data _ .branch) => "BRANCH_2_EXECUTE_BYPASS"
  | .mem .datapath => "EXECUTE_2_MEMORY"
  | .mem .trap => "WRITEBACK_2_ALL_FLUSH"
  | .mem .flush => "BRANCH_2_ALL_FLUSH"
  | .branch .flush => "BRANCH_2_ALL_FLUSH"
  | .branch .trap => "WRITEBACK_2_ALL_FLUSH"
  | .branch .datapath => "EXECUTE_2_BRANCH"
  | .writeback .memDatapath => "MEMORY_2_WRITEBACK"
  | .writeback .executeDatapath => "EXECUTE_2_WRITEBACK"
  | .writeback .branchDatapath => "BRANCH_2_WRITEBACK"
  | .writeback .trap => "WRITEBACK_2_ALL_FLUSH"
  | .halt => "WRITEBACK_2_CORE_HALT"

/-- The write port with the key of a read port. -/
@[reducible]
def Rp.writer : Rp → Wp
  | .fetch .stall => .decode .stall
  | .fetch .flushTarget => .branch .flushTarget
  | .fetch .target => .fetch .target
  | .fetch .holdPC => .fetch .holdPC
  | .fetch .externalTarget => .writeback .target
  | .fetch .bpUpdate => .branch .bpUpdate
  | .fetch .longLatencyPCHolder => .fetch .longLatencyPCHolder
  | .fetch .hitOrMiss => .fetch .hitOrMiss
  | .fetch .bpUpdateFromDecode => .decode .bpUpdate
  | .fetch .flushTargetFromDecode => .decode .flushTarget
  | .decode .datapath => .fetch .datapath
  | .decode .stallDatapath => .decode .stallDatapath
  | .decode .flush => .branch .flushAll
  | .decode .bypassingUnitNotify => .decode .bypassingUnitNotify
  | .decode .bypassingUnitFlushNotify => .branch .bypassingUnitFlushNotify
  | .decode .flushFetch => .decode .flushFetch
  | .decode .trap => .writeback .trap
  | .execute .datapath => .decode .datapath
  | .execute .trap => .writeback .trap
  | .execute .longLatencyExecutionUnit => .execute .longLatencyExecutionUnit
  | .execute .flush => .branch .flushAll
  | .execute (.command index) => .decode (.command index)
  | .execute (.data _ .execute) => .execute .bypass
  | .execute (.data _ .longArithmetic) => .execute .longArithmeticBypass
  | .execute (.data _ .mem) => .mem .bypass
  | .execute (.data _ .writeback) => .writeback .bypass
  | .execute (.data _ .branch) => .branch .bypass
  | .mem .datapath => .execute .memDatapath
  | .mem .trap => .writeback .trap
  | .mem .flush => .branch .flushAll
  | .branch .flush => .branch .flushAll
  | .branch .trap => .writeback .trap
  | .branch .datapath => .execute .branchDatapath
  | .writeback .memDatapath => .mem .datapath
  | .writeback .executeDatapath => .execute .writebackDatapath
  | .writeback .branchDatapath => .branch .datapath
  | .writeback .trap => .writeback .trap
  | .halt => .writeback .halt

/-- What goes through a port. -/
@[reducible]
def Wp.T (w : ℕ) : Wp → Type
  | .fetch .datapath => PerfInstr w
  | .fetch .hitOrMiss => Bool
  | .fetch _ => Target
  | .decode .stall => Bool
  | .decode .flushFetch => Bool
  | .decode .bpUpdate => BPInterface
  | .decode (.command _) => BypassCommand
  | .decode .flushTarget => Target
  | .decode _ => PerfInstr w
  | .execute .bypass => InstructionOutput w
  | .execute .longArithmeticBypass => InstructionOutput w
  | .execute _ => PerfInstr w
  | .mem .datapath => PerfInstr w
  | .mem .bypass => InstructionOutput w
  | .branch .datapath => PerfInstr w
  | .branch .flushTarget => Target
  | .branch .bpUpdate => BPInterface
  | .branch .bypass => InstructionOutput w
  | .branch _ => Bool
  | .writeback .bypass => InstructionOutput w
  | .writeback .halt => Trap
  | .writeback .trap => Bool
  | .writeback .target => Target

/-- `Port::LATENCY`, but for the two ports that stand for units with a latency. -/
def Rp.latency (longAluLatency : ℕ) : Rp → ℕ
  | .fetch .longLatencyPCHolder => longLatency
  | .execute .longLatencyExecutionUnit => longAluLatency - 1
  | _ => 1

/-- `Port::BW`. -/
def Wp.bandwidth : Wp → BitVec 32 := fun _ => 1#32

/-- A read port is connected to the write port that has its key. -/
theorem Rp.key_writer (i : Rp) : i.writer.key = i.key := by
  rcases i with i | i | i | i | i | i | _
  · cases i <;> rfl
  · cases i <;> rfl
  · rcases i with _ | _ | _ | _ | _ | ⟨_, source⟩
    · rfl
    · rfl
    · rfl
    · rfl
    · rfl
    · cases source <;> rfl
  · cases i <;> rfl
  · cases i <;> rfl
  · cases i <;> rfl
  · rfl

def Wp.all : List Wp :=
  [.fetch .datapath, .fetch .holdPC, .fetch .target, .fetch .longLatencyPCHolder, .fetch .hitOrMiss,
    .decode .datapath, .decode .stallDatapath, .decode .stall, .decode .bypassingUnitNotify,
    .decode .bpUpdate, .decode .flushFetch, .decode .flushTarget, .execute .memDatapath,
    .execute .branchDatapath, .execute .writebackDatapath, .execute .longLatencyExecutionUnit,
    .execute .bypass, .execute .longArithmeticBypass, .mem .datapath, .mem .bypass,
    .branch .datapath, .branch .flushAll, .branch .flushTarget, .branch .bpUpdate, .branch .bypass,
    .branch .bypassingUnitFlushNotify, .writeback .bypass, .writeback .halt, .writeback .trap,
    .writeback .target] ++ (List.finRange 2).map fun index => .decode (.command index)

theorem Wp.mem_all (k : Wp) : k ∈ all := by
  rcases k with k | k | k | k | k | k <;> cases k <;> simp [all]

theorem Wp.nodup_keys : (all.map key).Nodup := by decide +kernel

/-- No two write ports have one key. -/
theorem Wp.key_injective : Function.Injective Wp.key := fun i j h =>
  List.inj_on_of_nodup_map nodup_keys (mem_all i) (mem_all j) h

/-- Every write port has a reader. -/
theorem Wp.exists_reader (k : Wp) : ∃ i : Rp, i.writer = k := by
  rcases k with k | k | k | k | k | k <;> cases k
  exacts [⟨.decode .datapath, rfl⟩, ⟨.fetch .holdPC, rfl⟩, ⟨.fetch .target, rfl⟩,
    ⟨.fetch .longLatencyPCHolder, rfl⟩, ⟨.fetch .hitOrMiss, rfl⟩, ⟨.execute .datapath, rfl⟩,
    ⟨.decode .stallDatapath, rfl⟩, ⟨.fetch .stall, rfl⟩, ⟨.decode .bypassingUnitNotify, rfl⟩,
    ⟨.fetch .bpUpdateFromDecode, rfl⟩, ⟨.execute (.command _), rfl⟩, ⟨.decode .flushFetch, rfl⟩,
    ⟨.fetch .flushTargetFromDecode, rfl⟩, ⟨.mem .datapath, rfl⟩, ⟨.branch .datapath, rfl⟩,
    ⟨.writeback .executeDatapath, rfl⟩, ⟨.execute .longLatencyExecutionUnit, rfl⟩,
    ⟨.execute (.data 0 .execute), rfl⟩, ⟨.execute (.data 0 .longArithmetic), rfl⟩,
    ⟨.writeback .memDatapath, rfl⟩, ⟨.execute (.data 0 .mem), rfl⟩,
    ⟨.writeback .branchDatapath, rfl⟩, ⟨.decode .flush, rfl⟩, ⟨.fetch .flushTarget, rfl⟩,
    ⟨.fetch .bpUpdate, rfl⟩, ⟨.execute (.data 0 .branch), rfl⟩,
    ⟨.decode .bypassingUnitFlushNotify, rfl⟩, ⟨.execute (.data 0 .writeback), rfl⟩, ⟨.halt, rfl⟩,
    ⟨.decode .trap, rfl⟩, ⟨.fetch .externalTarget, rfl⟩]

/-- The key of a read port is that of one write port, the one it is connected to. -/
theorem Rp.writer_unique (i : Rp) {k : Wp} (h : k.key = i.key) : k = i.writer :=
  Wp.key_injective (h.trans i.key_writer.symm)

end Keys

end MiptMips
