import MiptMips.Infra.PortMap
import MiptMips.Modules.PortSim

/-!
# The ports as the modules make them

Each module makes its ports in its constructor, with keys, types and latencies of its own, and the
port map connects them when all modules are there. Nothing is thrown, whatever the latency of the
long operations is and in whatever order the map goes over its keys, and every write port gets the
read ports of its key, with queues of the size that the simulator's ports have.
-/

namespace MiptMips

open Machines

section Types

/-- The template arguments of ports. -/
inductive PortType where
  | instr | bool | target | bpInterface | bypassCommand | instructionOutput | trap
  deriving DecidableEq

def PortType.T (w : ℕ) : PortType → Type
  | instr => PerfInstr w
  | bool => Bool
  | target => Target
  | bpInterface => BPInterface
  | bypassCommand => BypassCommand
  | instructionOutput => InstructionOutput w
  | trap => Trap

def Wp.type : Wp → PortType
  | .fetch .datapath => .instr
  | .fetch .hitOrMiss => .bool
  | .fetch .holdPC | .fetch .target | .fetch .longLatencyPCHolder => .target
  | .decode .datapath | .decode .stallDatapath | .decode .bypassingUnitNotify => .instr
  | .decode .stall | .decode .flushFetch => .bool
  | .decode .bpUpdate => .bpInterface
  | .decode (.command _) => .bypassCommand
  | .decode .flushTarget => .target
  | .execute .memDatapath | .execute .branchDatapath | .execute .writebackDatapath => .instr
  | .execute .longLatencyExecutionUnit => .instr
  | .execute .bypass | .execute .longArithmeticBypass => .instructionOutput
  | .mem .datapath => .instr
  | .mem .bypass => .instructionOutput
  | .branch .datapath => .instr
  | .branch .flushAll | .branch .bypassingUnitFlushNotify => .bool
  | .branch .flushTarget => .target
  | .branch .bpUpdate => .bpInterface
  | .branch .bypass => .instructionOutput
  | .writeback .bypass => .instructionOutput
  | .writeback .halt => .trap
  | .writeback .trap => .bool
  | .writeback .target => .target

def Rp.type : Rp → PortType
  | .fetch .stall | .fetch .hitOrMiss => .bool
  | .fetch .bpUpdate | .fetch .bpUpdateFromDecode => .bpInterface
  | .fetch .flushTarget | .fetch .externalTarget | .fetch .holdPC | .fetch .target => .target
  | .fetch .longLatencyPCHolder | .fetch .flushTargetFromDecode => .target
  | .decode .datapath | .decode .stallDatapath | .decode .bypassingUnitNotify => .instr
  | .decode .flush | .decode .bypassingUnitFlushNotify | .decode .flushFetch | .decode .trap => .bool
  | .execute .datapath | .execute .longLatencyExecutionUnit => .instr
  | .execute .flush | .execute .trap => .bool
  | .execute (.command _) => .bypassCommand
  | .execute (.data _ _) => .instructionOutput
  | .mem .datapath => .instr
  | .mem .flush | .mem .trap => .bool
  | .branch .datapath => .instr
  | .branch .flush | .branch .trap => .bool
  | .writeback .memDatapath | .writeback .executeDatapath | .writeback .branchDatapath => .instr
  | .writeback .trap => .bool
  | .halt => .trap

theorem Rp.type_writer (i : Rp) : i.writer.type = i.type := by
  rcases i with i | i | i | i | i | i | _
  · cases i <;> rfl
  · cases i <;> rfl
  · rcases i with _ | _ | _ | _ | _ | ⟨_, source⟩
    · rfl
    · rfl
    · rfl
    · rfl
    · rfl
    · cases source <;> rfl
  · cases i <;> rfl
  · cases i <;> rfl
  · cases i <;> rfl
  · rfl

end Types

section Make

def Wp.basic (k : Wp) : BasicWritePort PortType := ⟨k.key, k.type, k.bandwidth⟩

def Rp.basic (longAluLatency : ℕ) (i : Rp) : BasicReadPort PortType :=
  ⟨i.key, i.type, i.latency longAluLatency⟩

def Fetch.ports : List (Fetch.Wp ⊕ Fetch.Rp) :=
  [.inl .datapath, .inr .stall, .inr .flushTarget, .inl .target, .inr .target, .inl .holdPC,
    .inr .holdPC, .inr .externalTarget, .inr .bpUpdate, .inl .longLatencyPCHolder,
    .inr .longLatencyPCHolder, .inl .hitOrMiss, .inr .hitOrMiss, .inr .bpUpdateFromDecode,
    .inr .flushTargetFromDecode]

def Decode.ports : List (Decode.Wp ⊕ Decode.Rp) :=
  [.inr .datapath, .inr .stallDatapath, .inr .flush, .inr .bypassingUnitNotify,
    .inr .bypassingUnitFlushNotify, .inr .flushFetch, .inr .trap, .inl .datapath,
    .inl .stallDatapath, .inl .stall] ++ (List.finRange 2).map (fun index => .inl (.command index))
    ++ [.inl .bypassingUnitNotify, .inl .flushFetch, .inl .flushTarget, .inl .bpUpdate]

/-- The two ports for a source of bypassed values. -/
def Execute.dataPorts (source : BypassSource) : List (Execute.Wp ⊕ Execute.Rp) :=
  (List.finRange 2).map fun index => .inr (.data index source)

def Execute.ports : List (Execute.Wp ⊕ Execute.Rp) :=
  [.inl .memDatapath, .inl .branchDatapath, .inl .writebackDatapath, .inr .datapath, .inr .trap,
    .inl .longLatencyExecutionUnit, .inr .longLatencyExecutionUnit, .inr .flush]
    ++ (List.finRange 2).map (fun index => .inr (.command index))
    ++ [.inl .bypass, .inl .longArithmeticBypass]
    ++ [.execute, .longArithmetic, .mem, .writeback, .branch].flatMap dataPorts

def Mem.ports : List (Mem.Wp ⊕ Mem.Rp) :=
  [.inl .datapath, .inr .datapath, .inr .trap, .inr .flush, .inl .bypass]

def Branch.ports : List (Branch.Wp ⊕ Branch.Rp) :=
  [.inl .flushAll, .inr .flush, .inr .trap, .inl .flushTarget, .inl .bpUpdate, .inr .datapath,
    .inl .datapath, .inl .bypass, .inl .bypassingUnitFlushNotify]

def Writeback.ports : List (Writeback.Wp ⊕ Writeback.Rp) :=
  [.inr .memDatapath, .inr .executeDatapath, .inr .branchDatapath, .inr .trap, .inl .bypass,
    .inl .halt, .inl .trap, .inl .target]

/-- All ports, in the order of the constructors. -/
def allPorts : List (Wp ⊕ Rp) :=
  Fetch.ports.map (Sum.map .fetch .fetch) ++ Decode.ports.map (Sum.map .decode .decode)
    ++ Execute.ports.map (Sum.map .execute .execute) ++ Mem.ports.map (Sum.map .mem .mem)
    ++ Branch.ports.map (Sum.map .branch .branch)
    ++ Writeback.ports.map (Sum.map .writeback .writeback) ++ [.inr .halt]

/-- What the constructor of the simulator adds to the port map. -/
def PerfSim.ports (longAluLatency : ℕ) : List (BasicPort PortType) :=
  allPorts.map (Sum.elim (.write ∘ Wp.basic) (.read ∘ Rp.basic longAluLatency))

end Make

section Connect

def Wp.made : List Wp := allPorts.filterMap Sum.getLeft?

def Rp.made : List Rp := allPorts.filterMap Sum.getRight?

theorem Wp.mem_made (k : Wp) : k ∈ made := by
  have hall : ∀ k ∈ Wp.all, k ∈ made := by decide +kernel
  exact hall k k.mem_all

theorem Wp.nodup_made : (made.map key).Nodup := by decide +kernel

theorem Rp.mem_made (i : Rp) : i ∈ made := by
  rcases i with i | i | i | i | i | i | _
  · cases i <;> decide +kernel
  · cases i <;> decide +kernel
  · rcases i with _ | _ | _ | _ | index | ⟨index, source⟩
    · decide +kernel
    · decide +kernel
    · decide +kernel
    · decide +kernel
    · revert index
      decide +kernel
    · cases source <;> revert index <;> decide +kernel
  · cases i <;> decide +kernel
  · cases i <;> decide +kernel
  · cases i <;> decide +kernel
  · decide +kernel

theorem writers_ports (longAluLatency : ℕ) :
    PortMap.writers (PerfSim.ports longAluLatency) = Wp.made.map Wp.basic := by
  unfold PortMap.writers PerfSim.ports Wp.made
  rw [List.filterMap_map, List.map_filterMap]
  exact List.filterMap_congr fun port _ => by cases port <;> rfl

theorem readers_ports (longAluLatency : ℕ) :
    PortMap.readers (PerfSim.ports longAluLatency) = Rp.made.map (Rp.basic longAluLatency) := by
  unfold PortMap.readers PerfSim.ports Rp.made
  rw [List.filterMap_map, List.map_filterMap]
  exact List.filterMap_congr fun port _ => by cases port <;> rfl

/-- The readers of a key are the read ports that are connected to its writer. -/
theorem readersOf_ports (longAluLatency : ℕ) (k : Wp) :
    PortMap.readersOf (PerfSim.ports longAluLatency) k.key
      = (Rp.made.filter (·.writer = k)).map (Rp.basic longAluLatency) := by
  unfold PortMap.readersOf
  rw [readers_ports, List.filter_map]
  congr 1
  refine List.filter_congr fun i _ => ?_
  simp only [Function.comp_apply, decide_eq_decide]
  constructor
  · intro h
    exact (i.writer_unique h.symm).symm
  · rintro rfl
    exact i.key_writer.symm

theorem ports_no_fault (longAluLatency : ℕ) (msg : String) :
    ¬ PortMap.PortFaultMessage (PerfSim.ports longAluLatency) msg := by
  intro h
  cases h with
  | twoWriters key hcount =>
    rw [writers_ports, List.map_map] at hcount
    have := List.nodup_iff_count_le_one.1 Wp.nodup_made key
    exact absurd (hcount.trans this) (by decide)
  | noWriter r hr hnone =>
    rw [readers_ports] at hr
    obtain ⟨i, -, rfl⟩ := List.mem_map.1 hr
    refine hnone i.writer.basic ?_ i.key_writer
    rw [writers_ports]
    exact List.mem_map_of_mem (Wp.mem_made _)
  | noReaders p hp hempty =>
    rw [writers_ports] at hp
    obtain ⟨k, -, rfl⟩ := List.mem_map.1 hp
    obtain ⟨i, rfl⟩ := k.exists_reader
    rw [show i.writer.basic.key = i.writer.key from rfl, readersOf_ports,
      List.map_eq_nil_iff] at hempty
    have hi : i ∈ Rp.made.filter (·.writer = i.writer) := List.mem_filter.2 ⟨i.mem_made, by simp⟩
    rw [hempty] at hi
    cases hi
  | typeMismatch p r hp hr hne =>
    rw [writers_ports] at hp
    obtain ⟨k, -, rfl⟩ := List.mem_map.1 hp
    rw [show k.basic.key = k.key from rfl, readersOf_ports] at hr
    obtain ⟨i, hi, rfl⟩ := List.mem_map.1 hr
    obtain rfl : i.writer = k := by simpa using (List.mem_filter.1 hi).2
    exact hne i.type_writer.symm

/-- The constructor of the simulator does not throw, and leaves its ports connected. -/
theorem PerfSim.ports_connect (w longAluLatency : ℕ) {order : List String}
    (horder : PortMap.IsOrder (PerfSim.ports longAluLatency) order) :
    ∃ cs, PortMap.connect (PerfSim.ports longAluLatency) order = .ok cs ∧ ∀ k : Wp, ∃ c ∈ cs,
      c.writer.port = k.basic
        ∧ c.writer.destinations = (Rp.made.filter (·.writer = k)).map (Rp.basic longAluLatency)
        ∧ c.writer.initializedBandwidth = ((PortSystem.create w longAluLatency).writer k).bandwidth
        ∧ c.capacities = (Rp.made.filter (·.writer = k)).map fun i =>
          ((PortSystem.create w longAluLatency).reader i).queue.capacity := by
  obtain ⟨cs, hcs, hall⟩ := PortMap.connect_of_no_fault horder (ports_no_fault longAluLatency)
  refine ⟨cs, hcs, fun k => ?_⟩
  have hk : k.key ∈ order := (horder k.key).2 (PortMap.exists_port_iff.2
    (.inl ⟨k.basic, by rw [writers_ports]; exact List.mem_map_of_mem k.mem_made, rfl⟩))
  obtain ⟨c, hc, p, hp, hpkey, rfl⟩ := exists_mem_of_forall₂ hall hk
  rw [writers_ports] at hp
  obtain ⟨k', -, rfl⟩ := List.mem_map.1 hp
  obtain rfl : k' = k := Wp.key_injective hpkey
  refine ⟨_, hc, rfl, readersOf_ports longAluLatency k', rfl, ?_⟩
  show (PortMap.readersOf _ k'.key).map _ = _
  rw [readersOf_ports, List.map_map]
  rfl

end Connect

section Example

/-- The constructor with the keys in the order in which the ports are made. -/
theorem ports_connect_made : ∃ cs, PortMap.connect (PerfSim.ports 5)
      ((PerfSim.ports 5).map (·.key)).dedup = .ok cs
    ∧ ∃ c ∈ cs, c.writer.port = (Wp.writeback .trap).basic
      ∧ c.writer.destinations.map (·.key) = List.replicate 5 "WRITEBACK_2_ALL_FLUSH" := by
  have horder : PortMap.IsOrder (PerfSim.ports 5)
      ((PerfSim.ports 5).map (·.key)).dedup := fun key => by
    rw [List.mem_dedup, List.mem_map]
  obtain ⟨cs, hcs, hall⟩ := PerfSim.ports_connect 32 5 horder
  obtain ⟨c, hc, hport, hdestinations, -⟩ := hall (.writeback .trap)
  refine ⟨cs, hcs, c, hc, hport, ?_⟩
  rw [hdestinations]
  decide +kernel

end Example

end MiptMips
