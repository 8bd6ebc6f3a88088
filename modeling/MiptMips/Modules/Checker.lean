import MiptMips.Modules.PerfSim

/-!
# The run-time checker

The checker has a functional simulator of its own, with its own registers and memory, and steps it
for every instruction that the pipeline writes back. It compares the two instructions: words,
addresses, sequence ids, and the results whose register is not the zero register.

The kernel works on the registers and the memory of the pipeline and repeats what it writes on
those of the checker. With the checker on, Writeback does all that it does without, and shows the
checker what it writes back.
-/

namespace MiptMips

open Machines

variable {M : Type} [FuncMemory M] {w : ℕ}

structure Checker (w : ℕ) (M : Type) where
  sim : FuncSim w M
  active : Bool := false

namespace Checker

variable (isa : ISA w) (c : Checker w M)

def init (endian : Endian) (capacity : ℕ) (mem : M) : Checker w M :=
  ⟨.create isa endian capacity mem, true⟩

def setTarget (value : Target) : Checker w M :=
  if c.active then { c with sim := c.sim.setTarget value.address value.sequenceId } else c

def driverStep (instr : FuncInstr w) : Except SimException (Checker w M) :=
  if c.active then do
    let (_, sim) ← c.sim.driverStep isa instr
    return { c with sim := sim }
  else .ok c

def check (instr : FuncInstr w) : Except SimException (Checker w M) :=
  if c.active then do
    let (funcDump, sim) ← c.sim.step isa
    if funcDump.isSameChecker instr then return { c with sim := sim } else throw .checkerMismatch
  else .ok c

end Checker

/-- A write of the kernel, which is repeated on every replica. -/
inductive HostWrite (w : ℕ) where
  | register (num : Register) (value : BitVec w)
  | memory (dst : Addr) (bytes : List Byte)

def HostWrite.apply (s : RF w × M) : HostWrite w → Except SimException (RF w × M)
  | register num value => do
    let rf ← s.1.write num value
    return (rf, s.2)
  | memory dst bytes => do
    let mem ← FuncMemory.memcpyHostToGuest s.2 dst bytes
    return (s.1, mem)

/-- The kernel behind its replicants: what a system call writes, and the trap it leaves. -/
structure ReplicantKernel (w : ℕ) (M K : Type) where
  execute : K → RF w → M → Except SimException (K × List (HostWrite w) × Trap)

/-- What a simulator without replicas sees of it. -/
def ReplicantKernel.toKernel {K : Type} (kernel : ReplicantKernel w M K) : Kernel w M K where
  executeInteractive k rf mem := do
    let (k, writes, trap) ← kernel.execute k rf mem
    let (rf, mem) ← writes.foldlM HostWrite.apply (rf, mem)
    return (k, rf, mem, trap)

namespace FuncInstr

def withSources (instr : FuncInstr w) (vSrc : BitVec w × BitVec w) : FuncInstr w :=
  { instr with vSrc0 := vSrc.1, vSrc1 := vSrc.2 }

/-- Execution, memory access and write-back of an instruction with its operands. -/
def effect (instr : FuncInstr w) (rf : RF w) (mem : M) :
    Except SimException (FuncInstr w × RF w × M) := do
  let (instr, mem) ← FuncMemory.loadStore mem instr.execute
  let rf ← rf.writeDst instr
  return (instr, rf, mem)

theorem effect_eq_ok {rf rf' : RF w} {m m' : M} {instr accessed : FuncInstr w}
    (haccess : FuncMemory.loadStore m instr.execute = .ok (accessed, m'))
    (hwrite : rf.writeDst accessed = .ok rf') : instr.effect rf m = .ok (accessed, rf', m') := by
  unfold effect
  rw [bind_eq_ok]
  refine ⟨_, haccess, ?_⟩
  rw [bind_eq_ok]
  exact ⟨_, hwrite, rfl⟩

end FuncInstr

/-- Writeback's state with the checker. -/
structure CheckedState (w : ℕ) (M K : Type) extends WritebackState w M K where
  checker : Checker w M

namespace CheckedState

variable {K : Type} (isa : ISA w) (kernel : ReplicantKernel w M K) (s : CheckedState w M K)

/-- `set_target`: the checker goes on there too. -/
def setTarget (value : Target) : CheckedState w M K where
  toWritebackState := s.toWritebackState.setTarget value
  checker := s.checker.setTarget value

def writebackInstruction (instr : PerfInstr w) (cycle : ℕ) :
    Except SimException (CheckedState w M K) := do
  let wb ← s.toWritebackState.writebackInstruction instr cycle
  let checker ← s.checker.check isa instr.toFuncInstr
  return { toWritebackState := wb, checker }

/-- The kernel handles system calls. -/
def handleInstruction (instr : PerfInstr w) :
    Except SimException (PerfInstr w × CheckedState w M K) :=
  if instr.trap ≠ .syscall then .ok (instr, s)
  else do
    let (kernelState, writes, trap) ← kernel.execute s.kernelState s.rf s.mem
    let (rf, mem) ← writes.foldlM HostWrite.apply (s.rf, s.mem)
    let sim := s.checker.sim
    let (simRf, simMem) ← writes.foldlM HostWrite.apply (sim.rf, sim.mem)
    let checker := if s.checker.active
      then { s.checker with sim := { sim with rf := simRf, mem := simMem } } else s.checker
    return (instr.withInstr { instr.toFuncInstr with trap := trap },
      { s with rf, mem, kernelState, checker })

/-- The driver works on the registers of the pipeline, and then on those of the checker. -/
def handleTrap (instr : PerfInstr w) : Except SimException (Trap × CheckedState w M K) := do
  let result ← isa.handleTrap s.rf instr.toFuncInstr
  let s := { s with rf := result.rf }
  let s := match result.pc with
    | some pc => s.setTarget ⟨pc, 0#64⟩
    | none => s
  let checker ← s.checker.driverStep isa instr.toFuncInstr
  return (result.trap, { s with checker })

/-- After a system call the checker is not told where Fetch goes on. -/
def writebackInstructionSystem (instr : PerfInstr w) (cycle : ℕ) :
    Except SimException (CheckedState w M K) := do
  let hasSyscall := instr.trap == .syscall
  let s ← s.writebackInstruction isa instr cycle
  let (instr, s) ← s.handleInstruction kernel instr
  let (resultTrap, s) ← s.handleTrap isa instr
  let s := { s with toWritebackState := s.toWritebackState.writeHalt resultTrap }
  return if hasSyscall
      then { s with toWritebackState := s.toWritebackState.setTarget instr.getActualTarget }
    else if resultTrap ≠ .noTrap then s.setTarget instr.getActualTarget else s

def writebackBubble (cycle : ℕ) : Except SimException (CheckedState w M K) := do
  let wb ← s.toWritebackState.writebackBubble cycle
  return { s with toWritebackState := wb }

def clock (trap : Bool) (instrs : List (PerfInstr w)) (cycle : ℕ) :
    Except SimException (CheckedState w M K) :=
  if trap then s.writebackBubble cycle
  else if instrs = [] then s.writebackBubble cycle
  else instrs.foldlM (fun s instr => s.writebackInstructionSystem isa kernel instr cycle) s

end CheckedState

section Simulator

variable {E K : Type} [BPEntry E] (kernel : ReplicantKernel w M K) (isa : ISA w)

/-- `Core.clock` with the checker on. -/
def Core.checkedClock (core : Core w M K) (checker : Checker w M)
    (fetched : Option (PerfInstr w)) : Except SimException (Core w M K × Checker w M) := do
  let (fromDecode, decode) ← Decode.clock core.decode core.rf (core.decodeIn fetched)
  let (backend, mem) ← core.backend.clock core.flush core.fromDecode.datapath
    core.fromDecode.commands core.fromWriteback.bypass core.mem
  let wb : CheckedState w M K :=
    { unit := core.writeback, rf := core.rf, mem, kernelState := core.kernelState
      out := core.pending, checker }
  let wb ← wb.clock isa kernel core.fromWriteback.trap core.backend.arrived core.currCycle
  return ({
    currCycle := core.currCycle + 1
    decode, backend, fromDecode
    writeback := wb.unit, fromWriteback := wb.out, pending := {}
    rf := wb.rf, mem := wb.mem, kernelState := wb.kernelState }, wb.checker)

/-- The performance simulator with its checker on. -/
structure CheckedSim (w : ℕ) (E M K : Type) where
  sim : PerfSim w E M K
  checker : Checker w M

namespace CheckedSim

/-- `Checker::init`: the kernel gives the registers and the memory to the new replicas. -/
def init (endian : Endian) (capacity : ℕ) (sim : PerfSim w E M K) : CheckedSim w E M K :=
  let checker : Checker w M := .init isa endian capacity sim.core.mem
  { sim, checker := { checker with sim := { checker.sim with rf := sim.core.rf } } }

variable (s : CheckedSim w E M K)

def setTarget (value : Target) : CheckedSim w E M K where
  sim := s.sim.setTarget value
  checker := s.checker.setTarget value

def clock : Except SimException (CheckedSim w E M K) := do
  let (fromFetch, fetch) := s.sim.fetch.clock s.sim.core.fetchIn s.sim.fromFetch isa s.sim.core.mem
  let (core, checker) ← s.sim.core.checkedClock kernel isa s.checker s.sim.fromFetch.datapath
  return {
    sim := { fetch, fromFetch, core
             currentTrap := s.sim.core.fromWriteback.halt.getD s.sim.currentTrap }
    checker }

end CheckedSim

end Simulator

section Unchecked

variable {K : Type} {isa : ISA w} {kernel : ReplicantKernel w M K} {s t : CheckedState w M K}
  {instr : PerfInstr w} {cycle : ℕ}

namespace CheckedState

theorem unchecked_writebackInstruction (h : s.writebackInstruction isa instr cycle = .ok t) :
    s.toWritebackState.writebackInstruction instr cycle = .ok t.toWritebackState
      ∧ s.checker.check isa instr.toFuncInstr = .ok t.checker := by
  obtain ⟨wb, hwb, h⟩ := bind_eq_ok.1 h
  obtain ⟨checker, hcheck, h⟩ := bind_eq_ok.1 h
  cases h
  exact ⟨hwb, hcheck⟩

theorem unchecked_handleInstruction {handled : PerfInstr w}
    (h : s.handleInstruction kernel instr = .ok (handled, t)) :
    s.toWritebackState.handleInstruction kernel.toKernel instr
      = .ok (handled, t.toWritebackState) := by
  unfold handleInstruction at h
  unfold WritebackState.handleInstruction
  by_cases hno : instr.trap ≠ .syscall
  · rw [if_pos hno] at h ⊢
    cases h
    rfl
  · rw [if_neg hno] at h ⊢
    obtain ⟨⟨kernelState, writes, trap⟩, hk, h⟩ := bind_eq_ok.1 h
    obtain ⟨⟨rf, mem⟩, hw, h⟩ := bind_eq_ok.1 h
    obtain ⟨sim, -, h⟩ := bind_eq_ok.1 h
    cases h
    have hkernel : kernel.toKernel.executeInteractive s.kernelState s.rf s.mem
        = .ok (kernelState, rf, mem, trap) := by
      refine bind_eq_ok.2 ⟨_, hk, ?_⟩
      exact bind_eq_ok.2 ⟨_, hw, rfl⟩
    exact bind_eq_ok.2 ⟨_, hkernel, rfl⟩

omit [FuncMemory M] in
theorem unchecked_handleTrap {trap : Trap} (h : s.handleTrap isa instr = .ok (trap, t)) :
    s.toWritebackState.handleTrap isa instr = .ok (trap, t.toWritebackState) := by
  obtain ⟨result, hr, h⟩ := bind_eq_ok.1 h
  obtain ⟨checker, -, h⟩ := bind_eq_ok.1 h
  cases h
  refine bind_eq_ok.2 ⟨_, hr, ?_⟩
  rcases result.pc with _ | pc <;> rfl

/-- The checker changes nothing of what Writeback does. -/
theorem unchecked_writebackInstructionSystem
    (h : s.writebackInstructionSystem isa kernel instr cycle = .ok t) :
    s.toWritebackState.writebackInstructionSystem kernel.toKernel isa instr cycle
      = .ok t.toWritebackState := by
  obtain ⟨s₁, h₁, h⟩ := bind_eq_ok.1 h
  obtain ⟨⟨handled, s₂⟩, h₂, h⟩ := bind_eq_ok.1 h
  obtain ⟨⟨resultTrap, s₃⟩, h₃, h⟩ := bind_eq_ok.1 h
  refine bind_eq_ok.2 ⟨_, (unchecked_writebackInstruction h₁).1, ?_⟩
  refine bind_eq_ok.2 ⟨_, unchecked_handleInstruction h₂, ?_⟩
  refine bind_eq_ok.2 ⟨_, unchecked_handleTrap h₃, ?_⟩
  cases h
  by_cases hsys : (instr.trap == .syscall) = true
  · simp [hsys]
    rfl
  · by_cases hno : resultTrap = .noTrap
    · simp [hsys, hno]
      rfl
    · simp [hsys, hno]
      rfl

omit [FuncMemory M] in
theorem unchecked_writebackBubble (h : s.writebackBubble cycle = .ok t) :
    s.toWritebackState.writebackBubble cycle = .ok t.toWritebackState
      ∧ t.checker = s.checker := by
  obtain ⟨wb, hwb, h⟩ := bind_eq_ok.1 h
  cases h
  exact ⟨hwb, rfl⟩

theorem unchecked_clock {trap : Bool} {instrs : List (PerfInstr w)}
    (h : s.clock isa kernel trap instrs cycle = .ok t) :
    s.toWritebackState.clock kernel.toKernel isa trap instrs cycle = .ok t.toWritebackState := by
  unfold clock at h
  unfold WritebackState.clock
  split_ifs at h ⊢
  · exact (unchecked_writebackBubble h).1
  · exact (unchecked_writebackBubble h).1
  · exact foldlM_map _ (fun _ _ _ hstep => unchecked_writebackInstructionSystem hstep) h

/-- A cycle that writes back at most one instruction. -/
theorem clock_cases {trap : Bool} {instrs : List (PerfInstr w)} (hone : instrs.length ≤ 1)
    (h : s.clock isa kernel trap instrs cycle = .ok t) :
    (trap = true ∨ instrs = []) ∧ t = s
      ∨ ∃ instr, trap = false ∧ instrs = [instr]
        ∧ s.writebackInstructionSystem isa kernel instr cycle = .ok t := by
  have hbubble : s.writebackBubble cycle = .ok t → t = s := by
    intro hb
    obtain ⟨wb, hwb, hb⟩ := bind_eq_ok.1 hb
    unfold WritebackState.writebackBubble at hwb
    split_ifs at hwb
    cases hwb
    cases hb
    rfl
  unfold clock at h
  split_ifs at h with ht hn
  · exact .inl ⟨.inl ht, hbubble h⟩
  · exact .inl ⟨.inr hn, hbubble h⟩
  · rcases instrs with _ | ⟨instr, _ | ⟨y, ys⟩⟩
    · exact absurd rfl hn
    · rw [List.foldlM_cons] at h
      obtain ⟨u, hu, h⟩ := bind_eq_ok.1 h
      cases h
      exact .inr ⟨instr, by simpa using ht, rfl, hu⟩
    · simp at hone

end CheckedState

variable {core core' : Core w M K} {checker checker' : Checker w M}
  {fetched : Option (PerfInstr w)}

/-- A cycle of the core is the same with the checker on, and in it Writeback is clocked with the
checker. -/
theorem Core.checkedClock_cases
    (h : core.checkedClock kernel isa checker fetched = .ok (core', checker')) :
    core.clock kernel.toKernel isa fetched = .ok core'
      ∧ ∃ (mem : M) (wb : CheckedState w M K), core.backend.clock core.flush
          core.fromDecode.datapath core.fromDecode.commands core.fromWriteback.bypass core.mem
          = .ok (core'.backend, mem)
        ∧ CheckedState.clock isa kernel
          ⟨⟨core.writeback, core.rf, mem, core.kernelState, core.pending⟩, checker⟩
          core.fromWriteback.trap core.backend.arrived core.currCycle = .ok wb
        ∧ core'.rf = wb.rf ∧ core'.mem = wb.mem ∧ core'.fromWriteback = wb.out
        ∧ checker' = wb.checker := by
  obtain ⟨⟨fromDecode, decode⟩, hd, h⟩ := bind_eq_ok.1 h
  obtain ⟨⟨backend, mem⟩, hb, h⟩ := bind_eq_ok.1 h
  obtain ⟨wb, hw, h⟩ := bind_eq_ok.1 h
  cases h
  refine ⟨?_, mem, wb, hb, hw, rfl, rfl, rfl, rfl⟩
  refine bind_eq_ok.2 ⟨_, hd, ?_⟩
  refine bind_eq_ok.2 ⟨_, hb, ?_⟩
  exact bind_eq_ok.2 ⟨_, CheckedState.unchecked_clock hw, rfl⟩

variable {E : Type} [BPEntry E] {sim next : CheckedSim w E M K}

/-- So is a cycle of the simulator. -/
theorem CheckedSim.clock_cases (h : sim.clock kernel isa = .ok next) :
    sim.sim.clock kernel.toKernel isa = .ok next.sim
      ∧ sim.sim.core.checkedClock kernel isa sim.checker sim.sim.fromFetch.datapath
        = .ok (next.sim.core, next.checker) := by
  unfold CheckedSim.clock at h
  obtain ⟨⟨core, checker⟩, hc, h⟩ := bind_eq_ok.1 h
  cases h
  exact ⟨bind_eq_ok.2 ⟨_, (Core.checkedClock_cases hc).1, rfl⟩, hc⟩

end Unchecked

end MiptMips
