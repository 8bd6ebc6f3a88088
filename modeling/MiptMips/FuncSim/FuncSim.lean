import MiptMips.FuncSim.InstrMemory
import MiptMips.Lib.Steps

/-!
# The functional simulator

One instruction a step: fetch, read the sources, execute, access memory, write the results, move
the program counter. `pc` keeps the addresses of the instructions after the next one while delayed
slots are pending. The run loop lets the kernel look at each instruction and then the driver, and
stops at the first trap the driver lets through.

The kernel is a parameter: its system calls may read and write the registers and the memory.
-/

namespace MiptMips

open Machines

variable {M : Type} [FuncMemory M] {w : ℕ}

structure FuncSim (w : ℕ) (M : Type) where
  rf : RF w
  sequenceId : BitVec 64 := 0#64
  mem : M
  imem : InstrMemoryCached w
  /-- Eight addresses. -/
  pc : ℕ → Addr := fun _ => 0#64
  delayedSlots : ℕ := 0
  nopsInARow : ℕ := 0

/-- The kernel: what a system call does, and the trap it leaves. -/
structure Kernel (w : ℕ) (M K : Type) where
  executeInteractive : K → RF w → M → Except SimException (K × RF w × M × Trap)

/-- The kernel that leaves system calls to the exception handler. -/
def Kernel.dummy (w : ℕ) (M : Type) : Kernel w M Unit where
  executeInteractive k rf mem := .ok (k, rf, mem, .syscall)

namespace FuncSim

section Model

variable (isa : ISA w) (s : FuncSim w M)

def create (endian : Endian) (capacity : ℕ) (mem : M) : FuncSim w M where
  rf := .zeroed w isa.maxReg
  mem := mem
  imem := .create w endian capacity

def getPC : Addr := s.pc 0

/-- `set_target`. -/
def setTarget (address : Addr) (sequenceId : BitVec 64) : FuncSim w M :=
  { s with
    pc := fun i => if i = 0 then address else s.pc i
    delayedSlots := 0
    sequenceId := sequenceId }

/-- `pc` after the slots of an instruction and the address after them are put in. -/
def pushTarget (pc : ℕ → Addr) (slots : ℕ) (newPC : Addr) (i : ℕ) : Addr :=
  if i < slots then pc 0 + BitVec.ofNat 64 (4 * (i + 1)) else if i = slots then newPC else pc i

/-- `pc` and the number of delayed slots after an instruction; the array has eight elements. -/
def movePC (pc : ℕ → Addr) (delayedSlots slots : ℕ) (newPC : Addr) :
    Except SimException ((ℕ → Addr) × ℕ) :=
  if slots ≥ 8 then .error .outOfRange
  else
    let pc := pushTarget pc slots newPC
    if delayedSlots = 0 then .ok (pc, slots)
    else if delayedSlots ≥ 8 then .error .outOfRange
    else .ok (fun i => if i < delayedSlots then pc (i + 1) else pc i, delayedSlots - 1)

def updatePC (instr : FuncInstr w) : Except SimException (FuncSim w M) := do
  let (pc, delayedSlots) ← movePC s.pc s.delayedSlots instr.delayedSlots instr.newPC
  return { s with pc := pc, delayedSlots := delayedSlots }

def updateAndCheckNopCounter (instr : FuncInstr w) : Except SimException (FuncSim w M) :=
  let nopsInARow := if instr.isNop then s.nopsInARow + 1 else 0
  if nopsInARow > 10 then .error .bearingLost else .ok { s with nopsInARow := nopsInARow }

/-- The instruction at the program counter with its operands, and the cache after its fetch. -/
def fetchOperands : Except SimException (FuncInstr w × InstrMemoryCached w) := do
  let (instr, imem) := s.imem.fetchInstr isa s.mem s.getPC
  let instr ← s.rf.readSources (instr.setSequenceId s.sequenceId)
  return (instr, imem)

def step : Except SimException (FuncInstr w × FuncSim w M) := do
  let (instr, imem) ← s.fetchOperands isa
  let (instr, mem) ← FuncMemory.loadStore s.mem instr.execute
  let rf ← s.rf.writeDst instr
  let s ← updatePC { s with sequenceId := s.sequenceId + 1, imem, mem, rf } instr
  let s ← s.updateAndCheckNopCounter instr
  return (instr, s)

/-- The driver sees the instruction and may set the program counter. -/
def driverStep (instr : FuncInstr w) : Except SimException (Trap × FuncSim w M) := do
  let result ← isa.handleTrap s.rf instr
  let s := { s with rf := result.rf }
  return (result.trap, match result.pc with
    | some pc => s.setTarget pc 0#64
    | none => s)

variable {K : Type} (kernel : Kernel w M K)

def handleInstruction (k : K) (instr : FuncInstr w) :
    Except SimException (K × FuncInstr w × FuncSim w M) :=
  if instr.trap ≠ .syscall then .ok (k, instr, s)
  else do
    let (k, rf, mem, trap) ← kernel.executeInteractive k s.rf s.mem
    return (k, { instr with trap := trap }, { s with rf := rf, mem := mem })

/-- The body of the run loop: the trap the driver lets through, and the states after it. -/
def runStep (s : K × FuncSim w M) : Except SimException (Trap × K × FuncSim w M) := do
  let (instr, sim) ← s.2.step isa
  let (k, instr, sim) ← sim.handleInstruction kernel s.1 instr
  let (trap, sim) ← sim.driverStep isa instr
  return (trap, k, sim)

def runLoop : ℕ → K × FuncSim w M → Except SimException (Trap × K × FuncSim w M)
  | 0, s => .ok (.breakpoint, s)
  | n + 1, s => do
    let (trap, s) ← runStep isa kernel s
    if trap ≠ .noTrap then return (trap, s) else runLoop n s

def run (k : K) (instrsToRun : ℕ) : Except SimException (Trap × K × FuncSim w M) :=
  runLoop isa kernel instrsToRun (k, { s with nopsInARow := 0 })

end Model

section Reachable

variable (isa : ISA w)

/-- The states a simulator gets into, whatever kernel and debugger it works with: they may change
the registers, the memory and the program counter between two steps. -/
inductive Reachable : FuncSim w M → Prop
  | create (endian : Endian) (capacity : ℕ) (mem : M) : Reachable (create isa endian capacity mem)
  | step {s t : FuncSim w M} {instr : FuncInstr w} :
    Reachable s → s.step isa = .ok (instr, t) → Reachable t
  | driverStep {s t : FuncSim w M} {instr : FuncInstr w} {trap : Trap} :
    Reachable s → s.driverStep isa instr = .ok (trap, t) → Reachable t
  | setTarget {s : FuncSim w M} (address : Addr) (sequenceId : BitVec 64) :
    Reachable s → Reachable (s.setTarget address sequenceId)
  | host {s : FuncSim w M} (rf : RF w) (mem : M) (nopsInARow : ℕ) :
    Reachable s → Reachable { s with rf := rf, mem := mem, nopsInARow := nopsInARow }

variable {isa} {s t : FuncSim w M} {instr : FuncInstr w}

/-- The instruction at the program counter, with its operands. -/
def current (isa : ISA w) (s : FuncSim w M) : FuncInstr w :=
  let instr := fetchInstr isa s.imem.endian s.mem s.getPC
  { instr with
    sequenceId := s.sequenceId
    vSrc0 := s.rf.get instr.src0
    vSrc1 := s.rf.get instr.src1 }

/-- All that a step does: the stages it goes through, and the state it leaves. -/
structure StepOf (isa : ISA w) (s : FuncSim w M) (instr : FuncInstr w) (t : FuncSim w M) where
  operands : FuncInstr w
  moved : FuncSim w M
  fetched : s.fetchOperands isa = .ok (operands, t.imem)
  accessed : FuncMemory.loadStore s.mem operands.execute = .ok (instr, t.mem)
  written : s.rf.writeDst instr = .ok t.rf
  updated : updatePC
    { s with sequenceId := s.sequenceId + 1, imem := t.imem, mem := t.mem, rf := t.rf } instr
    = .ok moved
  checked : moved.updateAndCheckNopCounter instr = .ok t

omit [FuncMemory M] in
theorem updatePC_eq (h : s.updatePC instr = .ok t) : ∃ pc delayedSlots,
    movePC s.pc s.delayedSlots instr.delayedSlots instr.newPC = .ok (pc, delayedSlots)
      ∧ t = { s with pc := pc, delayedSlots := delayedSlots } := by
  obtain ⟨⟨pc, delayedSlots⟩, hm, h⟩ := bind_eq_ok.1 h
  cases h
  exact ⟨pc, delayedSlots, hm, rfl⟩

omit [FuncMemory M] in
theorem updateAndCheckNopCounter_eq (h : s.updateAndCheckNopCounter instr = .ok t) :
    ∃ n, t = { s with nopsInARow := n } := by
  unfold updateAndCheckNopCounter at h
  generalize (if instr.isNop then s.nopsInARow + 1 else 0) = n at h
  by_cases hn : n > 10
  · rw [if_pos hn] at h
    cases h
  · rw [if_neg hn] at h
    cases h
    exact ⟨n, rfl⟩

theorem step_cases (h : s.step isa = .ok (instr, t)) : Nonempty (StepOf isa s instr t) := by
  unfold step at h
  obtain ⟨⟨operands, imem⟩, hf, h⟩ := bind_eq_ok.1 h
  obtain ⟨⟨instr', mem⟩, hm, h⟩ := bind_eq_ok.1 h
  obtain ⟨rf, hw, h⟩ := bind_eq_ok.1 h
  obtain ⟨u, hu, h⟩ := bind_eq_ok.1 h
  obtain ⟨v, hv, h⟩ := bind_eq_ok.1 h
  cases h
  have hu' := hu
  have hv' := hv
  obtain ⟨pc, delayedSlots, -, rfl⟩ := updatePC_eq hu
  obtain ⟨n, rfl⟩ := updateAndCheckNopCounter_eq hv
  exact ⟨⟨operands, _, hf, hm, hw, hu', hv'⟩⟩

/-- The other way around: stages that do not throw make a step. -/
theorem step_eq {operands : FuncInstr w} {imem : InstrMemoryCached w} {mem : M} {rf : RF w}
    {u : FuncSim w M} (hf : s.fetchOperands isa = .ok (operands, imem))
    (ha : FuncMemory.loadStore s.mem operands.execute = .ok (instr, mem))
    (hw : s.rf.writeDst instr = .ok rf)
    (hp : updatePC { s with sequenceId := s.sequenceId + 1, imem, mem, rf } instr = .ok u)
    (hn : u.updateAndCheckNopCounter instr = .ok t) : s.step isa = .ok (instr, t) := by
  unfold step
  rw [bind_eq_ok]
  refine ⟨_, hf, ?_⟩
  rw [bind_eq_ok]
  refine ⟨_, ha, ?_⟩
  rw [bind_eq_ok]
  refine ⟨_, hw, ?_⟩
  rw [bind_eq_ok]
  refine ⟨_, hp, ?_⟩
  rw [bind_eq_ok]
  exact ⟨_, hn, rfl⟩

theorem imem_fetchOperands {imem : InstrMemoryCached w}
    (h : s.fetchOperands isa = .ok (instr, imem)) :
    imem = (s.imem.fetchInstr isa s.mem s.getPC).2 := by
  obtain ⟨instr', -, h⟩ := bind_eq_ok.1 h
  cases h
  rfl

/-- With a coherent cache the operands are those of the instruction in memory, unless the register
file does not have them. -/
theorem fetchOperands_iff {imem : InstrMemoryCached w} (hc : s.imem.Coherent isa) :
    s.fetchOperands isa = .ok (instr, imem)
      ↔ (s.rf.Valid instr.src0 ∧ s.rf.Valid instr.src1) ∧ instr = s.current isa
        ∧ imem = (s.imem.fetchInstr isa s.mem s.getPC).2 := by
  unfold fetchOperands
  rw [bind_eq_ok, fetchInstr_eq hc]
  unfold RF.readSources RF.read RF.getValue
  constructor
  · rintro ⟨operands, hr, h⟩
    cases h
    obtain ⟨v₀, h₀, hr⟩ := bind_eq_ok.1 hr
    obtain ⟨v₁, h₁, hr⟩ := bind_eq_ok.1 hr
    split_ifs at h₀ h₁ with hv₀ hv₁
    cases h₀
    cases h₁
    cases hr
    exact ⟨⟨hv₀, hv₁⟩, rfl, rfl⟩
  · rintro ⟨⟨hv₀, hv₁⟩, rfl, rfl⟩
    refine ⟨s.current isa, ?_, rfl⟩
    rw [bind_eq_ok]
    refine ⟨_, if_pos hv₀, ?_⟩
    rw [bind_eq_ok]
    exact ⟨_, if_pos hv₁, rfl⟩

omit [FuncMemory M] in
theorem imem_driverStep {trap : Trap} (h : s.driverStep isa instr = .ok (trap, t)) :
    t.imem = s.imem := by
  obtain ⟨result, -, h⟩ := bind_eq_ok.1 h
  simp only [pure, Except.pure, Except.ok.injEq, Prod.mk.injEq] at h
  obtain ⟨-, rfl⟩ := h
  split <;> rfl

/-- In every reachable state the instruction cache holds what its own addresses were decoded to. -/
theorem Reachable.coherent (h : Reachable isa s) : s.imem.Coherent isa := by
  induction h with
  | create endian capacity mem => exact InstrMemoryCached.coherent_create isa endian capacity
  | step _ hs ih =>
    obtain ⟨e⟩ := step_cases hs
    rw [imem_fetchOperands e.fetched]
    exact fetchInstr_coherent ih _ _
  | driverStep _ hd ih =>
    rw [imem_driverStep hd]
    exact ih
  | setTarget _ _ _ ih => exact ih
  | host _ _ _ _ ih => exact ih

/-- The body of the run loop stays among the reachable states, with any kernel. -/
theorem Reachable.runStep {K : Type} {kernel : Kernel w M K} {k k' : K} {trap : Trap}
    (h : Reachable isa s) (hr : FuncSim.runStep isa kernel (k, s) = .ok (trap, k', t)) :
    Reachable isa t := by
  unfold FuncSim.runStep at hr
  obtain ⟨⟨instr, u⟩, hs, hr⟩ := bind_eq_ok.1 hr
  obtain ⟨⟨k₁, instr₁, v⟩, hk, hr⟩ := bind_eq_ok.1 hr
  obtain ⟨⟨trap₁, x⟩, hd, hr⟩ := bind_eq_ok.1 hr
  simp only [pure, Except.pure, Except.ok.injEq, Prod.mk.injEq] at hr
  obtain ⟨-, -, rfl⟩ := hr
  refine .driverStep ?_ hd
  unfold handleInstruction at hk
  split at hk
  · cases hk
    exact .step h hs
  · obtain ⟨⟨k₂, rf, mem, trap₂⟩, -, hk⟩ := bind_eq_ok.1 hk
    cases hk
    exact .host rf mem u.nopsInARow (.step h hs)

end Reachable

end FuncSim

end MiptMips
