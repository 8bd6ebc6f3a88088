import MiptMips.FuncSim.FuncSim
import MiptMips.Modules.Backend

/-!
# Writeback

Writeback writes the results of the instructions that arrive, lets the kernel and the driver look
at them, and sends a new target to Fetch when one of them trapped. The built-in checker is
disabled.
-/

namespace MiptMips

open Machines

variable {w : ℕ} {M K : Type}

/-- The first value that is written to a port is the one that is read. -/
structure WritebackOut (w : ℕ) where
  bypass : List (InstructionOutput w) := []
  halt : Option Trap := none
  trap : Bool := false
  target : Option Target := none

structure Writeback where
  instrsToRun : ℕ := 0
  executedInstrs : ℕ := 0
  lastWritebackCycle : ℕ := 0
  nextPC : Addr := 0#64

/-- What Writeback works on. -/
structure WritebackState (w : ℕ) (M K : Type) where
  unit : Writeback
  rf : RF w
  mem : M
  kernelState : K
  out : WritebackOut w

namespace WritebackState

variable (s : WritebackState w M K)

/-- `set_writeback_target`. -/
def setTarget (value : Target) : WritebackState w M K :=
  { s with
    unit := { s.unit with nextPC := value.address }
    out := { s.out with trap := true, target := s.out.target.or (some value) } }

def writebackInstruction (instr : PerfInstr w) (cycle : ℕ) :
    Except SimException (WritebackState w M K) := do
  let rf ← s.rf.writeDst instr.toFuncInstr
  return { s with
    rf := rf
    out := { s.out with bypass := s.out.bypass ++ [instr.vDst] }
    unit := { s.unit with
      executedInstrs := s.unit.executedInstrs + 1
      lastWritebackCycle := cycle
      nextPC := instr.newPC } }

variable (kernel : Kernel w M K)

/-- A system call may change registers and memory, and leaves its own trap. -/
def handleInstruction (instr : PerfInstr w) :
    Except SimException (PerfInstr w × WritebackState w M K) :=
  if instr.trap ≠ .syscall then .ok (instr, s)
  else do
    let (kernelState, rf, mem, trap) ← kernel.executeInteractive s.kernelState s.rf s.mem
    return (instr.withInstr { instr.toFuncInstr with trap := trap }, { s with kernelState, rf, mem })

variable (isa : ISA w)

/-- The driver may write registers and set the program counter. -/
def handleTrap (instr : PerfInstr w) : Except SimException (Trap × WritebackState w M K) := do
  let result ← isa.handleTrap s.rf instr.toFuncInstr
  let s := { s with rf := result.rf }
  return (result.trap, match result.pc with
    | some pc => s.setTarget ⟨pc, 0#64⟩
    | none => s)

def writeHalt (resultTrap : Trap) : WritebackState w M K :=
  let trap := if s.unit.executedInstrs ≥ s.unit.instrsToRun then .breakpoint else resultTrap
  { s with out := { s.out with halt := s.out.halt.or (some trap) } }

def writebackInstructionSystem (instr : PerfInstr w) (cycle : ℕ) :
    Except SimException (WritebackState w M K) := do
  let hasSyscall := instr.trap == .syscall
  let s ← s.writebackInstruction instr cycle
  let (instr, s) ← s.handleInstruction kernel instr
  let (resultTrap, s) ← s.handleTrap isa instr
  let s := s.writeHalt resultTrap
  return if hasSyscall ∨ resultTrap ≠ .noTrap then s.setTarget instr.getActualTarget else s

def writebackBubble (cycle : ℕ) : Except SimException (WritebackState w M K) :=
  if cycle ≥ s.unit.lastWritebackCycle + 100 then .error .deadlock else .ok s

/-- Nothing is written back in a cycle when a trap is signalled. -/
def clock (trap : Bool) (instrs : List (PerfInstr w)) (cycle : ℕ) :
    Except SimException (WritebackState w M K) :=
  if trap then s.writebackBubble cycle
  else if instrs = [] then s.writebackBubble cycle
  else instrs.foldlM (fun s instr => s.writebackInstructionSystem kernel isa instr cycle) s

section Cycle

variable {s t : WritebackState w M K} {kernel : Kernel w M K} {isa : ISA w} {instr : PerfInstr w}
  {cycle : ℕ}

theorem unit_handleInstruction {instr' : PerfInstr w}
    (hs : s.handleInstruction kernel instr = .ok (instr', t)) : t.unit = s.unit ∧ t.out = s.out := by
  unfold handleInstruction at hs
  split_ifs at hs
  · cases hs
    exact ⟨rfl, rfl⟩
  · obtain ⟨k, -, hs⟩ := bind_eq_ok.1 hs
    cases hs
    exact ⟨rfl, rfl⟩

theorem bypass_handleTrap {trap : Trap} (hs : s.handleTrap isa instr = .ok (trap, t)) :
    t.out.bypass = s.out.bypass := by
  obtain ⟨result, -, hs⟩ := bind_eq_ok.1 hs
  cases hs
  cases result.pc <;> rfl

/-- The results of an instruction go to the bypass port. -/
theorem bypass_writebackInstructionSystem
    (hs : s.writebackInstructionSystem kernel isa instr cycle = .ok t) :
    t.out.bypass = s.out.bypass ++ [instr.vDst] := by
  obtain ⟨s₁, h₁, hs⟩ := bind_eq_ok.1 hs
  obtain ⟨⟨instr', s₂⟩, h₂, hs⟩ := bind_eq_ok.1 hs
  obtain ⟨⟨resultTrap, s₃⟩, h₃, hs⟩ := bind_eq_ok.1 hs
  cases hs
  obtain ⟨rf, -, h₁⟩ := bind_eq_ok.1 h₁
  cases h₁
  have hout := (unit_handleInstruction h₂).2
  have hbypass : (s₃.writeHalt resultTrap).out.bypass = s.out.bypass ++ [instr.vDst] :=
    (bypass_handleTrap h₃).trans (congrArg WritebackOut.bypass hout)
  split_ifs <;> exact hbypass

theorem mem_handleTrap {trap : Trap} (hs : s.handleTrap isa instr = .ok (trap, t)) :
    t.mem = s.mem := by
  obtain ⟨result, -, hs⟩ := bind_eq_ok.1 hs
  cases hs
  cases result.pc <;> rfl

/-- The kernel is called for a system call alone, and that is always signalled. -/
theorem mem_writebackInstructionSystem
    (hs : s.writebackInstructionSystem kernel isa instr cycle = .ok t) (hno : t.out.trap = false) :
    t.mem = s.mem := by
  obtain ⟨s₁, h₁, hs⟩ := bind_eq_ok.1 hs
  obtain ⟨⟨instr', s₂⟩, h₂, hs⟩ := bind_eq_ok.1 hs
  obtain ⟨⟨resultTrap, s₃⟩, h₃, hs⟩ := bind_eq_ok.1 hs
  cases hs
  obtain ⟨rf, -, h₁⟩ := bind_eq_ok.1 h₁
  cases h₁
  have hmem := mem_handleTrap h₃
  by_cases hsys : instr.trap = .syscall
  · simp [hsys, setTarget] at hno
  · unfold handleInstruction at h₂
    rw [if_pos hsys] at h₂
    cases h₂
    split_ifs <;> exact hmem

/-- A cycle of Writeback that writes back at most one instruction. -/
theorem clock_cases {trap : Bool} {instrs : List (PerfInstr w)}
    (hone : (if trap then [] else instrs).length ≤ 1)
    (hs : s.clock kernel isa trap instrs cycle = .ok t) :
    (if trap then [] else instrs) = [] ∧ t = s
      ∨ ∃ instr, (if trap then [] else instrs) = [instr]
        ∧ s.writebackInstructionSystem kernel isa instr cycle = .ok t := by
  have hbubble : s.writebackBubble cycle = .ok t → t = s := by
    intro hb
    unfold writebackBubble at hb
    split_ifs at hb
    cases hb
    rfl
  unfold clock at hs
  split_ifs at hs hone ⊢ with ht hn
  · exact .inl ⟨rfl, hbubble hs⟩
  · exact .inl ⟨hn, hbubble hs⟩
  · rcases instrs with _ | ⟨instr, _ | ⟨y, ys⟩⟩
    · exact absurd rfl hn
    · rw [List.foldlM_cons] at hs
      obtain ⟨u, hu, hs⟩ := bind_eq_ok.1 hs
      cases hs
      exact .inr ⟨instr, rfl, hu⟩
    · simp at hone

end Cycle

end WritebackState

end MiptMips
