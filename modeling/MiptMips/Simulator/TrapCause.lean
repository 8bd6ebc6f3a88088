import MiptMips.Simulator.TrapFree

/-!
# The cause of the last trap

The RISC-V driver sees every instruction, and writes the cause register before it looks whether
there is a trap to handle. So an instruction without a trap leaves the registers as they are only
where it has left the cause of no trap itself; and only then is the cause of the last trap, or what
the program wrote over it, still there at the next one.
-/

namespace MiptMips

open Machines

variable {M K : Type} [FuncMemory M] {w : ℕ}

namespace RiscV

section Model

/-- An instruction of a run: as it retires, as the kernel leaves it, and the registers before and
after the driver. -/
structure DriverTrace (w : ℕ) where
  instr : FuncInstr w
  handled : FuncInstr w
  left : RF w
  after : RF w

variable (opcodes : RiscVOpcodes)

/-- The body of the run loop, with what there is before the driver and after it. -/
def tracedStep (kernel : Kernel w M K) (s : K × FuncSim w M) :
    Except SimException (DriverTrace w × K × FuncSim w M) := do
  let (instr, sim) ← s.2.step (isa opcodes w)
  let (k, handled, sim) ← sim.handleInstruction kernel s.1 instr
  let (_, after) ← sim.driverStep (isa opcodes w) handled
  return (⟨instr, handled, sim.rf, after.rf⟩, k, after)

def scause : Register := RiscVRegister.fromCsrName opcodes "scause"

/-- What the driver writes for a trap. -/
def causeOf (trap : Trap) : BitVec w :=
  ((trap.toRiscvFormat opcodes.causes).setWidth 64).setWidth w

/-- The program writes the cause register itself, or asks the kernel to. -/
def DriverTrace.WritesCause (o : DriverTrace w) : Prop :=
  o.instr.trap = .syscall ∨ (scause opcodes).toRfIndex = o.instr.dst0.toRfIndex
    ∨ (scause opcodes).toRfIndex = o.instr.dst1.toRfIndex

instance (o : DriverTrace w) : Decidable (o.WritesCause opcodes) :=
  inferInstanceAs (Decidable (_ ∨ _ ∨ _))

/-- The cause of the last trap of a run, or what was written over it, or what there was before. -/
def lastCause : BitVec w → List (DriverTrace w) → BitVec w
  | cause, [] => cause
  | cause, o :: os =>
    lastCause
      (if o.handled.trap ≠ .noTrap then causeOf opcodes o.handled.trap
        else if o.WritesCause opcodes then o.left.get (scause opcodes) else cause) os

/-- The driver leaves all registers as an instruction without a trap left them, and the cause
register has the last cause. -/
structure CsrsKept (s : K × FuncSim w M) (os : List (DriverTrace w)) (t : K × FuncSim w M) :
    Prop where
  left : ∀ o ∈ os, o.handled.trap = .noTrap → ∀ num, o.after.get num = o.left.get num
  cause : t.2.rf.get (scause opcodes) = lastCause opcodes (s.2.rf.get (scause opcodes)) os

/-- All instructions without a trap leave the cause of no trap. -/
def LeavesNoCause (os : List (DriverTrace w)) : Prop :=
  ∀ o ∈ os, o.handled.trap = .noTrap → o.left.get (scause opcodes) = causeOf opcodes .noTrap

end Model

section Step

variable {opcodes : RiscVOpcodes} {kernel : Kernel w M K} {s t : K × FuncSim w M}
  {o : DriverTrace w}

/-- All that the loop does with an instruction. -/
theorem tracedStep_cases (h : tracedStep opcodes kernel s = .ok (o, t)) : ∃ u v trap,
    s.2.step (isa opcodes w) = .ok (o.instr, u)
      ∧ u.handleInstruction kernel s.1 o.instr = .ok (t.1, o.handled, v) ∧ o.left = v.rf
      ∧ v.driverStep (isa opcodes w) o.handled = .ok (trap, t.2) ∧ o.after = t.2.rf := by
  unfold tracedStep at h
  obtain ⟨⟨instr, u⟩, hu, h⟩ := bind_eq_ok.1 h
  obtain ⟨⟨k, handled, v⟩, hk, h⟩ := bind_eq_ok.1 h
  obtain ⟨⟨trap, x⟩, hd, h⟩ := bind_eq_ok.1 h
  cases h
  exact ⟨u, v, trap, hu, hk, rfl, hd, rfl⟩

/-- No two names stand for one register, if the list has one of them. -/
theorem fromCsrName_ne {name other : String} (hname : name ∈ opcodes.csrs.map (·.1))
    (hne : name ≠ other) : (RiscVRegister.fromCsrName opcodes name).toRfIndex
      ≠ (RiscVRegister.fromCsrName opcodes other).toRfIndex := by
  intro h
  have hidx : opcodes.csrs.findIdx (·.1 == name) = opcodes.csrs.findIdx (·.1 == other) :=
    Nat.add_left_cancel h
  have hlt : opcodes.csrs.findIdx (·.1 == name) < opcodes.csrs.length := by
    rw [List.findIdx_lt_length]
    obtain ⟨csr, hmem, rfl⟩ := List.mem_map.1 hname
    exact ⟨csr, hmem, by simp⟩
  have hfound := List.findIdx_getElem (w := hlt)
  have hother := List.findIdx_getElem (w := hidx ▸ hlt)
  simp only [← hidx, beq_iff_eq] at hfound hother
  exact hne (hfound.symm.trans hother)

/-- The driver writes the cause, of a trap or of none, and for a trap another register. -/
theorem get_scause_handleTrap (hlisted : "scause" ∈ opcodes.csrs.map (·.1)) {rf : RF w}
    {instr : FuncInstr w} {result : DriverResult w}
    (h : handleTrap opcodes rf instr = .ok result) :
    result.rf.get (scause opcodes) = causeOf opcodes instr.trap := by
  obtain ⟨rf₁, hw, h⟩ := bind_eq_ok.1 h
  obtain rfl := RF.eq_set_of_write (RiscVRegister.isZero_fromCsrName opcodes _) hw
  have hcause : (rf.set (scause opcodes) (causeOf opcodes instr.trap)).get (scause opcodes)
      = causeOf opcodes instr.trap := by
    rw [RF.get_set, if_pos rfl]
  split_ifs at h with htrap
  · cases h
    exact hcause
  · obtain ⟨tvec, -, h⟩ := bind_eq_ok.1 h
    obtain ⟨rf₂, hw₂, h⟩ := bind_eq_ok.1 h
    obtain rfl := RF.eq_set_of_write (RiscVRegister.isZero_fromCsrName opcodes _) hw₂
    cases h
    refine Eq.trans ?_ hcause
    exact (RF.get_set _).trans (if_neg (fromCsrName_ne hlisted (by decide)))

/-- Without a trap it writes nothing else. -/
theorem get_after (h : tracedStep opcodes kernel s = .ok (o, t))
    (htrap : o.handled.trap = .noTrap) (num : Register) : o.after.get num
      = if num.toRfIndex = (scause opcodes).toRfIndex then causeOf opcodes .noTrap
        else o.left.get num := by
  obtain ⟨u, v, trap, -, -, hleft, hdriver, hafter⟩ := tracedStep_cases h
  obtain ⟨result, hr, hd⟩ := bind_eq_ok.1 hdriver
  obtain rfl := handleTrap_noTrap opcodes htrap hr
  obtain ⟨-, ht⟩ := Prod.mk.inj (Except.ok.inj hd)
  rw [hafter, hleft, ← ht]
  exact RF.get_set _

/-- What the program does not write stays as it was, up to the driver. -/
theorem get_left (hs : s.2.Reachable (isa opcodes w))
    (h : tracedStep opcodes kernel s = .ok (o, t)) (hw : ¬ o.WritesCause opcodes) :
    o.left.get (scause opcodes) = s.2.rf.get (scause opcodes) := by
  obtain ⟨u, v, trap, hstep, hkernel, hleft, -, -⟩ := tracedStep_cases h
  simp only [DriverTrace.WritesCause, not_or] at hw
  obtain ⟨hsyscall, hdst₀, hdst₁⟩ := hw
  rw [FuncSim.handleInstruction, if_pos hsyscall] at hkernel
  obtain ⟨-, -, rfl⟩ : s.1 = t.1 ∧ o.instr = o.handled ∧ u = v := by
    simpa only [Except.ok.injEq, Prod.mk.injEq] using hkernel
  obtain ⟨e⟩ := FuncSim.step_cases hstep
  obtain ⟨vDst0, complete, hinstr⟩ := FuncSim.retired_of_step hs hstep
  have hshape : FaultShape (fetchInstr (isa opcodes w) s.2.imem.endian s.2.mem s.2.getPC) :=
    faultShape_riscv opcodes _ _
  obtain ⟨_, _, _, _, _, _, _, hrun⟩ :=
    executed_run (f := s.2.current (isa opcodes w)) (s.2.current (isa opcodes w)).executor
  have hacc : o.instr.getAccumulationType ≠ 0 →
      o.instr.dst0 = .mips 33 ∧ o.instr.dst1 = .mips 32 := by
    rw [hinstr, FuncInstr.execute, hrun]
    exact hshape.accumulator
  rw [hleft]
  exact RF.get_writeDst_of_ne e.written hacc (fun _ => hdst₀) fun _ => hdst₁

end Step

section Run

variable {opcodes : RiscVOpcodes} {kernel : Kernel w M K} {s t : K × FuncSim w M}
  {o : DriverTrace w} {os : List (DriverTrace w)}

/-- The loop stays among the states that a simulator gets into. -/
theorem reachable_tracedStep (hs : s.2.Reachable (isa opcodes w))
    (h : tracedStep opcodes kernel s = .ok (o, t)) : t.2.Reachable (isa opcodes w) := by
  obtain ⟨u, v, trap, hstep, hkernel, -, hdriver, -⟩ := tracedStep_cases h
  have hrun : FuncSim.runStep (isa opcodes w) kernel (s.1, s.2) = .ok (trap, t.1, t.2) := by
    unfold FuncSim.runStep
    simp only [hstep, hkernel, hdriver, bind, Except.bind, pure, Except.pure]
  exact hs.runStep hrun

/-- An instruction without a trap is left alone if and only if it leaves the cause of no trap. -/
theorem left_iff (h : tracedStep opcodes kernel s = .ok (o, t)) (htrap : o.handled.trap = .noTrap) :
    (∀ num, o.after.get num = o.left.get num)
      ↔ o.left.get (scause opcodes) = causeOf opcodes .noTrap := by
  constructor
  · intro hkept
    rw [← hkept, get_after h htrap, if_pos rfl]
  · intro hcause num
    rw [get_after h htrap]
    split_ifs with hnum
    · rw [← hcause, RF.get, RF.get, hnum]
    · rfl

theorem left_run_iff (h : Steps (tracedStep opcodes kernel) s os t) :
    (∀ o ∈ os, o.handled.trap = .noTrap → ∀ num, o.after.get num = o.left.get num)
      ↔ LeavesNoCause opcodes os := by
  induction h with
  | nil s => simp [LeavesNoCause]
  | cons hstep hrest ih =>
    unfold LeavesNoCause at ih ⊢
    rw [List.forall_mem_cons, List.forall_mem_cons, ih]
    exact and_congr_left fun _ => forall_congr' fun htrap => left_iff hstep htrap

/-- The cause register after one instruction. -/
theorem cause_of_tracedStep (hlisted : "scause" ∈ opcodes.csrs.map (·.1))
    (hs : s.2.Reachable (isa opcodes w)) (h : tracedStep opcodes kernel s = .ok (o, t))
    (hcause : o.handled.trap = .noTrap → o.left.get (scause opcodes) = causeOf opcodes .noTrap) :
    t.2.rf.get (scause opcodes)
      = if o.handled.trap ≠ .noTrap then causeOf opcodes o.handled.trap
        else if o.WritesCause opcodes then o.left.get (scause opcodes)
        else s.2.rf.get (scause opcodes) := by
  obtain ⟨u, v, trap, -, -, hleft, hdriver, hafter⟩ := tracedStep_cases h
  rw [← hafter]
  by_cases htrap : o.handled.trap = .noTrap
  · rw [if_neg (not_not.2 htrap), (left_iff h htrap).2 (hcause htrap)]
    split_ifs with hw
    · rfl
    · exact get_left hs h hw
  · rw [if_pos htrap, hafter]
    obtain ⟨result, hr, hd⟩ := bind_eq_ok.1 hdriver
    obtain ⟨-, ht⟩ := Prod.mk.inj (Except.ok.inj hd)
    have hresult : result.rf.get (scause opcodes) = causeOf opcodes o.handled.trap :=
      get_scause_handleTrap hlisted hr
    rw [← ht, ← hresult]
    rcases result.pc with _ | pc <;> rfl

theorem cause_of_run (hlisted : "scause" ∈ opcodes.csrs.map (·.1))
    (h : Steps (tracedStep opcodes kernel) s os t) (hs : s.2.Reachable (isa opcodes w))
    (hcause : LeavesNoCause opcodes os) :
    t.2.rf.get (scause opcodes) = lastCause opcodes (s.2.rf.get (scause opcodes)) os := by
  induction h with
  | nil s => rfl
  | cons hstep hrest ih =>
    obtain ⟨hfirst, hothers⟩ := List.forall_mem_cons.1 hcause
    rw [lastCause, ← cause_of_tracedStep hlisted hs hstep hfirst]
    exact ih (reachable_tracedStep hs hstep) hothers

/-- For every run: the driver leaves the registers of instructions without a trap alone and the
cause register keeps the last cause, if and only if these instructions leave the cause of no trap
there. -/
theorem csrsKept_iff (hlisted : "scause" ∈ opcodes.csrs.map (·.1))
    (hs : s.2.Reachable (isa opcodes w)) (h : Steps (tracedStep opcodes kernel) s os t) :
    CsrsKept opcodes s os t ↔ LeavesNoCause opcodes os :=
  ⟨fun hkept => (left_run_iff h).1 hkept.left,
    fun hcause => ⟨(left_run_iff h).2 hcause, cause_of_run hlisted h hs hcause⟩⟩

end Run

section Example

/-- The two registers that a trap changes, and the instruction that writes a number to one. -/
def trapOpcodes : RiscVOpcodes where
  insn name := if name = "csrrwi" then (0x5073#32, 0x707f#32) else (0xffffffff#32, 0xffffffff#32)
  csrs := [("sepc", 0x141), ("scause", 0x142), ("stvec", 0x105)]
  causes := ⟨3#8, 8#8, 2#8, 4#8, 6#8, 0#8⟩

/-- A RISC-V simulator at an instruction at the address 8. -/
def trapSimulator (mem : PlainMemory) : FuncSim 64 PlainMemory :=
  (FuncSim.create (isa trapOpcodes 64) .little 16 mem).setTarget 8#64 0#64

/-- `csrrwi x0, scause, 16` leaves the cause of no trap. -/
theorem csrsKept_iff_sixteen : ∃ o t,
    Steps (tracedStep trapOpcodes (Kernel.dummy 64 PlainMemory))
      ((), trapSimulator (memoryWith 0x73#8 0x50#8 0x28#8 0x14#8)) [o] t
      ∧ CsrsKept trapOpcodes ((), trapSimulator (memoryWith 0x73#8 0x50#8 0x28#8 0x14#8)) [o] t := by
  have hrun : ∃ o t, Steps (tracedStep trapOpcodes (Kernel.dummy 64 PlainMemory))
      ((), trapSimulator (memoryWith 0x73#8 0x50#8 0x28#8 0x14#8)) [o] t
      ∧ o.left.get (scause trapOpcodes) = causeOf trapOpcodes .noTrap :=
    ⟨_, _, .cons rfl (.nil _), rfl⟩
  obtain ⟨o, t, hrun, hcause⟩ := hrun
  refine ⟨o, t, hrun, (csrsKept_iff (by decide) (.setTarget _ _ (.create _ _ _)) hrun).2 ?_⟩
  intro o' ho' _
  rw [List.mem_singleton.1 ho']
  exact hcause

/-- `csrrwi x0, scause, 5` does not trap, and the driver writes over what it wrote. -/
theorem not_csrsKept : ∃ o t,
    Steps (tracedStep trapOpcodes (Kernel.dummy 64 PlainMemory))
      ((), trapSimulator (memoryWith 0x73#8 0xd0#8 0x22#8 0x14#8)) [o] t
      ∧ o.handled.trap = .noTrap ∧ o.left.get (scause trapOpcodes) = 5#64
      ∧ o.after.get (scause trapOpcodes) = 16#64
      ∧ ¬ CsrsKept trapOpcodes
        ((), trapSimulator (memoryWith 0x73#8 0xd0#8 0x22#8 0x14#8)) [o] t := by
  have hrun : ∃ o t, Steps (tracedStep trapOpcodes (Kernel.dummy 64 PlainMemory))
      ((), trapSimulator (memoryWith 0x73#8 0xd0#8 0x22#8 0x14#8)) [o] t
      ∧ o.handled.trap = .noTrap ∧ o.left.get (scause trapOpcodes) = 5#64
      ∧ o.after.get (scause trapOpcodes) = 16#64 :=
    ⟨_, _, .cons rfl (.nil _), rfl, rfl, rfl⟩
  obtain ⟨o, t, hrun, htrap, hleft, hafter⟩ := hrun
  refine ⟨o, t, hrun, htrap, hleft, hafter, fun hkept => ?_⟩
  have hsame := hkept.left o (List.mem_singleton_self o) htrap (scause trapOpcodes)
  rw [hleft, hafter] at hsame
  simp at hsame

end Example

end RiscV

end MiptMips
