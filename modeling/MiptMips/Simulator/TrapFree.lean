import MiptMips.Modules.PerfInstr
import MiptMips.Simulator.DelaySlots

/-!
# Runs without traps

A run of the functional simulator in which nothing traps, of a program without delay slots that
does not overwrite what it is still going to execute. The driver has nothing to handle there, but
it may write registers all the same: the RISC-V one writes the cause after every instruction.
-/

namespace MiptMips

open Machines

variable {w : ℕ}

section Driver

/-- The driver changes the register although there is nothing to handle. -/
def ISA.DriverWrites (isa : ISA w) (num : Register) : Prop := ∃ rf instr result,
  FuncInstr.trap instr = .noTrap ∧ isa.handleTrap rf instr = .ok result
    ∧ result.rf.get num ≠ rf.get num

/-- The driver would leave the register as it is. -/
def ISA.DriverLeaves (isa : ISA w) (rf : RF w) (num : Register) : Prop := ∃ instr result,
  FuncInstr.trap instr = .noTrap ∧ isa.handleTrap rf instr = .ok result
    ∧ result.rf.get num = rf.get num

/-- Register files that differ at most where the driver writes. -/
structure RF.Agrees (isa : ISA w) (rf rf' : RF w) : Prop where
  maxReg : rf'.maxReg = rf.maxReg
  get : ∀ num, ¬ isa.DriverWrites num → rf'.get num = rf.get num

variable {isa : ISA w} {rf rf' rf'' rf₁ : RF w} {instr instr' : FuncInstr w} {num : Register}

theorem RF.Agrees.refl (isa : ISA w) (rf : RF w) : rf.Agrees isa rf := ⟨rfl, fun _ _ => rfl⟩

theorem RF.Agrees.trans (h : rf.Agrees isa rf') (h' : rf'.Agrees isa rf'') : rf.Agrees isa rf'' :=
  ⟨h'.maxReg.trans h.maxReg, fun num hn => (h'.get num hn).trans (h.get num hn)⟩

theorem RF.Agrees.symm (h : rf.Agrees isa rf') : rf'.Agrees isa rf :=
  ⟨h.maxReg.symm, fun num hn => (h.get num hn).symm⟩

/-- The MIPS driver leaves the registers alone. -/
theorem not_driverWrites_mips (version : MipsVersion) (num : Register) :
    ¬ (Mips.isa version).DriverWrites num := by
  rintro ⟨rf, instr, result, ht, hr, hne⟩
  have hr' : Mips.handleTrap rf instr = .ok result := hr
  rw [Mips.handleTrap, if_pos (.inl ht)] at hr'
  cases hr'
  exact hne rfl

/-- The RISC-V driver writes that there is no cause. -/
theorem RiscV.handleTrap_noTrap (opcodes : RiscVOpcodes) {result : DriverResult w}
    (ht : instr.trap = .noTrap) (hr : RiscV.handleTrap opcodes rf instr = .ok result) :
    result = ⟨rf.set (RiscVRegister.fromCsrName opcodes "scause")
      ((Trap.noTrap.toRiscvFormat opcodes.causes).setWidth 64 |>.setWidth w), none, .noTrap⟩ := by
  obtain ⟨written, hw, hr⟩ := bind_eq_ok.1 hr
  rw [ht] at hw hr
  cases hr
  obtain rfl := RF.eq_set_of_write (RiscVRegister.isZero_fromCsrName opcodes _) hw
  rfl

/-- A driver that has nothing to handle lets the program go on. -/
theorem IsSupported.driver (hisa : IsSupported isa) {result : DriverResult w}
    (ht : instr.trap = .noTrap) (hr : isa.handleTrap rf instr = .ok result) :
    result.trap = .noTrap ∧ result.pc = none ∧ rf.Agrees isa result.rf := by
  have hget : ∀ num, ¬ isa.DriverWrites num → result.rf.get num = rf.get num :=
    fun num hn => not_not.1 fun hne => hn ⟨rf, instr, result, ht, hr, hne⟩
  cases hisa with
  | mips version =>
    have hr' : Mips.handleTrap rf instr = .ok result := hr
    rw [Mips.handleTrap, if_pos (.inl ht)] at hr'
    cases hr'
    exact ⟨ht, rfl, .refl _ _⟩
  | riscv opcodes hw =>
    obtain rfl := RiscV.handleTrap_noTrap opcodes ht hr
    exact ⟨rfl, rfl, rfl, hget⟩

/-- What it writes depends neither on the registers nor on the instruction. -/
theorem IsSupported.get_driver (hisa : IsSupported isa) {result result' : DriverResult w}
    (hnum : isa.DriverWrites num) (ht : instr.trap = .noTrap)
    (hr : isa.handleTrap rf instr = .ok result) (ht' : instr'.trap = .noTrap)
    (hr' : isa.handleTrap rf' instr' = .ok result') : result'.rf.get num = result.rf.get num := by
  cases hisa with
  | mips version => exact absurd hnum (not_driverWrites_mips version num)
  | riscv opcodes hw =>
    obtain ⟨rf₀, instr₀, result₀, ht₀, hr₀, hne⟩ := hnum
    obtain rfl := RiscV.handleTrap_noTrap opcodes ht hr
    obtain rfl := RiscV.handleTrap_noTrap opcodes ht' hr'
    obtain rfl := RiscV.handleTrap_noTrap opcodes ht₀ hr₀
    simp only [RF.get_set] at hne ⊢
    split_ifs at hne ⊢
    · rfl
    · exact absurd rfl hne

/-- An instruction accumulates only where the driver leaves all registers alone. -/
theorem IsSupported.accumulation (hisa : IsSupported isa) (bytes : BitVec 32) (endian : Endian)
    (PC : Addr) : (isa.createInstr bytes endian PC).getAccumulationType = 0
      ∨ ∀ num, ¬ isa.DriverWrites num := by
  cases hisa with
  | mips version => exact .inr (not_driverWrites_mips version)
  | riscv opcodes hw =>
    refine .inl (not_not.1 fun hne => ?_)
    have hop := operation_of_accumulation hne
    obtain ⟨target, newPC, vImm, hi⟩ := RiscV.createInstr_entry (w := w) opcodes bytes PC
    obtain ⟨-, -, ha, hs⟩ := faults_cmdDesc _ (RiscV.findEntry_mem (w := w) opcodes bytes)
    rw [show (RiscV.isa opcodes w).createInstr bytes endian PC = _ from hi] at hop
    exact hop.elim ha hs

/-- The same results can be written where a register file agrees, and it still agrees then. -/
theorem RF.Agrees.writeDst (h : rf.Agrees isa rf')
    (hacc : instr.getAccumulationType = 0 ∨ ∀ num, ¬ isa.DriverWrites num)
    (hw : rf.writeDst instr = .ok rf₁) : ∃ rf₁', rf'.writeDst instr = .ok rf₁' ∧
      rf₁.Agrees isa rf₁' := by
  rcases hacc with hacc | hno
  · obtain ⟨rf₂, h₀, h₁⟩ := RF.writeDst_ok hw
    have hv₀ := RF.valid_of_writeAccumulated h₀
    have hv₁ := RF.valid_of_writeAccumulated h₁
    obtain ⟨rf₂', h₂', hmax₂⟩ := RF.writeMasked_ok hv₀ instr.vDst0 instr.mask
    rw [hacc, h₂'] at h₀
    cases h₀
    rw [RF.Valid, hmax₂] at hv₁
    have hv₀' : rf'.Valid instr.dst0 := by rwa [RF.Valid, h.maxReg]
    have hv₁' : rf'.Valid instr.dst1 := by rwa [RF.Valid, h.maxReg]
    obtain ⟨rf₁', hw', hmax'⟩ := RF.writeDst_total hv₀' hv₁' hacc
    obtain ⟨rf₃, hw₃, hmax₃⟩ := RF.writeDst_total hv₀ hv₁ hacc
    rw [hw] at hw₃
    cases hw₃
    refine ⟨rf₁', hw', by rw [hmax', hmax₃, h.maxReg], fun num hn => ?_⟩
    rw [RF.get_writeDst hw hacc, RF.get_writeDst hw' hacc, h.get num hn]
    split_ifs with hd₁ hd₀
    · rfl
    · -- the register itself is written, under a mask
      have hsame : ∀ rf : RF w, rf.get instr.dst0 = rf.get num := fun rf => by
        rw [RF.get, RF.get, hd₀.2]
      rw [RF.applyMask, RF.applyMask, hsame, hsame, h.get num hn]
    · rfl
  · have heq : rf' = rf := by
      obtain ⟨maxReg, array⟩ := rf
      obtain ⟨maxReg', array'⟩ := rf'
      obtain rfl : maxReg' = maxReg := h.maxReg
      obtain rfl : array' = array := funext fun i => h.get (.mips i) (hno _)
      rfl
    rw [heq]
    exact ⟨rf₁, hw, .refl _ _⟩

end Driver

/-- Steps of the functional simulator without traps. -/
structure FuncRun (isa : ISA w) (M : Type) [FuncMemory M] where
  length : ℕ
  sim : ℕ → FuncSim w M
  instr : ℕ → FuncInstr w
  start : (sim 0).Reachable isa
  delayedSlots : (sim 0).delayedSlots = 0
  step : ∀ i < length, ∃ t, (sim i).step isa = .ok (instr i, t)
    ∧ t.driverStep isa (instr i) = .ok (.noTrap, sim (i + 1))
  trap : ∀ i < length, (instr i).trap = .noTrap
  straight : ∀ i < length,
    Straight (fetchInstr isa (sim i).imem.endian (sim i).mem (sim i).getPC)
  /-- The word of an instruction has been in memory from the start. -/
  code : ∀ i j, i ≤ j → j < length → fetch (sim j).imem.endian (sim i).mem (sim j).getPC
    = fetch (sim j).imem.endian (sim j).mem (sim j).getPC

section Trajectory

variable {M : Type} [FuncMemory M] (isa : ISA w) (s : FuncSim w M)

/-- A step of the simulator and the driver, if nothing traps. -/
def FuncSim.advance : Option (FuncInstr w × FuncSim w M) :=
  match s.step isa with
  | .error _ => none
  | .ok (instr, t) =>
    match t.driverStep isa instr with
    | .ok (.noTrap, u) => if instr.trap = .noTrap then some (instr, u) else none
    | _ => none

theorem FuncSim.advance_eq_some {s u : FuncSim w M} {instr : FuncInstr w}
    (h : s.advance isa = some (instr, u)) : instr.trap = .noTrap
      ∧ ∃ t, s.step isa = .ok (instr, t) ∧ t.driverStep isa instr = .ok (.noTrap, u) := by
  unfold advance at h
  split at h
  · cases h
  · rename_i instr' t hs
    split at h
    · rename_i u' hd
      split_ifs at h with ht
      cases h
      exact ⟨ht, t, hs, hd⟩
    · cases h

/-- The states of the simulator, up to the first step that throws or traps. -/
def FuncSim.trajectory : ℕ → FuncSim w M
  | 0 => s
  | i + 1 => ((FuncSim.trajectory i).advance isa).elim (FuncSim.trajectory i) Prod.snd

/-- The run from a state, as long as nothing throws or traps. -/
def FuncRun.ofStart (length : ℕ) (hstart : s.Reachable isa) (hslots : s.delayedSlots = 0)
    (hok : ∀ i < length, ((s.trajectory isa i).advance isa).isSome)
    (hstraight : ∀ i < length, Straight (fetchInstr isa (s.trajectory isa i).imem.endian
      (s.trajectory isa i).mem (s.trajectory isa i).getPC))
    (hcode : ∀ j < length, ∀ i ≤ j,
      fetch (s.trajectory isa j).imem.endian (s.trajectory isa i).mem (s.trajectory isa j).getPC
        = fetch (s.trajectory isa j).imem.endian (s.trajectory isa j).mem
          (s.trajectory isa j).getPC) : FuncRun isa M where
  length := length
  sim := s.trajectory isa
  instr i := ((s.trajectory isa i).advance isa).elim ((s.trajectory isa i).current isa) Prod.fst
  start := hstart
  delayedSlots := hslots
  step i hi := by
    obtain ⟨⟨instr, u⟩, h⟩ := Option.isSome_iff_exists.1 (hok i hi)
    rw [FuncSim.trajectory, h]
    exact (FuncSim.advance_eq_some isa h).2
  trap i hi := by
    obtain ⟨⟨instr, u⟩, h⟩ := Option.isSome_iff_exists.1 (hok i hi)
    rw [h]
    exact (FuncSim.advance_eq_some isa h).1
  straight := hstraight
  code i j hij hj := hcode j hj i hij

end Trajectory

namespace FuncRun

variable {isa : ISA w} {M : Type} [FuncMemory M] (arch : FuncRun isa M) {i : ℕ}

/-- Where an instruction is, and its number. -/
def target (i : ℕ) : Target := ⟨(arch.sim i).getPC, (arch.sim i).sequenceId⟩

variable {arch}

theorem reachable : ∀ {i}, i ≤ arch.length → (arch.sim i).Reachable isa
  | 0, _ => arch.start
  | i + 1, hi => by
    obtain ⟨t, hs, hd⟩ := arch.step i hi
    exact ((reachable (Nat.le_of_succ_le hi)).step hs).driverStep hd

/-- What a step executes, and what it leaves. -/
structure Next (arch : FuncRun isa M) (i : ℕ) : Prop where
  accessed : FuncMemory.loadStore (arch.sim i).mem ((arch.sim i).current isa).execute
    = .ok (arch.instr i, (arch.sim (i + 1)).mem)
  written : ∃ rf result, (arch.sim i).rf.writeDst (arch.instr i) = .ok rf
    ∧ isa.handleTrap rf (arch.instr i) = .ok result ∧ (arch.sim (i + 1)).rf = result.rf
  delayedSlots : (arch.sim (i + 1)).delayedSlots = 0
  target : arch.target (i + 1) = ⟨(arch.instr i).newPC, (arch.instr i).sequenceId + 1⟩
  endian : (arch.sim (i + 1)).imem.endian = (arch.sim i).imem.endian

theorem next (hisa : IsSupported isa) (hi : i < arch.length)
    (hslots : (arch.sim i).delayedSlots = 0) : arch.Next i := by
  obtain ⟨t, hs, hd⟩ := arch.step i hi
  obtain ⟨e⟩ := FuncSim.step_cases hs
  have hcoh := (reachable hi.le).coherent
  obtain ⟨-, hcur, himem⟩ := (FuncSim.fetchOperands_iff hcoh).1 e.fetched
  have haccess := e.accessed
  rw [hcur] at haccess
  obtain ⟨v, complete, hinstr⟩ := FuncSim.loadStore_frame haccess
  -- the driver has nothing to handle
  obtain ⟨result, hdriver, hd⟩ := bind_eq_ok.1 hd
  obtain ⟨-, hpc, -⟩ := hisa.driver (arch.trap i hi) hdriver
  rw [hpc] at hd
  have hsim : { t with rf := result.rf } = arch.sim (i + 1) := (Prod.mk.inj (Except.ok.inj hd)).2
  -- the program counter moves on without slots
  have hdecoded : ((arch.sim i).current isa).delayedSlots = 0 :=
    (arch.straight i hi).decoded.delayedSlots
  obtain ⟨_, _, _, _, _, _, _, hrun⟩ :=
    executed_run (f := (arch.sim i).current isa) ((arch.sim i).current isa).executor
  have hsame : (arch.instr i).delayedSlots = 0
      ∧ (arch.instr i).sequenceId = (arch.sim i).sequenceId := by
    rw [hinstr, FuncInstr.execute, hrun]
    exact ⟨hdecoded, rfl⟩
  have hmove := FuncSim.movePC_of_step hs
  rw [hsame.1, hslots] at hmove
  obtain ⟨ht, hpc'⟩ := FuncSim.movePC_no_slot (Nat.zero_le 1) hmove
  obtain ⟨pc, pending, -, hu⟩ := FuncSim.updatePC_eq e.updated
  obtain ⟨m, hn⟩ := FuncSim.updateAndCheckNopCounter_eq e.checked
  refine ⟨?_, ⟨t.rf, result, e.written, hdriver, ?_⟩, ?_, ?_, ?_⟩
  · rw [← hsim]
    exact haccess
  · rw [← hsim]
  · rw [← hsim]
    exact ht
  · rw [target, ← hsim, hsame.2]
    simp only [Target.mk.injEq]
    refine ⟨hpc', ?_⟩
    rw [hn, hu]
  · rw [← hsim]
    show t.imem.endian = _
    rw [himem, endian_fetchInstr]

theorem delayedSlots_eq (hisa : IsSupported isa) :
    ∀ {i}, i ≤ arch.length → (arch.sim i).delayedSlots = 0
  | 0, _ => arch.delayedSlots
  | _ + 1, hi => (next hisa hi (delayedSlots_eq hisa (Nat.le_of_succ_le hi))).delayedSlots

theorem endian_eq (hisa : IsSupported isa) :
    ∀ {i}, i ≤ arch.length → (arch.sim i).imem.endian = (arch.sim 0).imem.endian
  | 0, _ => rfl
  | _ + 1, hi => by
    have hle := Nat.le_of_succ_le hi
    exact (next hisa hi (delayedSlots_eq hisa hle)).endian.trans (endian_eq hisa hle)

/-- From the first instruction on, what the driver writes is there. -/
theorem get_rf_of_driverWrites (hisa : IsSupported isa) {rf : RF w} {instr : FuncInstr w}
    {result : DriverResult w} {num : Register} (hnum : isa.DriverWrites num)
    (ht : instr.trap = .noTrap) (hr : isa.handleTrap rf instr = .ok result) (hpos : 0 < i)
    (hi : i ≤ arch.length) : (arch.sim i).rf.get num = result.rf.get num := by
  obtain ⟨j, rfl⟩ : ∃ j, i = j + 1 := ⟨i - 1, by omega⟩
  obtain ⟨written, result', -, hr', hrf⟩ := (next hisa hi (delayedSlots_eq hisa (by omega))).written
  rw [hrf]
  exact hisa.get_driver hnum ht hr (arch.trap j hi) hr'

end FuncRun

end MiptMips
