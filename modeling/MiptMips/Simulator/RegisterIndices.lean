import MiptMips.Memory.AnyMemory
import MiptMips.Simulator.DelaySlots

/-!
# RISC-V register indices

The fields of a word name general registers that are always there. A number of a control and status
register is looked up in the generated list, and one that is not in it gets the index past the end
of the register file. The decoder does not ask whether that happened, so an instruction on an
unlisted register throws when it reads its sources, and the scoreboard is indexed past its end.
-/

namespace MiptMips

open Machines

namespace RiscV

variable {opcodes : RiscVOpcodes} {w : ℕ} {bytes : BitVec 32}

section Decoded

/-- The number of the control and status register that an operand is. -/
def csrNumber (bytes : BitVec 32) : RiscVReg → Option ℕ
  | .csr => some (RiscVInstrDecoder.applyMask bytes 0xfff00000#32 20).toNat
  | .sepc => some 0x141
  | .mepc => some 0x341
  | _ => none

/-- All control and status registers of a word are in the list. -/
def CsrsListed (opcodes : RiscVOpcodes) (w : ℕ) (bytes : BitVec 32) : Prop :=
  ∀ r ∈ (findEntry opcodes w bytes).src ++ (findEntry opcodes w bytes).dst,
    ∀ id ∈ csrNumber bytes r, id ∈ opcodes.csrs.map (·.2)

theorem toNat_applyMask_le (bytes mask : BitVec 32) (shift : ℕ) :
    (RiscVInstrDecoder.applyMask bytes mask shift).toNat ≤ (mask >>> shift).toNat := by
  rw [RiscVInstrDecoder.applyMask, BitVec.toNat_ushiftRight, BitVec.toNat_ushiftRight,
    BitVec.toNat_and, Nat.shiftRight_eq_div_pow, Nat.shiftRight_eq_div_pow]
  exact Nat.div_le_div_right Nat.and_le_right

theorem fromCsrIndex_lt_iff (id : ℕ) :
    (RiscVRegister.fromCsrIndex opcodes id).toRfIndex < RiscVRegister.maxReg opcodes
      ↔ id ∈ opcodes.csrs.map (·.2) := by
  show 32 + opcodes.csrs.findIdx (·.2 == id) < 32 + opcodes.csrs.length ↔ _
  rw [Nat.add_lt_add_iff_left, List.findIdx_lt_length]
  simp

/-- An operand is a register that is looked up, or a general one. -/
theorem getRegister_cases (bytes : BitVec 32) (r : RiscVReg) :
    (∃ id, csrNumber bytes r = some id
      ∧ RiscVInstrDecoder.getRegister opcodes bytes r = RiscVRegister.fromCsrIndex opcodes id)
    ∨ csrNumber bytes r = none
      ∧ ∃ id < 32, RiscVInstrDecoder.getRegister opcodes bytes r = .riscv id := by
  have hfield : ∀ {mask : BitVec 32} {shift : ℕ}, (mask >>> shift).toNat ≤ 31 →
      (RiscVInstrDecoder.applyMask bytes mask shift).toNat < 32 := fun h =>
    Nat.lt_succ_of_le ((toNat_applyMask_le _ _ _).trans h)
  have hpopular : ∀ {mask : BitVec 32} {shift : ℕ}, (mask >>> shift).toNat ≤ 7 →
      8 + (RiscVInstrDecoder.applyMask bytes mask shift).toNat < 32 := fun h => by
    have := (toNat_applyMask_le bytes _ _).trans h
    omega
  cases r with
  | csr => exact .inl ⟨_, rfl, rfl⟩
  | sepc => exact .inl ⟨_, rfl, rfl⟩
  | mepc => exact .inl ⟨_, rfl, rfl⟩
  | zero => exact .inr ⟨rfl, _, by decide, rfl⟩
  | sp => exact .inr ⟨rfl, _, by decide, rfl⟩
  | ra => exact .inr ⟨rfl, _, by decide, rfl⟩
  | rd => exact .inr ⟨rfl, _, hfield (by decide), rfl⟩
  | rs1 => exact .inr ⟨rfl, _, hfield (by decide), rfl⟩
  | rs2 => exact .inr ⟨rfl, _, hfield (by decide), rfl⟩
  | rs2Cmp => exact .inr ⟨rfl, _, hfield (by decide), rfl⟩
  | rd_3bit => exact .inr ⟨rfl, _, hpopular (by decide), rfl⟩
  | rs1_3bit => exact .inr ⟨rfl, _, hpopular (by decide), rfl⟩
  | rs2_3bit => exact .inr ⟨rfl, _, hpopular (by decide), rfl⟩

theorem getRegister_lt_iff (r : RiscVReg) :
    (RiscVInstrDecoder.getRegister opcodes bytes r).toRfIndex < RiscVRegister.maxReg opcodes
      ↔ ∀ id ∈ csrNumber bytes r, id ∈ opcodes.csrs.map (·.2) := by
  rcases getRegister_cases bytes r with ⟨id, hn, hr⟩ | ⟨hn, id, hid, hr⟩ <;> rw [hn, hr]
  · rw [fromCsrIndex_lt_iff]
    simp
  · exact iff_of_true (Nat.lt_of_lt_of_le hid (Nat.le_add_right _ _)) (by simp)

/-- No entry has more operands than an instruction. -/
theorem length_cmdDesc : ∀ e ∈ cmdDesc opcodes w, e.src.length ≤ 2 ∧ e.dst.length ≤ 2 := by
  intro e he
  have h : (cmdDesc opcodes w).all (fun e => decide (e.src.length ≤ 2 ∧ e.dst.length ≤ 2)) = true :=
    rfl
  exact of_decide_eq_true (List.all_eq_true.1 h e he)

theorem operand_lt_iff {regs : List RiscVReg} (hlength : regs.length ≤ 2) :
    ((operand opcodes bytes regs 0).toRfIndex < RiscVRegister.maxReg opcodes
      ∧ (operand opcodes bytes regs 1).toRfIndex < RiscVRegister.maxReg opcodes)
    ↔ ∀ r ∈ regs, ∀ id ∈ csrNumber bytes r, id ∈ opcodes.csrs.map (·.2) := by
  have hzero : RiscVRegister.zero.toRfIndex < RiscVRegister.maxReg opcodes :=
    Nat.lt_of_lt_of_le (by decide) (Nat.le_add_right 32 _)
  match regs, hlength with
  | [], _ => exact iff_of_true ⟨hzero, hzero⟩ fun r hr => absurd hr List.not_mem_nil
  | [r], _ =>
    simp only [List.mem_singleton, forall_eq, ← getRegister_lt_iff]
    exact and_iff_left hzero
  | [r, r'], _ =>
    simp only [List.mem_cons, List.not_mem_nil, or_false, forall_eq_or_imp, forall_eq,
      ← getRegister_lt_iff]
    rfl

/-- The registers that an instruction reads and writes. -/
def registers (instr : FuncInstr w) : List Register :=
  [instr.src0, instr.src1, instr.dst0, instr.dst1]

/-- The registers of an instruction are in the file when its control and status registers are in
the list. -/
theorem registers_lt_iff (PC : Addr) :
    (∀ num ∈ registers (createInstr opcodes w bytes PC),
        num.toRfIndex < RiscVRegister.maxReg opcodes) ↔ CsrsListed opcodes w bytes := by
  obtain ⟨target, newPC, vImm, hi⟩ := createInstr_entry (w := w) opcodes bytes PC
  obtain ⟨hsrc, hdst⟩ := length_cmdDesc _ (findEntry_mem opcodes (w := w) bytes)
  have hlisted : CsrsListed opcodes w bytes
      ↔ (∀ r ∈ (findEntry opcodes w bytes).src, ∀ id ∈ csrNumber bytes r,
          id ∈ opcodes.csrs.map (·.2))
        ∧ ∀ r ∈ (findEntry opcodes w bytes).dst, ∀ id ∈ csrNumber bytes r,
          id ∈ opcodes.csrs.map (·.2) := by
    simp only [CsrsListed, List.mem_append, or_imp, forall_and]
  rw [hi, hlisted, ← operand_lt_iff hsrc, ← operand_lt_iff hdst]
  simp only [registers, List.mem_cons, List.not_mem_nil, or_false, forall_eq_or_imp, forall_eq]
  tauto

end Decoded

section Access

variable {rf : RF w} {num : Register}

/-- Without an accumulator, a write of a register of the file does not throw. -/
theorem writeAccumulated_ok (h : rf.Valid num) (hlo : num.isMipsLo = false) (val mask : BitVec w)
    (accumulation : ℤ) : ∃ rf',
      rf.writeAccumulated num val mask accumulation = .ok rf' ∧ rf'.maxReg = rf.maxReg := by
  unfold RF.writeAccumulated
  rw [if_pos h]
  simp only [hlo, Bool.false_and, Bool.false_eq_true, if_false]
  unfold RF.writeMasked RF.write
  rw [if_pos h, if_pos h]
  split_ifs
  · exact ⟨rf, rfl, rfl⟩
  · exact ⟨_, rfl, rfl⟩

theorem writeDst_ne_outOfRange {instr : FuncInstr w} (h₀ : rf.Valid instr.dst0)
    (h₁ : rf.Valid instr.dst1) (hlo₀ : instr.dst0.isMipsLo = false)
    (hlo₁ : instr.dst1.isMipsLo = false) : rf.writeDst instr ≠ .error .outOfRange := by
  obtain ⟨rf₁, hw₁, hmax₁⟩ :=
    writeAccumulated_ok h₀ hlo₀ instr.vDst0 instr.mask instr.getAccumulationType
  have hv : rf₁.Valid instr.dst1 := by
    unfold RF.Valid at h₁ ⊢
    rwa [hmax₁]
  obtain ⟨rf₂, hw₂, -⟩ :=
    writeAccumulated_ok hv hlo₁ instr.vDst1 (allOnes w) instr.getAccumulationType
  have hd : rf.writeDst instr = .ok rf₂ := by
    unfold RF.writeDst
    rw [bind_eq_ok]
    exact ⟨rf₁, hw₁, hw₂⟩
  rw [hd]
  simp

theorem isMipsLo_operand (regs : List RiscVReg) (i : ℕ) :
    (operand opcodes bytes regs i).isMipsLo = false := by
  unfold operand
  rcases regs[i]? with _ | r
  · rfl
  · cases r <;> rfl

end Access

section Step

variable {s : FuncSim w AnyMemory}

theorem updatePC_ne_outOfRange {s : FuncSim w AnyMemory} {instr : FuncInstr w}
    (hs : s.delayedSlots ≤ 1) (hi : instr.delayedSlots ≤ 1) :
    s.updatePC instr ≠ .error .outOfRange := by
  have hmove : FuncSim.movePC s.pc s.delayedSlots instr.delayedSlots instr.newPC
      ≠ .error .outOfRange := by
    unfold FuncSim.movePC
    split_ifs <;> simp <;> omega
  exact bind_ne_error hmove fun _ _ => by simp [pure, Except.pure]

theorem updateAndCheckNopCounter_ne_outOfRange (s : FuncSim w AnyMemory) (instr : FuncInstr w) :
    s.updateAndCheckNopCounter instr ≠ .error .outOfRange := by
  unfold FuncSim.updateAndCheckNopCounter
  generalize (if instr.isNop then s.nopsInARow + 1 else 0) = n
  by_cases hn : n > 10 <;> simp [hn]

theorem isMipsLo_current : (s.current (isa opcodes w)).dst0.isMipsLo = false
    ∧ (s.current (isa opcodes w)).dst1.isMipsLo = false := by
  show (createInstr opcodes w _ _).dst0.isMipsLo = false
    ∧ (createInstr opcodes w _ _).dst1.isMipsLo = false
  obtain ⟨target, newPC, vImm, hi⟩ := createInstr_entry (w := w) opcodes _ s.getPC
  rw [hi]
  exact ⟨isMipsLo_operand _ _, isMipsLo_operand _ _⟩

/-- A step that fetches a word whose registers are in the file accesses none outside of it. -/
theorem step_ne_outOfRange (hw : w = 32 ∨ w = 64 ∨ w = 128) (hs : s.Reachable (isa opcodes w))
    (hmax : s.rf.maxReg = RiscVRegister.maxReg opcodes)
    (hvalid : ∀ num ∈ registers (s.current (isa opcodes w)),
      num.toRfIndex < RiscVRegister.maxReg opcodes) :
    s.step (isa opcodes w) ≠ .error .outOfRange := by
  have hfile : ∀ num ∈ registers (s.current (isa opcodes w)), s.rf.Valid num :=
    fun num hn => RF.valid_of_maxReg hmax (hvalid num hn)
  simp only [registers, List.mem_cons, List.not_mem_nil, or_false, forall_eq_or_imp,
    forall_eq] at hfile
  obtain ⟨hsrc₀, hsrc₁, hdst₀, hdst₁⟩ := hfile
  have hfetch := (FuncSim.fetchOperands_iff hs.coherent).2 ⟨⟨hsrc₀, hsrc₁⟩, rfl, rfl⟩
  unfold FuncSim.step
  refine bind_ne_error (by rw [hfetch]; simp) fun ⟨operands, imem⟩ hf => bind_ne_error
    (AnyMemory.loadStore_ne_outOfRange _ _) fun ⟨instr, mem⟩ ha => ?_
  rw [hfetch] at hf
  cases hf
  obtain ⟨v, c, hi⟩ := FuncSim.loadStore_frame ha
  obtain ⟨_, _, _, _, _, _, _, he⟩ := executed_run (s.current (isa opcodes w)).executor
    (f := s.current (isa opcodes w))
  rw [FuncInstr.execute, he] at hi
  have hd₀ : instr.dst0 = (s.current (isa opcodes w)).dst0 := by rw [hi]
  have hd₁ : instr.dst1 = (s.current (isa opcodes w)).dst1 := by rw [hi]
  have hslots : instr.delayedSlots ≤ 1 := by
    rw [show instr.delayedSlots = (s.current (isa opcodes w)).delayedSlots by rw [hi]]
    exact FuncSim.delayedSlots_createInstr_le (.riscv opcodes hw) _ s.imem.endian _
  have hpending : s.delayedSlots ≤ 1 := hs.delayedSlots_le (.riscv opcodes hw)
  refine bind_ne_error ?_ fun rf _ => bind_ne_error
    (updatePC_ne_outOfRange hpending hslots) fun u _ =>
      bind_ne_error (updateAndCheckNopCounter_ne_outOfRange _ _) fun _ _ => ?_
  · refine writeDst_ne_outOfRange ?_ ?_ ?_ ?_
    · rw [hd₀]
      exact hdst₀
    · rw [hd₁]
      exact hdst₁
    · rw [hd₀]
      exact isMipsLo_current.1
    · rw [hd₁]
      exact isMipsLo_current.2
  · simp [pure, Except.pure]

end Step

section Safe

/-- What is expected of a word: its registers are in the file unless it is unknown, the scoreboard
has an entry for each of them, and no step on it accesses a register outside of the file. -/
structure RegistersSafe (opcodes : RiscVOpcodes) (w : ℕ) (bytes : BitVec 32) : Prop where
  decoded (PC : Addr) : (createInstr opcodes w bytes PC).executor = .unknownInstruction
    ∨ ∀ num ∈ registers (createInstr opcodes w bytes PC),
      num.toRfIndex < RiscVRegister.maxReg opcodes
  scoreboard (PC : Addr) : ∀ num ∈ registers (createInstr opcodes w bytes PC),
    num.toRfIndex < RiscVRegister.maxReg opcodes
  step (s : FuncSim w AnyMemory) : s.Reachable (isa opcodes w) →
    s.rf.maxReg = RiscVRegister.maxReg opcodes → (s.current (isa opcodes w)).raw = bytes →
    s.step (isa opcodes w) ≠ .error .outOfRange

/-- A word is safe exactly when the control and status registers it names are in the list. -/
theorem registersSafe_iff (hw : w = 32 ∨ w = 64 ∨ w = 128) :
    RegistersSafe opcodes w bytes ↔ CsrsListed opcodes w bytes := by
  constructor
  · exact fun h => (registers_lt_iff 0#64).1 (h.scoreboard 0#64)
  · intro h
    refine ⟨fun PC => .inr ((registers_lt_iff PC).2 h), fun PC => (registers_lt_iff PC).2 h,
      fun s hs hmax hraw => step_ne_outOfRange hw hs hmax ?_⟩
    have hfetched : MiptMips.fetch s.imem.endian s.mem s.getPC = bytes := by
      rw [← hraw]
      exact ((isa opcodes w).raw_createInstr _ s.imem.endian _).symm
    have hlt := (registers_lt_iff s.getPC).2 h
    rw [← hfetched] at hlt
    exact hlt

/-- The first three control and status registers, and the instruction that exchanges one. -/
def csrOpcodes : RiscVOpcodes where
  insn name := if name = "csrrw" then (0x1073#32, 0x707f#32) else (0xffffffff#32, 0xffffffff#32)
  csrs := [("fflags", 0x1), ("frm", 0x2), ("fcsr", 0x3)]
  causes := ⟨3#8, 8#8, 2#8, 4#8, 6#8, 0#8⟩

/-- `csrrw x0, fcsr, x1`. -/
theorem registersSafe_iff_fcsr :
    RegistersSafe csrOpcodes 64 0x00309073#32 ↔ CsrsListed csrOpcodes 64 0x00309073#32 :=
  registersSafe_iff (.inr (.inl rfl))

/-- `csrrw x0, 0x800, x1` throws when it reads its sources. -/
theorem not_registersSafe : ¬ RegistersSafe csrOpcodes 64 0x80009073#32
    ∧ (RF.zeroed 64 (RiscVRegister.maxReg csrOpcodes)).readSources
      (createInstr csrOpcodes 64 0x80009073#32 0#64) = .error .outOfRange := by
  refine ⟨fun h => ?_, rfl⟩
  have hlt := h.scoreboard 0#64
  revert hlt
  decide +kernel

end Safe

end RiscV

end MiptMips
