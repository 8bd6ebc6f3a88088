import MiptMips.FuncSim.Faults
import MiptMips.Mips.Instr
import MiptMips.RiscV.Instr

/-!
# Which faults are precise

The decoders of both instruction sets give instructions of the shape that the effect of a fault
follows from, so in every state a simulator gets into, a fault is precise exactly when it writes
nothing new (`precise_iff`). In general it does write: a destination becomes `0xdeadbeef` on an
overflow, and an unaligned store is done (`not_precise_store`).
-/

namespace MiptMips

open Machines

/-- The instruction sets that simulators are built for. -/
inductive IsSupported : {w : ℕ} → ISA w → Prop
  | mips (version : MipsVersion) : IsSupported (Mips.isa version)
  | riscv (opcodes : RiscVOpcodes) {w : ℕ} (hw : w = 32 ∨ w = 64 ∨ w = 128) :
    IsSupported (RiscV.isa opcodes w)

/-- The units that test for overflow, as a test. -/
def Executor.testsOverflow : Executor → Bool
  | additionOverflow _ | additionOverflowImm _ | subtractionOverflow _ => true
  | _ => false

theorem Executor.TestsOverflow.testsOverflow {e : Executor} (h : e.TestsOverflow) :
    e.testsOverflow := by
  cases h <;> rfl

section Entries

open MipsTable

theorem overflow_entries :
    ∀ e ∈ entries, e.function.testsOverflow → e.operation = .outArithm := by decide +kernel

theorem load_entries :
    ∀ e ∈ entries, e.function = .loadAddrAligned → e.operation.loads := by decide +kernel

theorem store_entries : ∀ e ∈ entries, e.function = .storeAddrAligned →
    e.operation = .outStore ∧ e.dst = [.zero] := by decide +kernel

theorem loadSize_entries :
    ∀ e ∈ entries, e.operation.loads → 0 < e.memSize ∧ e.dst.length ≤ 1 := by decide +kernel

theorem storeSize_entries : ∀ e ∈ entries, e.operation = .outStore → IsSize e.memSize := by
  decide +kernel

theorem accumulator_entries : ∀ e ∈ entries,
    e.operation = .outRAccum ∨ e.operation = .outRSubtr → e.dst = [.lo, .hi] := by decide +kernel

/-- The units of the RISC-V table fault only on words that are no instruction. -/
theorem faults_cmdDesc {opcodes : RiscVOpcodes} {w : ℕ} : ∀ e ∈ RiscV.cmdDesc opcodes w,
    (e.function.testsOverflow = false ∧ e.function ≠ .loadAddrAligned
      ∧ e.function ≠ .storeAddrAligned) ∧ (e.function = .unknownInstruction → e.type = .outArithm)
      ∧ e.type ≠ .outRAccum ∧ e.type ≠ .outRSubtr := by
  have h : (RiscV.cmdDesc opcodes w).all (fun e =>
      decide ((e.function.testsOverflow = false ∧ e.function ≠ .loadAddrAligned
        ∧ e.function ≠ .storeAddrAligned)
        ∧ (e.function = .unknownInstruction → e.type = .outArithm)
        ∧ e.type ≠ .outRAccum ∧ e.type ≠ .outRSubtr)) = true := rfl
  intro e he
  exact of_decide_eq_true (List.all_eq_true.1 h e he)

end Entries

section Shape

variable {w : ℕ}

theorem operation_of_accumulation {f : FuncInstr w} (h : f.getAccumulationType ≠ 0) :
    f.operation = .outRAccum ∨ f.operation = .outRSubtr := by
  unfold FuncInstr.getAccumulationType at h
  split_ifs at h with h₁ h₂
  · exact .inl h₁
  · exact .inr h₂
  · exact absurd rfl h

/-- A second operand that is not listed is the zero register. -/
theorem isZero_operand (bytes : BitVec 32) {regs : List MipsReg} (h : regs.length ≤ 1) :
    (Mips.operand bytes regs 1).isZero := by
  have hn : regs[1]? = none := List.getElem?_eq_none h
  simp [Mips.operand, hn, MipsRegister.zero, Register.isZero, Register.toRfIndex]

theorem faultShape_mips (version : MipsVersion) (endian : Endian) (bytes : BitVec 32) (PC : Addr) :
    FaultShape (Mips.createInstr version endian bytes PC w) := by
  obtain ⟨target, newPC, slots, hi⟩ :=
    Mips.createInstr_entry (w := w) version endian bytes PC
  rw [hi]
  have hm := MipsTable.getTableEntry_mem bytes
  generalize MipsTable.getTableEntry bytes = e at hm
  -- an entry that is not supported keeps everything but its unit
  have hexec : ∀ {u : Executor}, u ≠ .unknownInstruction →
      (if e.versions.isSupported version then e.function else .unknownInstruction) = u →
      e.function = u := by
    intro u hu h
    split_ifs at h with hs
    · exact h
    · exact absurd h.symm hu
  constructor
  · intro h
    refine overflow_entries e hm ?_
    have ht := h.testsOverflow
    dsimp only at ht
    split_ifs at ht with hs
    · exact ht
    · cases ht
  · exact fun h => (FuncInstr.isLoad_eq _).trans (load_entries e hm (hexec (by decide) h))
  · intro h
    obtain ⟨ho, hd⟩ := store_entries e hm (hexec (by decide) h)
    refine ⟨?_, ?_⟩
    · simp [FuncInstr.isStore, ho]
    · dsimp only
      rw [hd]
      rfl
  · intro _ h
    obtain ⟨hpos, hlen⟩ := loadSize_entries e hm ((FuncInstr.isLoad_eq _).symm.trans h)
    exact ⟨hpos, isZero_operand bytes hlen⟩
  · intro _ h
    exact storeSize_entries e hm (by simpa [FuncInstr.isStore] using h)
  · intro h
    have hd := accumulator_entries e hm (operation_of_accumulation h)
    dsimp only
    rw [hd]
    exact ⟨rfl, rfl⟩

theorem faultShape_riscv (opcodes : RiscVOpcodes) (bytes : BitVec 32) (PC : Addr) :
    FaultShape (RiscV.createInstr opcodes w bytes PC) := by
  obtain ⟨target, newPC, vImm, hi⟩ := RiscV.createInstr_entry (w := w) opcodes bytes PC
  rw [hi]
  obtain ⟨⟨ho, hl, hs⟩, hu, ha, hsub⟩ :=
    faults_cmdDesc _ (RiscV.findEntry_mem (w := w) opcodes bytes)
  generalize RiscV.findEntry opcodes w bytes = e at ho hl hs hu ha hsub
  constructor
  · intro h
    have := h.testsOverflow
    rw [ho] at this
    cases this
  · exact fun h => absurd h hl
  · exact fun h => absurd h hs
  · rintro (h | h) hld
    · exact absurd h hl
    · rw [FuncInstr.isLoad_eq] at hld
      dsimp only at hld
      rw [hu h] at hld
      cases hld
  · rintro (h | h) hst
    · exact absurd h hs
    · simp [FuncInstr.isStore, hu h] at hst
  · intro h
    rcases operation_of_accumulation h with h | h
    · exact absurd h ha
    · exact absurd h hsub

/-- Whatever a simulator is at, it has the shape the decoders promise. -/
theorem IsSupported.faultShape {M : Type} [FuncMemory M] {isa : ISA w} (h : IsSupported isa)
    (s : FuncSim w M) : FaultShape (s.current isa) := by
  have hd : FaultShape (fetchInstr isa s.imem.endian s.mem s.getPC) := by
    cases h with
    | mips version => exact faultShape_mips _ _ _ _
    | riscv opcodes hw => exact faultShape_riscv _ _ _
  exact ⟨hd.overflow, hd.load, hd.store, hd.loadSize, hd.storeSize, hd.accumulator⟩

theorem IsSupported.width {isa : ISA w} (h : IsSupported isa) : 32 ≤ w := by
  cases h with
  | mips version => cases version <;> decide
  | riscv opcodes hw => omega

end Shape

section Result

variable {M : Type} [FuncMemory M] [LawfulFuncMemory M] {w : ℕ}

/-- In every state a simulator gets into, a step that faults leaves memory and the destinations of
its instruction as they were exactly when all that it writes is there already. -/
theorem precise_iff {isa : ISA w} (hisa : IsSupported isa) {s t : FuncSim w M}
    {instr : FuncInstr w} (hs : s.Reachable isa) (h : s.step isa = .ok (instr, t))
    (hfault : instr.trap.isFault) : Precise s instr t ↔ HarmlessFault s (s.current isa) :=
  precise_iff_harmless hisa.width hs.coherent (hisa.faultShape s) h hfault

end Result

section Example

/-- Sixteen bytes with one instruction at the address 8. -/
def memoryWith (b₀ b₁ b₂ b₃ : Byte) : PlainMemory where
  addrBits := 4
  arena := List.replicate 8 0#8 ++ [b₀, b₁, b₂, b₃] ++ List.replicate 4 0#8
  host _ := 0#8
  bits_lt := PlainMemory.four_bits_lt
  length_arena := rfl

/-- A MIPS32 simulator at that instruction, with a large number in `$t1`. -/
def simulatorWith (mem : PlainMemory) : FuncSim 32 PlainMemory :=
  let s := (FuncSim.create (Mips.isa .v32) .little 16 mem).setTarget 8#64 0#64
  { s with rf := s.rf.set (.mips 9) 0x7fffffff#32, mem := mem, nopsInARow := 0 }

theorem reachable_simulatorWith (mem : PlainMemory) :
    (simulatorWith mem).Reachable (Mips.isa .v32) :=
  .host _ _ _ (.setTarget _ _ (.create _ _ _))

/-- `add $zero, $t1, $t1` overflows, but has nowhere to write to. -/
theorem precise_iff_add_zero : ∃ instr t,
    (simulatorWith (memoryWith 0x20#8 0x00#8 0x29#8 0x01#8)).step (Mips.isa .v32) = .ok (instr, t)
      ∧ instr.trap.isFault
      ∧ Precise (simulatorWith (memoryWith 0x20#8 0x00#8 0x29#8 0x01#8)) instr t := by
  refine ⟨_, _, rfl, rfl, ?_⟩
  refine (precise_iff (.mips .v32) (reachable_simulatorWith _) rfl rfl).2 ?_
  exact ⟨rfl, fun h => absurd h (by decide), .inl rfl, .inl rfl⟩

/-- `sw $t1, 1($zero)` ends with an unaligned store, and stores. -/
theorem not_precise_store : ∃ instr t,
    (simulatorWith (memoryWith 0x01#8 0x00#8 0x09#8 0xac#8)).Reachable (Mips.isa .v32)
      ∧ (simulatorWith (memoryWith 0x01#8 0x00#8 0x09#8 0xac#8)).step (Mips.isa .v32)
        = .ok (instr, t)
      ∧ instr.trap.isFault
      ∧ ¬ Precise (simulatorWith (memoryWith 0x01#8 0x00#8 0x09#8 0xac#8)) instr t := by
  refine ⟨_, _, reachable_simulatorWith _, rfl, rfl, fun h => ?_⟩
  exact absurd (h.memory 1#64) (by decide)

end Example

end MiptMips
