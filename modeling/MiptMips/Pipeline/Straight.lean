import MiptMips.Mips.Instr
import MiptMips.RiscV.Instr

/-!
# Straight instruction sets

The instruction sets without delay slots and with instructions of four bytes. There the next
instruction is the one at the next word unless the instruction is a jump that is taken, and what a
jump does follows from its type alone.
-/

namespace MiptMips

variable {w : ℕ}

section Units

namespace Executor

/-- The units that go to the decoded target when they go anywhere. -/
def isBranch : Executor → Bool
  | branch _ | branchAndLink _ => true
  | _ => false

/-- The units that always go to the decoded target. -/
def isDirectJump : Executor → Bool
  | jump .j | jumpAndLink .j => true
  | _ => false

/-- The units that may change the flow. -/
def changesFlow : Executor → Bool
  | branch _ | branchAndLink _ | jump _ | jumpAndLink _ | eret => true
  | _ => false

end Executor

namespace Alu

variable {f : FuncInstr w}

/-- A branch goes to its target, or it is not taken and goes on. -/
theorem flow_branch (p : Predicate) :
    ((branch f p).isTakenBranch = true ∧ (branch f p).newPC = f.target)
      ∨ (branch f p).isTakenBranch = false ∧ (branch f p).newPC = f.newPC := by
  unfold branch
  split_ifs <;> simp

@[simp]
theorem isTakenBranch_jump (kind : Jump) : (jump f kind).isTakenBranch = true := by
  cases kind <;> simp [jump, jumpTo, jr]

end Alu

open Alu

variable {e : Executor} {f : FuncInstr w}

theorem flow_of_isBranch (h : e.isBranch) :
    ((e.run f).isTakenBranch = true ∧ (e.run f).newPC = f.target)
      ∨ (e.run f).isTakenBranch = false ∧ (e.run f).newPC = f.newPC := by
  cases e <;> simp [Executor.isBranch] at h
  · exact flow_branch _
  · exact flow_branch _

theorem newPC_of_isDirectJump (h : e.isDirectJump) : (e.run f).newPC = f.target := by
  cases e <;> simp [Executor.isDirectJump] at h
  all_goals
    rename_i kind
    cases kind <;> simp [Executor.run, jumpAndLink, jump, jumpTo, link, setDst] at h ⊢

/-- All other units go on. -/
theorem flow_of_not_changesFlow (h : e.changesFlow = false) :
    (e.run f).isTakenBranch = f.isTakenBranch ∧ (e.run f).newPC = f.newPC := by
  cases e with
  | branch _ | branchAndLink _ | jump _ | jumpAndLink _ | eret => simp [Executor.changesFlow] at h
  | additionOverflow _ | additionOverflowImm _ | subtractionOverflow _ =>
    simp only [Executor.run, overflowOr]
    split_ifs <;> simp [setDst]
  | movn | movz =>
    simp only [Executor.run, moveUnless]
    split_ifs <;> simp [move, setDst]
  | loadAddrAligned =>
    simp only [Executor.run, loadAddrAligned]
    split_ifs <;> simp [loadAddr, addr]
  | storeAddrAligned =>
    simp only [Executor.run, storeAddrAligned]
    split_ifs <;> simp [storeAddr, addr]
  | trap p =>
    simp only [Executor.run]
    split_ifs <;> simp
  | _ => exact ⟨rfl, rfl⟩

/-- A unit that is not taken goes on. -/
theorem newPC_of_not_taken (h : (e.run f).isTakenBranch = false) :
    (e.run f).newPC = f.newPC := by
  by_cases hc : e.changesFlow = true
  · by_cases hb : e.isBranch = true
    · rcases flow_of_isBranch (f := f) hb with ⟨ht, -⟩ | ⟨-, hn⟩
      · simp [ht] at h
      · exact hn
    · cases e <;> simp [Executor.changesFlow, Executor.isBranch] at hc hb
      all_goals simp [Executor.run, jumpAndLink, eret, jumpTo] at h
  · simp only [Bool.not_eq_true] at hc
    exact (flow_of_not_changesFlow hc).2

end Units

section Straight

/-- What decoding a straight instruction promises. -/
structure StraightDecoded (instr : FuncInstr w) : Prop where
  newPC : instr.newPC = instr.PC + 4#64
  delayedSlots : instr.delayedSlots = 0
  isTakenBranch : instr.isTakenBranch = false
  directJump : instr.isDirectJump → instr.executor.isDirectJump
  branch : instr.isBranch → instr.executor.isBranch ∨ instr.executor.changesFlow = false
  other : instr.isJump = false → instr.executor.changesFlow = false

variable {instr : FuncInstr w}

/-- The flow of an executed straight instruction, by its type. -/
theorem StraightDecoded.notTaken (h : StraightDecoded instr)
    (ht : instr.execute.isTakenBranch = false) : instr.execute.newPC = instr.PC + 4#64 := by
  rw [← h.newPC]
  exact newPC_of_not_taken ht

theorem StraightDecoded.newPC_directJump (h : StraightDecoded instr) (hj : instr.isDirectJump) :
    instr.execute.newPC = instr.target :=
  newPC_of_isDirectJump (h.directJump hj)

theorem StraightDecoded.newPC_branch (h : StraightDecoded instr) (hb : instr.isBranch)
    (ht : instr.execute.isTakenBranch = true) : instr.execute.newPC = instr.target := by
  rcases h.branch hb with hu | hu
  · rcases flow_of_isBranch (f := instr) hu with ⟨-, hn⟩ | ⟨hf, -⟩
    · exact hn
    · rw [show instr.execute.isTakenBranch = _ from rfl] at ht
      simp [FuncInstr.execute, hf] at ht
  · have := (flow_of_not_changesFlow (f := instr) hu).1
    simp [FuncInstr.execute, this, h.isTakenBranch] at ht

theorem StraightDecoded.newPC_other (h : StraightDecoded instr) (ho : instr.isJump = false) :
    instr.execute.newPC = instr.PC + 4#64 := by
  rw [← h.newPC]
  exact (flow_of_not_changesFlow (h.other ho)).2

end Straight

section Tables

open MipsTable

theorem mars_entries : ∀ e ∈ entries, ∀ v, v = MipsVersion.mars ∨ v = MipsVersion.mars64 →
    (e.operation = .outJJump → e.versions.isSupported v ∧ e.function.isDirectJump)
      ∧ (e.operation = .outBranch ∨ e.operation = .outBranchLikely →
        e.function.isBranch ∨ e.function.changesFlow = false)
      ∧ (e.operation ≠ .outJJump → e.operation ≠ .outBranch → e.operation ≠ .outBranchLikely →
        e.operation ≠ .outRJump → e.function.changesFlow = false) := by
  intro e he v hv
  rcases hv with rfl | rfl <;> revert e <;> decide +kernel

theorem riscv_cmdDesc {opcodes : RiscVOpcodes} : ∀ e ∈ RiscV.cmdDesc opcodes w, e.subset ≠ 'C' →
    (e.type = .outJJump → e.function.isDirectJump)
      ∧ (e.type = .outBranch ∨ e.type = .outBranchLikely → e.function.isBranch)
      ∧ (e.type ≠ .outJJump → e.type ≠ .outBranch → e.type ≠ .outBranchLikely →
        e.type ≠ .outRJump → e.function.changesFlow = false) := by
  have h : (RiscV.cmdDesc opcodes w).all (fun e => decide (e.subset ≠ 'C' →
    (e.type = .outJJump → e.function.isDirectJump)
      ∧ (e.type = .outBranch ∨ e.type = .outBranchLikely → e.function.isBranch)
      ∧ (e.type ≠ .outJJump → e.type ≠ .outBranch → e.type ≠ .outBranchLikely →
        e.type ≠ .outRJump → e.function.changesFlow = false))) = true := rfl
  intro e he
  exact of_decide_eq_true (List.all_eq_true.1 h e he)

/-- The instructions of MARS, and those of RISC-V that are not compressed. -/
inductive Straight : FuncInstr w → Prop
  | mars (version : MipsVersion) (endian : Endian) (bytes : BitVec 32) (PC : Addr) :
    version = .mars ∨ version = .mars64 → Straight (Mips.createInstr version endian bytes PC w)
  | riscv (opcodes : RiscVOpcodes) (bytes : BitVec 32) (PC : Addr) :
    (RiscV.findEntry opcodes w bytes).subset ≠ 'C' → Straight (RiscV.createInstr opcodes w bytes PC)

/-- The types of the jumps, one by one. -/
theorem isJump_eq_false {instr : FuncInstr w} (h : instr.isJump = false) :
    instr.operation ≠ .outJJump ∧ instr.operation ≠ .outBranch
      ∧ instr.operation ≠ .outBranchLikely ∧ instr.operation ≠ .outRJump := by
  simpa [FuncInstr.isJump, FuncInstr.isDirectJump, FuncInstr.isBranch, FuncInstr.isCommonBranch,
    FuncInstr.isLikelyBranch, FuncInstr.isIndirectJump, and_assoc] using h

/-- MARS has no delay slots. -/
theorem init_mars {version : MipsVersion} (hv : version = .mars ∨ version = .mars64)
    (entry : MipsTableEntry) (instr : FuncInstr w) :
    (Mips.init version entry instr).newPC = instr.newPC
      ∧ (Mips.init version entry instr).delayedSlots = 0 := by
  rcases hv with rfl | rfl <;> simp [Mips.init]

theorem straightDecoded_mars {version : MipsVersion} (hv : version = .mars ∨ version = .mars64)
    (endian : Endian) (bytes : BitVec 32) (PC : Addr) :
    StraightDecoded (Mips.createInstr version endian bytes PC w) := by
  have hpc : (Mips.createInstr version endian bytes PC w).newPC = PC + 4#64
      ∧ (Mips.createInstr version endian bytes PC w).delayedSlots = 0 := by
    unfold Mips.createInstr
    obtain ⟨target, ht⟩ := Mips.initTarget_eq _
    rw [ht]
    exact init_mars hv _ _
  obtain ⟨hnew, hslots⟩ := hpc
  have hPC := Mips.PC_createInstr (w := w) version endian bytes PC
  have hfresh := Mips.createInstr_fresh (w := w) version endian bytes PC
  obtain ⟨hj, hb, ho⟩ := mars_entries _ (getTableEntry_mem bytes) version hv
  obtain ⟨target, newPC, slots, hi⟩ := Mips.createInstr_entry (w := w) version endian bytes PC
  refine ⟨by rw [hnew, hPC], hslots, hfresh.isTakenBranch, ?_, ?_, ?_⟩
  all_goals
    rw [hi]
    intro h
    dsimp only
  · obtain ⟨hs, hd⟩ := hj (by simpa [FuncInstr.isDirectJump] using h)
    rwa [if_pos hs]
  · split_ifs
    · exact hb (by simpa [FuncInstr.isBranch, FuncInstr.isCommonBranch,
        FuncInstr.isLikelyBranch] using h)
    · exact .inr rfl
  · split_ifs
    · obtain ⟨h₁, h₂, h₃, h₄⟩ := isJump_eq_false h
      exact ho h₁ h₂ h₃ h₄
    · rfl

theorem straightDecoded_riscv {opcodes : RiscVOpcodes} {bytes : BitVec 32}
    (hc : (RiscV.findEntry opcodes w bytes).subset ≠ 'C') (PC : Addr) :
    StraightDecoded (RiscV.createInstr opcodes w bytes PC) := by
  have hpc : (RiscV.createInstr opcodes w bytes PC).newPC = PC + 4#64
      ∧ (RiscV.createInstr opcodes w bytes PC).delayedSlots = 0 := by
    unfold RiscV.createInstr
    obtain ⟨target, ht⟩ := RiscV.initTarget_eq _
    rw [ht]
    simp [RiscV.init, hc]
  obtain ⟨hnew, hslots⟩ := hpc
  obtain ⟨hj, hb, ho⟩ := riscv_cmdDesc _ (RiscV.findEntry_mem (w := w) opcodes bytes) hc
  obtain ⟨target, newPC, vImm, hi⟩ := RiscV.createInstr_entry (w := w) opcodes bytes PC
  refine ⟨?_, hslots, ?_, ?_, ?_, ?_⟩
  · rw [hnew, hi]
  · rw [hi]
  all_goals
    rw [hi]
    intro h
    dsimp only
  · exact hj (by simpa [FuncInstr.isDirectJump] using h)
  · exact .inl (hb (by simpa [FuncInstr.isBranch, FuncInstr.isCommonBranch,
      FuncInstr.isLikelyBranch] using h))
  · obtain ⟨h₁, h₂, h₃, h₄⟩ := isJump_eq_false h
    exact ho h₁ h₂ h₃ h₄

theorem Straight.decoded {instr : FuncInstr w} (h : Straight instr) : StraightDecoded instr := by
  cases h with
  | mars version endian bytes PC hv => exact straightDecoded_mars hv endian bytes PC
  | riscv opcodes bytes PC hc => exact straightDecoded_riscv hc PC

/-- The sources do not matter to what was decoded. -/
theorem StraightDecoded.withSources {instr : FuncInstr w} (h : StraightDecoded instr)
    (vSrc0 vSrc1 : BitVec w) (id : BitVec 64) :
    StraightDecoded { instr with vSrc0 := vSrc0, vSrc1 := vSrc1, sequenceId := id } :=
  ⟨h.newPC, h.delayedSlots, h.isTakenBranch, h.directJump, h.branch, h.other⟩

end Tables

end MiptMips
