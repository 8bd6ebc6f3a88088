import MiptMips.FuncSim.FuncSim
import MiptMips.Memory.StoreLoad

/-!
# Faults

What a step does with an instruction that faults. None of the later stages looks at the trap: the
access to memory and the write of the results happen as they would without it. A faulting load
still loads, a faulting store still stores, and everything else writes the value that the result
had at construction. An instruction that is not supported keeps its type, so it may access memory
as well, at the address of an instruction whose address was never computed.

So a fault leaves memory and its destinations as they were exactly when all that is written is
there already (`precise_iff_harmless`).
-/

namespace MiptMips

open Machines FuncMemory

variable {M : Type} [FuncMemory M] {w : ℕ}

/-- Integer overflow, unaligned access, unknown or unsupported instruction. -/
def Trap.isFault : Trap → Bool
  | integerOverflow | unalignedLoad | unalignedStore | unknownInstruction => true
  | _ => false

section Units

variable {e : Executor} {f : FuncInstr w}

/-- The units that add with a test for overflow. -/
inductive Executor.TestsOverflow : Executor → Prop
  | addition (T : ℕ) : TestsOverflow (.additionOverflow T)
  | additionImm (T : ℕ) : TestsOverflow (.additionOverflowImm T)
  | subtraction (T : ℕ) : TestsOverflow (.subtractionOverflow T)

/-- The ways to fault, and what the unit leaves of the instruction. -/
inductive Executor.FaultRun : Executor → FuncInstr w → FuncInstr w → Prop
  | overflow {e : Executor} {f : FuncInstr w} (h : e.TestsOverflow) :
    FaultRun e f { f with trap := .integerOverflow }
  | load (f : FuncInstr w) :
    FaultRun .loadAddrAligned f
      { f with memAddr := (f.vSrc0 + f.vImm).setWidth 64, trap := .unalignedLoad }
  | store (f : FuncInstr w) :
    FaultRun .storeAddrAligned f
      { f with
        memAddr := (f.vSrc0 + f.vImm).setWidth 64
        mask := bitmask w (f.memSize * 8)
        trap := .unalignedStore }
  | unknown (f : FuncInstr w) :
    FaultRun .unknownInstruction f { f with trap := .unknownInstruction }

theorem faultRun_overflowOr {T : ℕ} {res : BitVec T × Bool} (he : e.TestsOverflow)
    (hf : f.trap = .noTrap) (h : (Alu.overflowOr f res).trap.isFault) :
    e.FaultRun f (Alu.overflowOr f res) := by
  unfold Alu.overflowOr at h ⊢
  split
  · exact .overflow he
  · rename_i hres
    simp [hres, Alu.setDst, hf, Trap.isFault] at h

theorem isFault_moveUnless {cond : Bool} (hf : f.trap.isFault = false) :
    (Alu.moveUnless f cond).trap.isFault = false := by
  unfold Alu.moveUnless
  split <;> exact hf

theorem isFault_checkHaltTrap (hf : f.trap.isFault = false) :
    (Alu.checkHaltTrap f).trap.isFault = false := by
  unfold Alu.checkHaltTrap
  split
  · rfl
  · exact hf

theorem isFault_jump {kind : Jump} (hf : f.trap.isFault = false) :
    (Alu.jump f kind).trap.isFault = false := by
  cases kind with
  | j => exact isFault_checkHaltTrap hf
  | jr =>
    refine isFault_checkHaltTrap ?_
    show (if _ then { f with trap := Trap.unalignedFetch } else f).trap.isFault = false
    split
    · rfl
    · exact hf
  | riscvJr => exact isFault_checkHaltTrap hf

theorem isFault_branch {p : Predicate} (hf : f.trap.isFault = false) :
    (Alu.branch f p).trap.isFault = false := by
  unfold Alu.branch
  split
  · exact isFault_checkHaltTrap hf
  · exact hf

/-- An instruction that had no trap faults in one of the four ways. -/
theorem faultRun_of_isFault (hf : f.trap = .noTrap) (h : (e.run f).trap.isFault) :
    e.FaultRun f (e.run f) := by
  have hf' : f.trap.isFault = false := by rw [hf]; rfl
  cases e with
  | additionOverflow T => exact faultRun_overflowOr (.addition T) hf h
  | additionOverflowImm T => exact faultRun_overflowOr (.additionImm T) hf h
  | subtractionOverflow T => exact faultRun_overflowOr (.subtraction T) hf h
  | unknownInstruction => exact .unknown f
  | loadAddrAligned =>
    by_cases hm : Alu.misaligned (Alu.loadAddr f)
    · have hr : Executor.loadAddrAligned.run f
          = { Alu.loadAddr f with trap := .unalignedLoad } := if_pos hm
      rw [hr]
      exact .load f
    · have hr : Executor.loadAddrAligned.run f = Alu.loadAddr f := if_neg hm
      rw [hr] at h
      exact absurd h (by simp [Alu.loadAddr, Alu.addr, hf'])
  | storeAddrAligned =>
    by_cases hm : Alu.misaligned (Alu.storeAddr f)
    · have hr : Executor.storeAddrAligned.run f
          = { Alu.storeAddr f with trap := .unalignedStore } := if_pos hm
      rw [hr]
      exact .store f
    · have hr : Executor.storeAddrAligned.run f = Alu.storeAddr f := if_neg hm
      rw [hr] at h
      exact absurd h (by simp [Alu.storeAddr, Alu.addr, hf'])
  | jump kind => exact absurd h (by simp [Executor.run, isFault_jump hf'])
  | jumpAndLink kind =>
    exact absurd h
      (by simp [Executor.run, Alu.jumpAndLink, Alu.link, Alu.setDst, isFault_jump, hf'])
  | branch p => exact absurd h (by simp [Executor.run, isFault_branch hf'])
  | branchAndLink p =>
    exact absurd h
      (by simp [Executor.run, Alu.branchAndLink, Alu.link, Alu.setDst, isFault_branch, hf'])
  | eret =>
    exact absurd h (by simp [Executor.run, Alu.eret, Alu.jumpTo, isFault_checkHaltTrap, hf'])
  | trap p =>
    by_cases hp : Alu.holds f p
    · have hr : (Executor.trap p).run f = { f with trap := .explicitTrap } := if_pos hp
      rw [hr] at h
      cases h
    · have hr : (Executor.trap p).run f = f := if_neg hp
      rw [hr] at h
      exact absurd h (by simp [hf'])
  | movn => exact absurd h (by simp [Executor.run, isFault_moveUnless, hf'])
  | movz => exact absurd h (by simp [Executor.run, isFault_moveUnless, hf'])
  | breakpoint => cases h
  | syscall => cases h
  | haltTrap => cases h
  | _ => exact absurd h (by simp [Executor.run, Alu.setDst, Alu.setBoth, Alu.move, Alu.addr,
      Alu.loadAddr, Alu.storeAddr, Alu.loadAddrRight32, Alu.loadAddrLeft32, Alu.storeAddrRight32,
      Alu.storeAddrLeft32, Alu.bitFieldPlace, hf'])

end Units

section Harmless

/-- Memory and the registers the instruction names as its destinations are as before. -/
structure Precise (s : FuncSim w M) (instr : FuncInstr w) (t : FuncSim w M) : Prop where
  memory (x : Addr) : byteAt t.mem x = byteAt s.mem x
  dst0 : t.rf.get instr.dst0 = s.rf.get instr.dst0
  dst1 : t.rf.get instr.dst1 = s.rf.get instr.dst1

/-- The address that a faulting instruction accesses. -/
def faultAddr (f : FuncInstr w) : Addr :=
  match f.executor with
  | .loadAddrAligned | .storeAddrAligned => (f.vSrc0 + f.vImm).setWidth 64
  | _ => NO_VAL32.setWidth 64

/-- What a faulting instruction writes to its first destination. -/
def faultValue (m : M) (f : FuncInstr w) : BitVec w :=
  if f.isLoad then extended f (read m w f.endian (faultAddr f)) else NO_VAL32.setWidth w

/-- All that a faulting instruction writes is there already. -/
structure HarmlessFault (s : FuncSim w M) (f : FuncInstr w) : Prop where
  accumulation : f.getAccumulationType = 0
  memory : f.isStore → ∀ i < f.memSize,
    byteAt s.mem ((faultAddr f).offset i) = byteOf f.vSrc1 (byteIndex f.memSize f.endian i)
  dst0 : f.dst0.isZero ∨ s.rf.get f.dst0 = faultValue s.mem f
  dst1 : f.dst1.isZero ∨ s.rf.get f.dst1 = NO_VAL32.setWidth w

/-- What the decoders promise of instructions that may fault. -/
structure FaultShape (f : FuncInstr w) : Prop where
  overflow : f.executor.TestsOverflow → f.operation = .outArithm
  load : f.executor = .loadAddrAligned → f.isLoad
  store : f.executor = .storeAddrAligned → f.isStore ∧ f.dst0.isZero
  loadSize : f.executor = .loadAddrAligned ∨ f.executor = .unknownInstruction →
    f.isLoad → 0 < f.memSize ∧ f.dst1.isZero
  storeSize : f.executor = .storeAddrAligned ∨ f.executor = .unknownInstruction →
    f.isStore → IsSize f.memSize
  accumulator : f.getAccumulationType ≠ 0 → f.dst0 = .mips 33 ∧ f.dst1 = .mips 32

end Harmless

section Operations

variable {f : FuncInstr w}

theorem isStore_false_of_isLoad (h : f.isLoad) : f.isStore = false := by
  rw [FuncInstr.isLoad_eq] at h
  unfold FuncInstr.isStore
  cases ho : f.operation <;> rw [ho] at h <;> first | rfl | cases h

theorem accumulation_of_isLoad (h : f.isLoad) : f.getAccumulationType = 0 := by
  rw [FuncInstr.isLoad_eq] at h
  unfold FuncInstr.getAccumulationType
  cases ho : f.operation <;> rw [ho] at h <;> first | rfl | cases h

theorem accumulation_of_isStore (h : f.isStore) : f.getAccumulationType = 0 := by
  simp only [FuncInstr.isStore, beq_iff_eq] at h
  simp [FuncInstr.getAccumulationType, h]

/-- An access to memory, by the type of the instruction. -/
theorem loadStore_cases {m m' : M} {g instr : FuncInstr w} (h : loadStore m g = .ok (instr, m')) :
    (g.isLoad ∧ instr = load m g ∧ m' = m)
      ∨ (g.isStore ∧ instr = g ∧ store m g = .ok m')
      ∨ (g.isLoad = false ∧ g.isStore = false ∧ instr = g ∧ m' = m) := by
  unfold loadStore at h
  split_ifs at h with hl hs
  · cases h
    exact .inl ⟨hl, rfl, rfl⟩
  · obtain ⟨m₁, hm, h⟩ := bind_eq_ok.1 h
    cases h
    exact .inr (.inl ⟨hs, rfl, hm⟩)
  · cases h
    exact .inr (.inr ⟨by simpa using hl, by simpa using hs, rfl, rfl⟩)

end Operations

section Effect

variable {isa : ISA w} {s t : FuncSim w M} {f instr : FuncInstr w}

theorem fresh_current : (s.current isa).Fresh :=
  have h := isa.fresh_createInstr (fetch s.imem.endian s.mem s.getPC) s.imem.endian s.getPC
  ⟨h.trap, h.memAddr, h.isTakenBranch, h.vDst0, h.vDst1, h.mask, h.complete⟩

/-- A unit that faults leaves the operands and the results alone. -/
theorem FaultRun.eq {e : Executor} {g : FuncInstr w} (h : e.FaultRun f g) (he : f.executor = e)
    (hf : f.Fresh) (hs : FaultShape f) :
    ∃ mask trap, g = { f with memAddr := faultAddr f, mask := mask, trap := trap }
      ∧ (mask = allOnes w ∨ f.dst0.isZero ∧ mask = bitmask w (f.memSize * 8))
      ∧ (f.isStore → IsSize f.memSize) ∧ (f.isLoad → 0 < f.memSize ∧ f.dst1.isZero) := by
  cases h with
  | overflow ho =>
    have ha : faultAddr f = f.memAddr := by cases ho <;> simp [faultAddr, he, hf.memAddr]
    have hop := hs.overflow (he ▸ ho)
    exact ⟨f.mask, .integerOverflow, by rw [ha], .inl hf.mask, by simp [FuncInstr.isStore, hop],
      by simp [FuncInstr.isLoad_eq, hop, OperationType.loads]⟩
  | load =>
    have ha : faultAddr f = (f.vSrc0 + f.vImm).setWidth 64 := by simp [faultAddr, he]
    have hop := isStore_false_of_isLoad (hs.load he)
    exact ⟨f.mask, .unalignedLoad, by rw [ha], .inl hf.mask, by simp [hop],
      hs.loadSize (.inl he)⟩
  | store =>
    have ha : faultAddr f = (f.vSrc0 + f.vImm).setWidth 64 := by simp [faultAddr, he]
    have hop : ¬ f.isLoad := fun hl => by
      have := (hs.store he).1
      rw [isStore_false_of_isLoad hl] at this
      cases this
    exact ⟨bitmask w (f.memSize * 8), .unalignedStore, by rw [ha], .inr ⟨(hs.store he).2, rfl⟩,
      hs.storeSize (.inl he), fun hl => absurd hl hop⟩
  | unknown =>
    have ha : faultAddr f = f.memAddr := by simp [faultAddr, he, hf.memAddr]
    exact ⟨f.mask, .unknownInstruction, by rw [ha], .inl hf.mask, hs.storeSize (.inr he),
      hs.loadSize (.inr he)⟩

/-- What a faulting instruction is when it goes to memory. -/
theorem execute_eq (hf : f.Fresh) (hs : FaultShape f) (h : f.execute.trap.isFault) :
    ∃ mask trap,
      f.execute = { f with memAddr := faultAddr f, mask := mask, trap := trap, complete := true }
      ∧ (mask = allOnes w ∨ f.dst0.isZero ∧ mask = bitmask w (f.memSize * 8))
      ∧ (f.isStore → IsSize f.memSize) ∧ (f.isLoad → 0 < f.memSize ∧ f.dst1.isZero) := by
  obtain ⟨mask, trap, hg, hrest⟩ := FaultRun.eq (faultRun_of_isFault hf.trap h) rfl hf hs
  exact ⟨mask, trap, by rw [FuncInstr.execute, hg], hrest⟩

/-- The registers after a faulting instruction that does not accumulate: both destinations are
unchanged exactly when they held the written values. -/
theorem get_dsts_iff {rf rf' : RF w} {g : FuncInstr w} (h : rf.writeDst g = .ok rf')
    (hacc : g.getAccumulationType = 0) (hmask : g.mask = allOnes w ∨ g.dst0.isZero)
    (hv : g.dst1.isZero ∨ g.vDst0 = g.vDst1) :
    (rf'.get g.dst0 = rf.get g.dst0 ∧ rf'.get g.dst1 = rf.get g.dst1)
      ↔ (g.dst0.isZero ∨ rf.get g.dst0 = g.vDst0) ∧ (g.dst1.isZero ∨ rf.get g.dst1 = g.vDst1) := by
  have h₀ := RF.get_writeDst h hacc g.dst0
  have h₁ := RF.get_writeDst h hacc g.dst1
  have hget : g.dst0.toRfIndex = g.dst1.toRfIndex → rf.get g.dst0 = rf.get g.dst1 :=
    fun he => congrArg rf.array he
  have happly : g.dst0.isZero = false → rf.applyMask g.dst0 g.vDst0 g.mask = g.vDst0 := by
    intro hz
    rcases hmask with hm | hm
    · rw [hm, allOnes_eq, RF.applyMask_allOnes]
    · rw [hz] at hm
      cases hm
  rw [h₀, h₁]
  rcases hz₀ : g.dst0.isZero with _ | _ <;> rcases hz₁ : g.dst1.isZero with _ | _
  · have hv : g.vDst0 = g.vDst1 := hv.resolve_left (by simp [hz₁])
    by_cases he : g.dst0.toRfIndex = g.dst1.toRfIndex
    · rw [hget he, hv]
      simp [he]
      tauto
    · rw [happly hz₀]
      simp [he, eq_comm]
  · have hne : g.dst1.toRfIndex ≠ g.dst0.toRfIndex := by
      simp only [Register.isZero, beq_iff_eq, beq_eq_false_iff_ne] at hz₀ hz₁
      omega
    rw [happly hz₀]
    simp [hne, eq_comm]
  · have hne : g.dst0.toRfIndex ≠ g.dst1.toRfIndex := by
      simp only [Register.isZero, beq_iff_eq, beq_eq_false_iff_ne] at hz₀ hz₁
      omega
    simp [hne, eq_comm]
  · simp

/-- A store under a mask that covers its size writes all of its bytes, unless it throws. -/
theorem writeInteger_of_store {m m' : M} {g : FuncInstr w} (h : store m g = .ok m')
    (hmask : g.mask = allOnes w ∨ g.mask = bitmask w (g.memSize * 8)) :
    writeInteger m g.endian g.vSrc1 g.memAddr g.memSize = .ok m' := by
  have hfull : g.mask &&& bitmask w (g.memSize * 8) = bitmask w (g.memSize * 8) := by
    rcases hmask with hm | hm <;> rw [hm] <;> simp
  unfold store at h
  split_ifs at h with hz
  dsimp only at h
  rw [if_pos hfull] at h
  exact h

variable [LawfulFuncMemory M]

/-- Memory is unchanged exactly when there was no store, or its bytes were there. -/
theorem memory_unchanged_iff {m m' : M} {g : FuncInstr w} (h : loadStore m g = .ok (instr, m'))
    (hmask : g.isStore → g.mask = allOnes w ∨ g.mask = bitmask w (g.memSize * 8))
    (hsize : g.isStore → IsSize g.memSize) :
    (∀ x, byteAt m' x = byteAt m x) ↔ (g.isStore → ∀ i < g.memSize,
      byteAt m (g.memAddr.offset i) = byteOf g.vSrc1 (byteIndex g.memSize g.endian i)) := by
  rcases loadStore_cases h with ⟨hl, -, rfl⟩ | ⟨hs, -, hm⟩ | ⟨-, hs, -, rfl⟩
  · simp [isStore_false_of_isLoad hl]
  · rw [writeInteger_unchanged_iff (hsize hs) (writeInteger_of_store hm (hmask hs))]
    simp [hs]
  · simp [hs]

omit [LawfulFuncMemory M] in
/-- An instruction that is not supported but accumulates adds to the accumulator a value that is no
multiple of `2 ^ 32`. -/
theorem not_precise_of_accumulating (hw : 32 ≤ w) (hf : f.Fresh)
    (hdst : f.dst0 = .mips 33 ∧ f.dst1 = .mips 32) (hacc : f.getAccumulationType ≠ 0)
    {rf rf' : RF w} {g : FuncInstr w}
    (hg : g = { f with memAddr := faultAddr f, mask := allOnes w, trap := g.trap, complete := true })
    (h : rf.writeDst g = .ok rf') : rf'.get g.dst0 ≠ rf.get g.dst0 := by
  have hacc' : g.getAccumulationType ≠ 0 := by rw [hg]; exact hacc
  have hd₀ : g.dst0 = .mips 33 := by rw [hg]; exact hdst.1
  have hd₁ : g.dst1 = .mips 32 := by rw [hg]; exact hdst.2
  have hval : g.vDst0.setWidth 32 ≠ 0#32 := by
    rw [hg]
    show f.vDst0.setWidth 32 ≠ 0#32
    rw [hf.vDst0, BitVec.setWidth_setWidth_of_le _ hw, BitVec.setWidth_eq]
    decide
  have hmask : g.mask = allOnes w := by rw [hg]
  obtain ⟨rf₁, h₀, h₁⟩ := RF.writeDst_ok h
  rw [hmask, hd₀] at h₀
  rw [hd₁] at h₁
  rw [hd₀, RF.get_writeAccumulated_ne h₁ rfl (by decide), RF.get_writeAccumulated_lo h₀ rfl]
  refine RF.accumulate_ne hw ?_ hval
  unfold FuncInstr.getAccumulationType at hacc' ⊢
  split_ifs with h₁ h₂
  · exact .inl rfl
  · exact .inr rfl
  · rw [if_neg h₁, if_neg h₂] at hacc'
    exact absurd rfl hacc'

omit [LawfulFuncMemory M] in
/-- What a faulting instruction has in its first destination when it is written back. -/
theorem vDst0_of_fault {m m' : M} {mask : BitVec w} {trap : Trap} (hf : f.Fresh)
    (hload : f.isLoad → 0 < f.memSize ∧ f.dst1.isZero)
    (h : loadStore m { f with memAddr := faultAddr f, mask := mask, trap := trap, complete := true }
      = .ok (instr, m')) : instr.vDst0 = faultValue m f := by
  unfold faultValue
  rcases loadStore_cases h with ⟨hl, rfl, -⟩ | ⟨hst, rfl, -⟩ | ⟨hl, -, rfl, -⟩
  · have hl' : f.isLoad := hl
    rw [if_pos hl']
    exact vDst0_load m _ (hload hl).1
  · have hst' : f.isStore = true := hst
    have hl' : ¬ f.isLoad := fun hl => by
      rw [isStore_false_of_isLoad hl] at hst'
      cases hst'
    rw [if_neg hl']
    exact hf.vDst0
  · have hl' : f.isLoad = false := hl
    rw [hl', if_neg Bool.false_ne_true]
    exact hf.vDst0

/-- A faulting step is precise exactly when all that it writes is there already. -/
theorem precise_iff_harmless (hw : 32 ≤ w) (hc : s.imem.Coherent isa)
    (hshape : FaultShape (s.current isa)) (h : s.step isa = .ok (instr, t))
    (hfault : instr.trap.isFault) : Precise s instr t ↔ HarmlessFault s (s.current isa) := by
  obtain ⟨e⟩ := FuncSim.step_cases h
  have hacc := e.accessed
  have hwritten := e.written
  rw [((FuncSim.fetchOperands_iff hc).1 e.fetched).2.1] at hacc
  have hfresh : (s.current isa).Fresh := fresh_current
  generalize s.current isa = f at hacc hshape hfresh ⊢
  have htrap : f.execute.trap.isFault := by
    rcases loadStore_cases hacc with ⟨-, rfl, -⟩ | ⟨-, rfl, -⟩ | ⟨-, -, rfl, -⟩ <;> exact hfault
  obtain ⟨mask, trap, hg, hmask, hsize, hload⟩ := execute_eq hfresh hshape htrap
  rw [hg] at hacc
  have hmem : (∀ x, byteAt t.mem x = byteAt s.mem x) ↔ (f.isStore → ∀ i < f.memSize,
      byteAt s.mem ((faultAddr f).offset i) = byteOf f.vSrc1 (byteIndex f.memSize f.endian i)) :=
    memory_unchanged_iff hacc (fun _ => hmask.imp_right And.right) hsize
  obtain ⟨hd₀, hd₁, hv₁, hm, ha⟩ : instr.dst0 = f.dst0 ∧ instr.dst1 = f.dst1
      ∧ instr.vDst1 = f.vDst1 ∧ instr.mask = mask
      ∧ instr.getAccumulationType = f.getAccumulationType := by
    rcases loadStore_cases hacc with ⟨-, rfl, -⟩ | ⟨-, rfl, -⟩ | ⟨-, -, rfl, -⟩ <;>
      exact ⟨rfl, rfl, rfl, rfl, rfl⟩
  by_cases hacc₀ : f.getAccumulationType = 0
  · have hv₀ := vDst0_of_fault hfresh hload hacc
    have hv : instr.dst1.isZero ∨ instr.vDst0 = instr.vDst1 := by
      by_cases hl : f.isLoad
      · exact .inl (hd₁ ▸ (hload hl).2)
      · rw [hv₀, faultValue, if_neg hl, hv₁, hfresh.vDst1]
        exact .inr rfl
    have hmask' : instr.mask = allOnes w ∨ instr.dst0.isZero := by
      rw [hm, hd₀]
      exact hmask.imp_right And.left
    have hregs := get_dsts_iff hwritten (ha.trans hacc₀) hmask' hv
    rw [hv₀, hv₁, hfresh.vDst1] at hregs
    constructor
    · rintro ⟨hp, hp₀, hp₁⟩
      obtain ⟨h₀, h₁⟩ := hregs.1 ⟨hp₀, hp₁⟩
      exact ⟨hacc₀, hmem.1 hp, hd₀ ▸ h₀, hd₁ ▸ h₁⟩
    · rintro ⟨-, hp, hp₀, hp₁⟩
      obtain ⟨h₀, h₁⟩ := hregs.2 ⟨hd₀ ▸ hp₀, hd₁ ▸ hp₁⟩
      exact ⟨hmem.2 hp, h₀, h₁⟩
  · -- the instruction neither loads nor stores, and its low half is accumulated
    have hdst := hshape.accumulator hacc₀
    have hmask' : mask = allOnes w := hmask.resolve_right fun h => by
      rw [hdst.1] at h
      exact absurd h.1 (by decide)
    refine iff_of_false (fun hp => ?_) fun hp => hacc₀ hp.accumulation
    rcases loadStore_cases hacc with ⟨hl, -, -⟩ | ⟨hst, -, -⟩ | ⟨-, -, rfl, -⟩
    · exact hacc₀ (accumulation_of_isLoad hl)
    · exact hacc₀ (accumulation_of_isStore hst)
    · exact not_precise_of_accumulating hw hfresh hdst hacc₀ (by rw [hmask']) hwritten hp.dst0

end Effect

end MiptMips
