import MiptMips.Modules.Checker
import MiptMips.Simulator.PreciseFaults
import MiptMips.Memory.SameMemory

/-!
# What the checker compares

Two executions of one instruction on the same registers and memory, one of them with operands that
are not those of the registers. The checker lets the pair pass when the results agree. That settles
what is written, but for instructions that store, and for those that write under a mask made from
their operands.
-/

namespace MiptMips

open Machines FuncMemory

variable {w : ℕ}

section Units

/-- The units whose mask depends on the operands of an instruction that does not store. -/
def Executor.masksByOperands : Executor → Bool
  | movn | movz | loadAddrRight32 | loadAddrLeft32 | csrrs => true
  | _ => false

/-- The conditional moves. -/
def Executor.moves : Executor → Bool
  | movn | movz => true
  | _ => false

/-- The partial stores. -/
def Executor.storesPart : Executor → Bool
  | storeAddrRight32 | storeAddrLeft32 => true
  | _ => false

/-- The mask of a unit that takes none from its operands. -/
def Executor.fixedMask (e : Executor) (f : FuncInstr w) : BitVec w :=
  match e with
  | storeAddr | storeAddrAligned => bitmask w (f.memSize * 8)
  | _ => f.mask

variable {f : FuncInstr w}

namespace Alu

@[simp]
theorem mask_overflowOr {T : ℕ} (res : BitVec T × Bool) : (overflowOr f res).mask = f.mask := by
  unfold overflowOr
  split_ifs <;> rfl

@[simp]
theorem mask_checkHaltTrap : (checkHaltTrap f).mask = f.mask := by
  unfold checkHaltTrap
  split_ifs <;> rfl

@[simp]
theorem mask_jumpTo (target : Addr) : (jumpTo f target).mask = f.mask := mask_checkHaltTrap

@[simp]
theorem mask_jump (kind : Jump) : (jump f kind).mask = f.mask := by
  cases kind with
  | j => exact mask_jumpTo _
  | jr =>
    show (jr f).mask = _
    unfold jr
    split_ifs <;> exact mask_jumpTo _
  | riscvJr => exact mask_jumpTo _

@[simp]
theorem mask_branch (p : Predicate) : (branch f p).mask = f.mask := by
  unfold branch
  split_ifs
  · exact mask_checkHaltTrap
  · rfl

end Alu

theorem mask_run {e : Executor} (hm : e.masksByOperands = false) (hs : e.storesPart = false) :
    (e.run f).mask = e.fixedMask f := by
  cases e with
  | movn => cases hm
  | movz => cases hm
  | loadAddrRight32 => cases hm
  | loadAddrLeft32 => cases hm
  | csrrs => cases hm
  | storeAddrRight32 => cases hs
  | storeAddrLeft32 => cases hs
  | additionOverflow T => exact Alu.mask_overflowOr _
  | additionOverflowImm T => exact Alu.mask_overflowOr _
  | subtractionOverflow T => exact Alu.mask_overflowOr _
  | loadAddrAligned =>
    unfold Executor.run Alu.loadAddrAligned
    dsimp only
    split_ifs <;> rfl
  | storeAddrAligned =>
    unfold Executor.run Alu.storeAddrAligned
    dsimp only
    split_ifs <;> rfl
  | branch p => exact Alu.mask_branch p
  | branchAndLink p => exact Alu.mask_branch p
  | jump kind => exact Alu.mask_jump kind
  | jumpAndLink kind => exact Alu.mask_jump kind
  | eret => exact Alu.mask_jumpTo _
  | trap p =>
    unfold Executor.run
    dsimp only
    split_ifs <;> rfl
  | _ => rfl

/-- What both decoders say of an instruction. -/
structure FuncInstr.Listed (f : FuncInstr w) : Prop where
  fresh : f.Fresh
  storesPart : f.executor.storesPart → f.isStore ∧ f.memSize = 4
  store : f.isStore → (f.executor = .storeAddr ∨ f.executor = .storeAddrAligned
    ∨ f.executor.storesPart ∨ f.executor = .unknownInstruction)
    ∧ (IsSize f.memSize ∨ f.memSize = 16)
  moves : f.executor.moves → f.operation = .outRCondm ∧ f.dst1.isZero
  partialLoad : f.executor = .loadAddrRight32 ∨ f.executor = .loadAddrLeft32 →
    f.operation = .outPartialLoad ∧ f.memSize = 4 ∧ f.dst1.isZero
  csrrs : f.executor = .csrrs →
    f.operation = .outArithm ∧ f.dst1.toRfIndex ≠ f.dst0.toRfIndex

end Units

section Decoders

open MipsTable

theorem masks_entries : ∀ e ∈ entries,
    (e.function.storesPart → e.operation = .outStore ∧ e.memSize = 4)
      ∧ (e.operation = .outStore → e.function = .storeAddr ∨ e.function = .storeAddrAligned
        ∨ e.function.storesPart ∨ e.function = .unknownInstruction)
      ∧ (e.function.moves → e.operation = .outRCondm ∧ e.dst.length ≤ 1)
      ∧ (e.function = .loadAddrRight32 ∨ e.function = .loadAddrLeft32 →
        e.operation = .outPartialLoad ∧ e.memSize = 4 ∧ e.dst.length ≤ 1)
      ∧ e.function ≠ .csrrs := by
  decide +kernel

theorem masks_cmdDesc {opcodes : RiscVOpcodes} {w : ℕ} : ∀ e ∈ RiscV.cmdDesc opcodes w,
    (e.type = .outStore → e.function = .storeAddr ∧ (IsSize e.memSize ∨ e.memSize = 16))
    ∧ e.function.storesPart = false ∧ e.function.moves = false
    ∧ e.function ≠ .loadAddrRight32 ∧ e.function ≠ .loadAddrLeft32
    ∧ (e.function = .csrrs → e.type = .outArithm ∧ e.dst = [.csr, .rd]) := by
  have h : (RiscV.cmdDesc opcodes w).all (fun e => decide ((e.type = .outStore →
      e.function = .storeAddr ∧ (IsSize e.memSize ∨ e.memSize = 16))
    ∧ e.function.storesPart = false ∧ e.function.moves = false
    ∧ e.function ≠ .loadAddrRight32 ∧ e.function ≠ .loadAddrLeft32
    ∧ (e.function = .csrrs → e.type = .outArithm ∧ e.dst = [.csr, .rd]))) = true := rfl
  intro e he
  exact of_decide_eq_true (List.all_eq_true.1 h e he)

theorem listed_mips (version : MipsVersion) (endian : Endian) (bytes : BitVec 32) (PC : Addr) :
    (Mips.createInstr version endian bytes PC w).Listed := by
  have hfresh := Mips.createInstr_fresh (w := w) version endian bytes PC
  obtain ⟨target, newPC, slots, hi⟩ := Mips.createInstr_entry (w := w) version endian bytes PC
  rw [hi] at hfresh ⊢
  have hm := MipsTable.getTableEntry_mem bytes
  generalize MipsTable.getTableEntry bytes = e at hm hfresh
  obtain ⟨hpart, hstore, hmoves, hload, hcsr⟩ := masks_entries e hm
  refine ⟨hfresh, fun h => ?_, fun h => ?_, fun h => ?_, fun h => ?_, fun h => ?_⟩
  · dsimp only at h ⊢
    split_ifs at h with hs
    · obtain ⟨ho, hsize⟩ := hpart h
      exact ⟨by simp [FuncInstr.isStore, ho], hsize⟩
    · cases h
  · have ho : e.operation = .outStore := by simpa [FuncInstr.isStore] using h
    refine ⟨?_, .inl (storeSize_entries e hm ho)⟩
    dsimp only
    split_ifs
    · exact hstore ho
    · exact .inr (.inr (.inr rfl))
  · dsimp only at h ⊢
    split_ifs at h with hs
    · exact ⟨(hmoves h).1, isZero_operand bytes (hmoves h).2⟩
    · cases h
  · dsimp only at h ⊢
    split_ifs at h with hs
    · obtain ⟨ho, hsize, hd⟩ := hload h
      exact ⟨ho, hsize, isZero_operand bytes hd⟩
    · rcases h with h | h <;> cases h
  · dsimp only at h
    split_ifs at h with hs
    exact absurd h hcsr

theorem listed_riscv (opcodes : RiscVOpcodes) (bytes : BitVec 32) (PC : Addr) :
    (RiscV.createInstr opcodes w bytes PC).Listed := by
  have hfresh := (RiscV.isa opcodes (w := w)).fresh_createInstr bytes .little PC
  have hfresh' : (RiscV.createInstr opcodes w bytes PC).Fresh := hfresh
  obtain ⟨target, newPC, vImm, hi⟩ := RiscV.createInstr_entry (w := w) opcodes bytes PC
  rw [hi] at hfresh' ⊢
  obtain ⟨hstore, hpart, hmoves, hr, hl, hcsr⟩ :=
    masks_cmdDesc _ (RiscV.findEntry_mem (w := w) opcodes bytes)
  generalize RiscV.findEntry opcodes w bytes = e at *
  refine ⟨hfresh', fun h => ?_, fun h => ?_, fun h => ?_, fun h => ?_, fun h => ?_⟩
  · exact absurd h (by simp [hpart])
  · obtain ⟨ho, hsize⟩ := hstore (by simpa [FuncInstr.isStore] using h)
    exact ⟨.inl ho, hsize⟩
  · exact absurd h (by simp [hmoves])
  · rcases h with h | h
    · exact absurd h hr
    · exact absurd h hl
  · obtain ⟨ho, hd⟩ := hcsr h
    refine ⟨ho, ?_⟩
    have hrd : (RiscVInstrDecoder.applyMask bytes 0x00000f80#32 7).toNat ≤ 31 := by
      rw [RiscVInstrDecoder.applyMask, BitVec.toNat_ushiftRight, BitVec.toNat_and,
        Nat.shiftRight_eq_div_pow]
      exact Nat.div_le_div_right (c := 2 ^ 7) (Nat.and_le_right : _ ≤ 0xf80)
    dsimp only
    rw [hd]
    show (RiscVInstrDecoder.applyMask bytes 0x00000f80#32 7).toNat
      ≠ 32 + opcodes.csrs.findIdx _
    omega

theorem IsSupported.listed {isa : ISA w} (h : IsSupported isa) (bytes : BitVec 32)
    (endian : Endian) (PC : Addr) : (isa.createInstr bytes endian PC).Listed := by
  cases h with
  | mips version => exact listed_mips _ _ _ _
  | riscv opcodes hw => exact listed_riscv _ _ _

end Decoders

section Effect

variable {M : Type} [FuncMemory M] {f g : FuncInstr w} {rf rf' : RF w} {m m' : M}

theorem effect_cases {a : FuncInstr w × RF w × M} (h : f.effect rf m = .ok a) :
    loadStore m f.execute = .ok (a.1, a.2.2) ∧ rf.writeDst a.1 = .ok a.2.1 := by
  obtain ⟨⟨g', mem⟩, hm, h⟩ := bind_eq_ok.1 h
  obtain ⟨rf₁, hw, h⟩ := bind_eq_ok.1 h
  cases h
  exact ⟨hm, hw⟩

/-- Memory access changes the first result of an instruction that loads, and nothing else of it. -/
theorem loadStore_instr (h : loadStore m f = .ok (g, m')) :
    ∃ vDst0 memoryComplete, g = { f with vDst0 := vDst0, memoryComplete := memoryComplete }
      ∧ (f.isLoad = false → vDst0 = f.vDst0) := by
  unfold loadStore at h
  split_ifs at h with hl hs
  · cases h
    exact ⟨_, _, rfl, fun hn => absurd (hl.symm.trans hn) (by decide)⟩
  · obtain ⟨mem, -, h⟩ := bind_eq_ok.1 h
    cases h
    exact ⟨_, _, rfl, fun _ => rfl⟩
  · cases h
    exact ⟨_, _, rfl, fun _ => rfl⟩

/-- What an instruction keeps when it is executed and has accessed memory. -/
theorem accessed_eq (h : loadStore m f.execute = .ok (g, m')) :
    ∃ trap memAddr isTakenBranch newPC vDst0 vDst1 mask memoryComplete,
      g = { f with
        trap := trap, memAddr := memAddr, isTakenBranch := isTakenBranch, newPC := newPC
        vDst0 := vDst0, vDst1 := vDst1, mask := mask, complete := true
        memoryComplete := memoryComplete } := by
  obtain ⟨vDst0, memoryComplete, rfl, -⟩ := loadStore_instr h
  obtain ⟨trap, memAddr, isTakenBranch, newPC, _, vDst1, mask, hrun⟩ :=
    executed_run (f := f) f.executor
  unfold FuncInstr.execute
  rw [hrun]
  exact ⟨_, _, _, _, _, _, _, _, rfl⟩

/-- Only stores change memory. -/
theorem loadStore_mem (h : loadStore m f = .ok (g, m')) (hs : f.isStore = false) : m' = m := by
  unfold loadStore at h
  rw [hs] at h
  split_ifs at h with hl
  · cases h
    rfl
  · contradiction
  · cases h
    rfl

end Effect

section Pairs

variable {M : Type} [FuncMemory M] {f g h : FuncInstr w} {rf rf' : RF w} {m m' : M}

/-- What an instruction does is not in the results that the checker compares: it stores, or it
writes under a mask from its operands. A conditional move onto its own source is seen. -/
def FuncInstr.Unseen (f : FuncInstr w) : Prop :=
  f.isStore ∨ f.dst0.isZero = false ∧ f.executor.masksByOperands
    ∧ ¬ (f.executor.moves ∧ f.dst0.toRfIndex = f.src0.toRfIndex)

instance (f : FuncInstr w) : Decidable f.Unseen := inferInstanceAs (Decidable (_ ∨ _))

/-- There are registers and a memory for which the instruction does not throw. -/
def FuncInstr.Executable (M : Type) [FuncMemory M] (isa : ISA w) (f : FuncInstr w) : Prop :=
  ∃ (rf : RF w) (m : M) (g : FuncInstr w) (a : FuncInstr w × RF w × M),
    rf.maxReg = isa.maxReg ∧ rf.array 0 = 0#w ∧ rf.readSources f = .ok g ∧ g.effect rf m = .ok a

/-- What passes the checker leaves the same registers and memory: the checker's own execution
reads the registers, and the other one has any operands. -/
def FuncInstr.PairsAgree (M : Type) [FuncMemory M] (isa : ISA w) (f : FuncInstr w) : Prop :=
  ∀ (rf : RF w) (m : M) (vSrc : BitVec w × BitVec w) (g : FuncInstr w)
    (a b : FuncInstr w × RF w × M), rf.maxReg = isa.maxReg → rf.array 0 = 0#w →
    rf.readSources f = .ok g → g.effect rf m = .ok a → (f.withSources vSrc).effect rf m = .ok b →
    a.1.isSameChecker b.1 → b.2 = a.2

theorem readSources_iff : rf.readSources f = .ok g
    ↔ (rf.Valid f.src0 ∧ rf.Valid f.src1) ∧ g = f.withSources (rf.get f.src0, rf.get f.src1) := by
  unfold RF.readSources RF.read RF.getValue
  constructor
  · intro h
    obtain ⟨v₀, h₀, h⟩ := bind_eq_ok.1 h
    obtain ⟨v₁, h₁, h⟩ := bind_eq_ok.1 h
    split_ifs at h₀ h₁ with hv₀ hv₁
    cases h₀
    cases h₁
    cases h
    exact ⟨⟨hv₀, hv₁⟩, rfl⟩
  · rintro ⟨⟨hv₀, hv₁⟩, rfl⟩
    rw [if_pos hv₀, if_pos hv₁]
    rfl

/-- What memory access leaves of an instruction with some operands. -/
theorem effect_instr {vSrc : BitVec w × BitVec w} {a : FuncInstr w × RF w × M}
    (ha : (f.withSources vSrc).effect rf m = .ok a) :
    a.1.dst0 = f.dst0 ∧ a.1.dst1 = f.dst1 ∧ a.1.operation = f.operation
      ∧ a.1.mask = (f.executor.run (f.withSources vSrc)).mask
      ∧ (f.isLoad = false → a.1.vDst0 = (f.executor.run (f.withSources vSrc)).vDst0)
      ∧ a.1.vDst1 = (f.executor.run (f.withSources vSrc)).vDst1
      ∧ a.1.PC = f.PC ∧ a.1.raw = f.raw ∧ a.1.sequenceId = f.sequenceId := by
  obtain ⟨hls, -⟩ := effect_cases ha
  obtain ⟨vDst0, memoryComplete, he, hv⟩ := loadStore_instr hls
  obtain ⟨trap, memAddr, isTakenBranch, newPC, v₀, v₁, mask, hrun⟩ :=
    executed_run (f := f.withSources vSrc) f.executor
  have hexec : (f.withSources vSrc).execute
      = { f.executor.run (f.withSources vSrc) with complete := true } := rfl
  rw [hexec, hrun] at he hv
  rw [he, hrun]
  exact ⟨rfl, rfl, rfl, rfl, hv, rfl, rfl, rfl, rfl⟩

/-- A conditional move onto its own source writes what is there, whatever its mask is. -/
theorem writeDst_of_same (hdst0 : f.dst0 = g.dst0) (hdst1 : f.dst1 = g.dst1)
    (hop : f.operation = g.operation) (hacc : f.getAccumulationType = 0)
    (hv : f.vDst0 = g.vDst0) (hget : f.vDst0 = rf.get f.dst0)
    (h₁ : f.dst1.isZero ∨ f.vDst1 = g.vDst1) : rf.writeDst f = rf.writeDst g := by
  have hmask : ∀ x : FuncInstr w, x.dst0 = f.dst0 → x.vDst0 = f.vDst0 →
      x.getAccumulationType = 0 → rf.writeDst x = rf.writeDst { x with mask := allOnes w } := by
    intro x hd hvx hx
    have happly : ∀ mask, rf.applyMask x.dst0 x.vDst0 mask = rf.get x.dst0 := by
      intro mask
      rw [hvx, hget, hd]
      apply BitVec.eq_of_getLsbD_eq
      intro i hi
      simp only [RF.applyMask, BitVec.getLsbD_or, BitVec.getLsbD_and, BitVec.getLsbD_not, hi]
      cases (rf.get f.dst0).getLsbD i <;> cases mask.getLsbD i <;> rfl
    unfold RF.writeDst RF.writeAccumulated
    have hx' : FuncInstr.getAccumulationType { x with mask := allOnes w } = 0 := hx
    rw [hx, hx']
    simp only [RF.accumulate, Int.reduceEq, if_false, Bool.and_false, Bool.false_eq_true,
      RF.writeMasked, happly]
  have hacc' : g.getAccumulationType = 0 := by
    unfold FuncInstr.getAccumulationType at hacc ⊢
    rw [← hop]
    exact hacc
  rw [hmask f rfl rfl hacc, hmask g hdst0.symm hv.symm hacc']
  exact RF.writeDst_congr hdst0 hdst1 hop (.inr ⟨hv, rfl⟩) h₁

/-- The comparison of the results, for two instructions with the same destinations. -/
theorem results_of_isSameChecker (h : f.isSameChecker g) :
    (f.dst0.isZero ∨ f.vDst0 = g.vDst0) ∧ (f.dst1.isZero ∨ f.vDst1 = g.vDst1) := by
  simp only [FuncInstr.isSameChecker, Bool.and_eq_true, Bool.or_eq_true, beq_iff_eq] at h
  exact ⟨h.1.2, h.2⟩

theorem vDst0_moves (hm : f.executor.moves) (vSrc : BitVec w × BitVec w) :
    (f.executor.run (f.withSources vSrc)).vDst0 = vSrc.1 := by
  unfold Executor.moves at hm
  split at hm
  · rename_i he
    rw [he]
    show (Alu.moveUnless _ _).vDst0 = _
    unfold Alu.moveUnless
    split_ifs <;> exact BitVec.setWidth_eq _
  · rename_i he
    rw [he]
    show (Alu.moveUnless _ _).vDst0 = _
    unfold Alu.moveUnless
    split_ifs <;> exact BitVec.setWidth_eq _
  · cases hm

/-- An instruction that is seen leaves the same when its results are the same. -/
theorem agree_of_seen (hl : f.Listed) (hseen : ¬ f.Unseen) {vSrc : BitVec w × BitVec w}
    {a b : FuncInstr w × RF w × M} (hread : rf.readSources f = .ok g)
    (ha : g.effect rf m = .ok a) (hb : (f.withSources vSrc).effect rf m = .ok b)
    (hsame : a.1.isSameChecker b.1) : b.2 = a.2 := by
  obtain ⟨-, rfl⟩ := readSources_iff.1 hread
  obtain ⟨hsa, hwa⟩ := effect_cases ha
  obtain ⟨hsb, hwb⟩ := effect_cases hb
  obtain ⟨hda₀, hda₁, hoa, hma, hva, -⟩ := effect_instr ha
  obtain ⟨hdb₀, hdb₁, hob, hmb, -⟩ := effect_instr hb
  obtain ⟨hr₀, hr₁⟩ := results_of_isSameChecker hsame
  rw [hda₀] at hr₀
  rw [hda₁] at hr₁
  simp only [FuncInstr.Unseen, not_or, not_and, Bool.not_eq_true] at hseen
  obtain ⟨hstore, hmask⟩ := hseen
  -- memory is what it was
  have hstore' : ∀ vSrc, (f.withSources vSrc).execute.isStore = false := by
    intro vSrc
    obtain ⟨trap, memAddr, isTakenBranch, newPC, v₀, v₁, mask, hrun⟩ :=
      executed_run (f := f.withSources vSrc) f.executor
    show FuncInstr.isStore { f.executor.run (f.withSources vSrc) with complete := true } = _
    rw [hrun]
    exact hstore
  have hmem : b.2.2 = a.2.2 := by
    rw [loadStore_mem hsa (hstore' _), loadStore_mem hsb (hstore' _)]
  -- and the registers get the same values
  have hdst : rf.writeDst a.1 = rf.writeDst b.1 := by
    by_cases hz : f.dst0.isZero
    · exact RF.writeDst_congr (hda₀.trans hdb₀.symm) (hda₁.trans hdb₁.symm) (hoa.trans hob.symm)
        (.inl (hda₀ ▸ hz)) (hda₁ ▸ hr₁)
    · have hv := hr₀.resolve_left hz
      cases hm : f.executor.masksByOperands with
      | false =>
        have hpart : f.executor.storesPart = false := by
          by_contra hp
          rw [(hl.storesPart (by simpa using hp)).1] at hstore
          cases hstore
        refine RF.writeDst_congr (hda₀.trans hdb₀.symm) (hda₁.trans hdb₁.symm)
          (hoa.trans hob.symm) (.inr ⟨hv, ?_⟩) (hda₁ ▸ hr₁)
        rw [hma, hmb, mask_run hm hpart, mask_run hm hpart]
        rfl
      | true =>
        obtain ⟨hmoves, hsrc⟩ := Classical.not_imp.1 (hmask (by simpa using hz) hm)
        rw [not_not] at hsrc
        have hop := (hl.moves hmoves).1
        have hload : f.isLoad = false := by
          rw [FuncInstr.isLoad_eq, hop]
          rfl
        refine writeDst_of_same (hda₀.trans hdb₀.symm) (hda₁.trans hdb₁.symm)
          (hoa.trans hob.symm) ?_ hv ?_ (hda₁ ▸ hr₁)
        · simp [FuncInstr.getAccumulationType, hoa, hop]
        · rw [hva hload, vDst0_moves hmoves, hda₀]
          exact congrArg rf.array hsrc.symm
  rw [hwa, hwb] at hdst
  exact Prod.ext (Except.ok.inj hdst).symm hmem

end Pairs

end MiptMips
