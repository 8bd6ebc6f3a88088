import MiptMips.Simulator.CheckerPairs

/-!
# What the checker does not compare

Each kind of instruction that is not seen has operands that leave something else and pass: a store
with its data complemented, a conditional move whose condition is the other way around, a partial
load from the next byte of a blank memory, and a CSR write with other bits set. So the pairs that
pass agree exactly for the instructions that are seen, and for those that never get through
(`pairsAgree_iff`).
-/

namespace MiptMips

open Machines FuncMemory LawfulFuncMemory

variable {w : ℕ}

section Stores

variable {M : Type} [FuncMemory M] [LawfulFuncMemory M] {m m₁ : M} {e : Endian} {addr : Addr}

/-- Two values leave different bytes. -/
theorem write_ne {n : ℕ} {v v' : BitVec n} (h8 : 8 ∣ n) (h : write m e v addr = .ok m₁)
    (hne : v' ≠ v) : ∃ m₂, write m e v' addr = .ok m₂ ∧ m₂ ≠ m₁ := by
  obtain ⟨hin, -, -, hb⟩ := memcpy_ok h
  rw [length_unpackArray] at hin
  have hin' : addr.toNat + (unpackArray e v').length ≤ size m := by
    rw [length_unpackArray]
    exact hin
  obtain ⟨m₂, hm₂, -, -, hb'⟩ := host_to_guest hin'
  refine ⟨m₂, hm₂, fun heq => hne ?_⟩
  have hbytes : unpackArray e v' = unpackArray e v := by
    apply List.ext_getElem
    · simp
    · intro i h₁ h₂
      have hi : i < n / 8 := by simpa using h₁
      have hc : (canon m (addr.offset i)).toNat = addr.toNat + i := canon_offset (by omega)
      have hx := hb' (addr.offset i)
      rw [heq, hb (addr.offset i), hc] at hx
      simpa [hi, h₁, h₂] using hx.symm
  rw [← pack_unpack e v' h8, hbytes, pack_unpack e v h8]

theorem not_setWidth_ne {n : ℕ} (hn : 0 < n) (hw : 0 < w) (v : BitVec w) :
    (~~~v).setWidth n ≠ v.setWidth n := by
  intro h
  have hb := congrArg (fun x => x.getLsbD 0) h
  simp [hn, hw] at hb

theorem writeInteger_ne {n : ℕ} (hn : IsSize n ∨ n = 16) (hw : 0 < w) {v : BitVec w}
    (h : writeInteger m e v addr n = .ok m₁) :
    ∃ m₂, writeInteger m e (~~~v) addr n = .ok m₂ ∧ m₂ ≠ m₁ := by
  rcases hn with hn | rfl
  · have hpos : 0 < 8 * n := by
      unfold IsSize at hn
      omega
    rw [writeInteger_eq hn] at h ⊢
    exact write_ne (Nat.dvd_mul_right 8 n) h (not_setWidth_ne hpos hw v)
  · have heq : ∀ x : BitVec w, writeInteger m e x addr 16 = write m e (x.setWidth 128) addr :=
      fun _ => rfl
    rw [heq] at h ⊢
    exact write_ne (by decide) h (not_setWidth_ne (by decide) hw v)

theorem maskedWrite_ne (h8 : 8 ∣ w) {v mask : BitVec w} {i : ℕ} (hi : mask.getLsbD i)
    (h : maskedWrite m e v addr mask = .ok m₁) :
    ∃ m₂, maskedWrite m e (~~~v) addr mask = .ok m₂ ∧ m₂ ≠ m₁ := by
  have hlt : i < w := by
    by_contra hge
    rw [BitVec.getLsbD_of_ge _ _ (by omega)] at hi
    cases hi
  refine write_ne h8 h fun heq => ?_
  rw [BitVec.getLsbD_eq_getElem hlt] at hi
  have hb := congrArg (fun x => x.getLsbD i) heq
  simp [hi, hlt] at hb

/-- A store of the complement leaves another memory. -/
theorem store_ne {g : FuncInstr w} (hsize : IsSize g.memSize ∨ g.memSize = 16) (hw : 0 < w)
    (h8 : 8 ∣ w) {i : ℕ} (hi : g.mask.getLsbD i) (h : store m g = .ok m₁) :
    ∃ m₂, store m { g with vSrc1 := ~~~g.vSrc1 } = .ok m₂ ∧ m₂ ≠ m₁ := by
  unfold store at h ⊢
  dsimp only at h ⊢
  split_ifs at h ⊢
  · exact writeInteger_ne hsize hw h
  · exact maskedWrite_ne h8 hi h

/-- The mask of a store is not empty. -/
theorem mask_store {f : FuncInstr w} (hw : 32 ≤ w) (hl : f.Listed) (hs : f.isStore) :
    ∃ i, (f.executor.run f).mask.getLsbD i := by
  obtain ⟨hexec, hsize⟩ := hl.store hs
  have hpos : 0 < f.memSize := by
    unfold IsSize at hsize
    omega
  have hfull : (bitmask w (f.memSize * 8)).getLsbD 0 := by
    rw [getLsbD_bitmask]
    simp
    omega
  rcases hexec with he | he | he | he
  · rw [he]
    exact ⟨0, hfull⟩
  · rw [he, mask_run rfl rfl]
    exact ⟨0, hfull⟩
  · unfold Executor.storesPart at he
    split at he
    · rename_i hr
      rw [hr]
      refine ⟨0, ?_⟩
      show (Alu.rightMask _).getLsbD 0
      unfold Alu.rightMask
      rw [BitVec.getLsbD_setWidth, getLsbD_bitmask]
      simp
      omega
    · rename_i hr
      rw [hr]
      refine ⟨31, ?_⟩
      show (Alu.leftMask _).getLsbD 31
      unfold Alu.leftMask
      rw [BitVec.getLsbD_shiftLeft, getLsbD_bitmask]
      simp
      omega
    · cases he
  · rw [he, mask_run rfl rfl]
    refine ⟨0, ?_⟩
    show f.mask.getLsbD 0
    rw [hl.fresh.mask, allOnes_eq, BitVec.getLsbD_allOnes]
    simp
    omega

/-- The units of the stores pass the data through. -/
theorem run_store {e : Executor} {f : FuncInstr w} (v : BitVec w)
    (he : e = .storeAddr ∨ e = .storeAddrAligned ∨ e.storesPart ∨ e = .unknownInstruction) :
    e.run { f with vSrc1 := v } = { e.run f with vSrc1 := v } := by
  rcases he with rfl | rfl | he | rfl
  · rfl
  · show Alu.storeAddrAligned _ = { Alu.storeAddrAligned f with vSrc1 := v }
    unfold Alu.storeAddrAligned
    have hm : Alu.misaligned (Alu.storeAddr { f with vSrc1 := v })
        = Alu.misaligned (Alu.storeAddr f) := rfl
    dsimp only
    rw [hm]
    split_ifs <;> rfl
  · unfold Executor.storesPart at he
    split at he
    · rfl
    · rfl
    · cases he
  · rfl

theorem FuncInstr.Listed.withSources {f : FuncInstr w} (h : f.Listed)
    (vSrc : BitVec w × BitVec w) : (f.withSources vSrc).Listed :=
  ⟨⟨h.fresh.trap, h.fresh.memAddr, h.fresh.isTakenBranch, h.fresh.vDst0, h.fresh.vDst1,
    h.fresh.mask, h.fresh.complete⟩, h.storesPart, h.store, h.moves, h.partialLoad, h.csrrs⟩

omit [LawfulFuncMemory M] in
/-- A store with other data, when both get to memory. -/
theorem effect_store {f g : FuncInstr w} {v : BitVec w} {rf rf₁ : RF w}
    (hf : f.execute = { g with vSrc1 := v }) (hs : g.isStore)
    (hm : store m { g with vSrc1 := v } = .ok m₁) (hw : rf.writeDst g = .ok rf₁) :
    f.effect rf m = .ok ({ g with vSrc1 := v }, rf₁, m₁) := by
  have hl : FuncInstr.isLoad { g with vSrc1 := v } = false := by
    by_contra h
    have := isStore_false_of_isLoad (by simpa using h)
    rw [show FuncInstr.isStore { g with vSrc1 := v } = g.isStore from rfl, hs] at this
    cases this
  have hs' : FuncInstr.isStore { g with vSrc1 := v } := hs
  unfold FuncInstr.effect
  rw [hf, bind_eq_ok]
  refine ⟨({ g with vSrc1 := v }, m₁), ?_, ?_⟩
  · unfold loadStore
    rw [hl, if_neg (by simp), if_pos hs', bind_eq_ok]
    exact ⟨m₁, hm, rfl⟩
  · rw [bind_eq_ok]
    exact ⟨rf₁, (RF.writeDst_congr rfl rfl rfl (.inr ⟨rfl, rfl⟩) (.inr rfl)).trans hw, rfl⟩

/-- A store of the complement passes the checker. -/
theorem not_pairsAgree_of_store {isa : ISA w} {f : FuncInstr w} (hw : 32 ≤ w) (h8 : 8 ∣ w)
    (hl : f.Listed) (hs : f.isStore) (hx : f.Executable M isa) : ¬ f.PairsAgree M isa := by
  obtain ⟨rf, m, g, ⟨a, rf₁, m₁⟩, hmax, hzero, hread, ha⟩ := hx
  intro hpairs
  obtain ⟨-, rfl⟩ := readSources_iff.1 hread
  obtain ⟨hls, hwr⟩ := effect_cases ha
  generalize (rf.get f.src0, rf.get f.src1) = v at hread ha hls
  obtain ⟨trap, memAddr, isTakenBranch, newPC, v₀, v₁, mask, hrun⟩ :=
    executed_run (f := f.withSources v) f.executor
  have hexec : (f.withSources v).execute
      = { f.executor.run (f.withSources v) with complete := true } := rfl
  have hsrc : (f.withSources v).execute.vSrc1 = v.2 := by
    rw [hexec, hrun]
    rfl
  have hstore : (f.withSources v).execute.isStore := by
    rw [hexec, hrun]
    exact hs
  have hmemSize : (f.withSources v).execute.memSize = f.memSize := by
    rw [hexec, hrun]
    rfl
  obtain ⟨i, hi⟩ : ∃ i, (f.withSources v).execute.mask.getLsbD i :=
    mask_store hw (hl.withSources v) hs
  have hother : (f.withSources (v.1, ~~~v.2)).execute
      = { (f.withSources v).execute with vSrc1 := ~~~v.2 } :=
    congrArg (fun x : FuncInstr w => { x with complete := true })
      (run_store (f := f.withSources v) (~~~v.2) (hl.store hs).1)
  rw [← hsrc] at hother
  generalize (f.withSources v).execute = g at hls hstore hmemSize hi hother
  rcases loadStore_cases hls with ⟨hload, -, -⟩ | ⟨-, rfl, hm₁⟩ | ⟨-, hn, -, -⟩
  · rw [isStore_false_of_isLoad hload] at hstore
    cases hstore
  · obtain ⟨m₂, hm₂, hne⟩ := store_ne (hmemSize ▸ (hl.store hs).2) (by omega) h8 hi hm₁
    have hb := effect_store hother hstore hm₂ hwr
    have heq := hpairs rf m _ _ _ _ hmax hzero hread ha hb
      (by simp [FuncInstr.isSameChecker, FuncInstr.isSame, FuncInstr.isSameBytes])
    exact hne (congrArg Prod.snd heq)
  · rw [hstore] at hn
    cases hn

end Stores

section Masked

variable {M : Type} [FuncMemory M] {isa : ISA w} {f : FuncInstr w} {rf : RF w} {m : M}
  {vSrc : BitVec w × BitVec w}

/-- An instruction that does not store and does not accumulate gets through when the register file
has its destinations. -/
theorem effect_ok (hstore : f.isStore = false) (hacc : f.getAccumulationType = 0)
    (hdst : rf.Valid f.dst0 ∧ rf.Valid f.dst1) (m : M) (vSrc : BitVec w × BitVec w) :
    ∃ a, (f.withSources vSrc).effect rf m = .ok a := by
  obtain ⟨trap, memAddr, isTakenBranch, newPC, v₀, v₁, mask, hrun⟩ :=
    executed_run (f := f.withSources vSrc) f.executor
  have hexec : (f.withSources vSrc).execute
      = { f.executor.run (f.withSources vSrc) with complete := true } := rfl
  have hls : ∃ g, loadStore m (f.withSources vSrc).execute = .ok (g, m) := by
    unfold loadStore
    have hs : (f.withSources vSrc).execute.isStore = false := by
      rw [hexec, hrun]
      exact hstore
    rw [hs]
    split_ifs
    · exact ⟨_, rfl⟩
    · contradiction
    · exact ⟨_, rfl⟩
  obtain ⟨g, hg⟩ := hls
  obtain ⟨vDst0, memoryComplete, he, -⟩ := loadStore_instr hg
  have hg₀ : g.dst0 = f.dst0 ∧ g.dst1 = f.dst1 ∧ g.getAccumulationType = 0 := by
    rw [he, hexec, hrun]
    exact ⟨rfl, rfl, hacc⟩
  obtain ⟨rf₁, hw, -⟩ := RF.writeDst_total (hg₀.1 ▸ hdst.1) (hg₀.2.1 ▸ hdst.2) hg₀.2.2
  exact ⟨(g, rf₁, m), FuncInstr.effect_eq_ok hg hw⟩

theorem get_effect (hacc : f.getAccumulationType = 0) (hnz : f.dst0.isZero = false)
    (hdst1 : f.dst1.isZero ∨ f.dst1.toRfIndex ≠ f.dst0.toRfIndex)
    {a : FuncInstr w × RF w × M} (ha : (f.withSources vSrc).effect rf m = .ok a) :
    a.2.1.get f.dst0
      = rf.applyMask f.dst0 a.1.vDst0 (f.executor.run (f.withSources vSrc)).mask := by
  obtain ⟨-, hw⟩ := effect_cases ha
  obtain ⟨hd₀, hd₁, hop, hmask, -⟩ := effect_instr ha
  have hacc' : a.1.getAccumulationType = 0 := by
    unfold FuncInstr.getAccumulationType at hacc ⊢
    rw [hop]
    exact hacc
  have hother : ¬ (f.dst1.isZero = false ∧ f.dst0.toRfIndex = f.dst1.toRfIndex) := by
    rintro ⟨hz, hi⟩
    rcases hdst1 with h | h
    · rw [hz] at h
      cases h
    · exact h hi.symm
  rw [RF.get_writeDst hw hacc', hd₀, hd₁, if_neg hother, if_pos ⟨hnz, rfl⟩, hmask]

/-- Two masks that make a difference are not seen. -/
theorem not_pairsAgree_of_masks (rf : RF w) (m : M) (x : BitVec w) (vSrc : BitVec w × BitVec w)
    (hmax : rf.maxReg = isa.maxReg) (hzero : rf.array 0 = 0#w)
    (hsrc : rf.Valid f.src0 ∧ rf.Valid f.src1) (hdst : rf.Valid f.dst0 ∧ rf.Valid f.dst1)
    (hstore : f.isStore = false) (hacc : f.getAccumulationType = 0)
    (hnz : f.dst0.isZero = false) (hdst1 : f.dst1.isZero ∨ f.dst1.toRfIndex ≠ f.dst0.toRfIndex)
    (hv₀ : ∀ v a, (f.withSources v).effect rf m = .ok a →
      v = (rf.get f.src0, rf.get f.src1) ∨ v = vSrc → a.1.vDst0 = x)
    (hv₁ : f.dst1.isZero ∨ (f.executor.run (f.withSources (rf.get f.src0, rf.get f.src1))).vDst1
      = (f.executor.run (f.withSources vSrc)).vDst1)
    (hne : rf.applyMask f.dst0 x
        (f.executor.run (f.withSources (rf.get f.src0, rf.get f.src1))).mask
      ≠ rf.applyMask f.dst0 x (f.executor.run (f.withSources vSrc)).mask) :
    ¬ f.PairsAgree M isa := by
  intro hpairs
  obtain ⟨a, ha⟩ := effect_ok hstore hacc hdst m (rf.get f.src0, rf.get f.src1)
  obtain ⟨b, hb⟩ := effect_ok hstore hacc hdst m vSrc
  have hva := hv₀ _ a ha (.inl rfl)
  have hvb := hv₀ _ b hb (.inr rfl)
  obtain ⟨hda₀, hda₁, -, -, -, hva₁, hPCa, hrawa, hida⟩ := effect_instr ha
  obtain ⟨-, -, -, -, -, hvb₁, hPCb, hrawb, hidb⟩ := effect_instr hb
  have hsame : a.1.isSameChecker b.1 := by
    simp only [FuncInstr.isSameChecker, FuncInstr.isSame, FuncInstr.isSameBytes, Bool.and_eq_true,
      Bool.or_eq_true, beq_iff_eq, hPCa, hPCb, hrawa, hrawb, hida, hidb, hva, hvb, hva₁, hvb₁, hda₁,
      or_true, and_true, true_and]
    exact hv₁
  have heq := hpairs rf m vSrc _ a b hmax hzero (readSources_iff.2 ⟨hsrc, rfl⟩) ha hb hsame
  have hget := get_effect hacc hnz hdst1 ha
  rw [← heq, get_effect hacc hnz hdst1 hb, hva, hvb] at hget
  exact hne hget.symm

theorem vDst0_of_effect (hload : f.isLoad = false) {v : BitVec w × BitVec w}
    {a : FuncInstr w × RF w × M} (h : (f.withSources v).effect rf m = .ok a) :
    a.1.vDst0 = (f.executor.run (f.withSources v)).vDst0 := (effect_instr h).2.2.2.2.1 hload

/-- Registers that are all zero but for one of them. -/
def RF.holding (maxReg : ℕ) (num : Register) (value : BitVec w) : RF w :=
  (RF.zeroed w maxReg).set num value

theorem RF.get_holding (maxReg : ℕ) (num d : Register) (value : BitVec w) :
    (RF.holding maxReg num value).get d = if d.toRfIndex = num.toRfIndex then value else 0#w := rfl

theorem RF.holding_zero {maxReg : ℕ} {num : Register} {value : BitVec w}
    (h : num.isZero = false ∨ value = 0#w) : (RF.holding maxReg num value).array 0 = 0#w := by
  show (if 0 = num.toRfIndex then value else 0#w) = 0#w
  split_ifs with hz
  · rcases h with h | h
    · simp [Register.isZero, ← hz] at h
    · exact h
  · rfl

/-- The registers of an instruction that gets through are in the register file. -/
theorem FuncInstr.Executable.valid (h : f.Executable M isa) (hacc : f.getAccumulationType = 0) :
    (f.src0.toRfIndex < isa.maxReg ∧ f.src1.toRfIndex < isa.maxReg)
      ∧ f.dst0.toRfIndex < isa.maxReg ∧ f.dst1.toRfIndex < isa.maxReg := by
  obtain ⟨rf, m, g, ⟨a, rf', m'⟩, hmax, -, hread, ha⟩ := h
  obtain ⟨hsrc, rfl⟩ := readSources_iff.1 hread
  obtain ⟨hd₀, hd₁, hop, -⟩ := effect_instr ha
  obtain ⟨-, hw⟩ := effect_cases ha
  have hacc' : a.getAccumulationType = 0 := by
    unfold FuncInstr.getAccumulationType at hacc ⊢
    rw [hop]
    exact hacc
  obtain ⟨rf₁, h₀, h₁⟩ := RF.writeDst_ok hw
  rw [hacc', hd₀] at h₀
  rw [hacc', hd₁] at h₁
  have hvalid₀ := RF.valid_of_writeAccumulated h₀
  have hvalid₁ := RF.valid_of_writeAccumulated h₁
  obtain ⟨rf₂, h₂, hmax₂⟩ := RF.writeMasked_ok hvalid₀ a.vDst0 a.mask
  rw [h₀] at h₂
  cases h₂
  unfold RF.Valid at hsrc hvalid₀ hvalid₁
  rw [hmax₂] at hvalid₁
  rw [hmax] at hsrc hvalid₀ hvalid₁
  exact ⟨hsrc, hvalid₀, hvalid₁⟩

theorem isStore_false_of_operation {o : OperationType} (h : f.operation = o) (ho : o ≠ .outStore) :
    f.isStore = false := by
  simp [FuncInstr.isStore, h, ho]

theorem mask_moves (hm : f.executor.moves) (v : BitVec w × BitVec w) :
    (f.executor.run (f.withSources v)).mask
      = if (v.2 == 0#w) = (f.executor == .movn) then 0#w else f.mask := by
  unfold Executor.moves at hm
  split at hm
  · rename_i he
    rw [he]
    show (Alu.moveUnless (f.withSources v) (v.2 == 0#w)).mask = _
    unfold Alu.moveUnless
    cases v.2 == 0#w <;> rfl
  · rename_i he
    rw [he]
    show (Alu.moveUnless (f.withSources v) (v.2 != 0#w)).mask = _
    unfold Alu.moveUnless
    rw [bne]
    cases v.2 == 0#w <;> rfl
  · cases hm

theorem applyMask_zero (num : Register) (v : BitVec w) : rf.applyMask num v 0#w = rf.get num := by
  simp [RF.applyMask]

/-- A conditional move onto a register that is not its source: the register holds one, the source
zero, and the condition is the other way around. -/
theorem not_pairsAgree_of_moves (hw : 0 < w) (hl : f.Listed) (hx : f.Executable M isa)
    (hm : f.executor.moves) (hnz : f.dst0.isZero = false)
    (hne : f.dst0.toRfIndex ≠ f.src0.toRfIndex) : ¬ f.PairsAgree M isa := by
  obtain ⟨hop, hd₁⟩ := hl.moves hm
  have hacc : f.getAccumulationType = 0 := by simp [FuncInstr.getAccumulationType, hop]
  have hload : f.isLoad = false := by simp [FuncInstr.isLoad_eq, hop, OperationType.loads]
  obtain ⟨hsrc, hdst⟩ := hx.valid hacc
  obtain ⟨-, m, -⟩ := hx
  let rf := RF.holding isa.maxReg f.dst0 (1#w)
  have h₀ : rf.get f.src0 = 0#w := by
    rw [RF.get_holding, if_neg (Ne.symm hne)]
  refine not_pairsAgree_of_masks rf m 0#w
    (0#w, if rf.get f.src1 = 0#w then 1#w else 0#w) rfl (RF.holding_zero (.inl hnz)) hsrc
    hdst (isStore_false_of_operation hop (by decide)) hacc hnz (.inl hd₁) ?_ (.inl hd₁) ?_
  · intro v a ha hv
    rw [vDst0_of_effect hload ha, vDst0_moves hm]
    rcases hv with rfl | rfl
    · exact h₀
    · rfl
  · have hone : (1#w == 0#w) = false := by
      rw [beq_eq_false_iff_ne]
      intro h
      have := congrArg (fun x => x.getLsbD 0) h
      simp [hw] at this
    have hdst₀ : rf.get f.dst0 = 1#w := by rw [RF.get_holding, if_pos rfl]
    have hdiff : rf.applyMask f.dst0 0#w 0#w ≠ rf.applyMask f.dst0 0#w (allOnes w) := by
      rw [applyMask_zero, hdst₀, allOnes_eq, RF.applyMask_allOnes]
      exact beq_eq_false_iff_ne.1 hone
    rw [mask_moves hm, mask_moves hm, hl.fresh.mask]
    dsimp only
    generalize rf.get f.src1 = s
    by_cases hs : s = 0#w
    · subst hs
      rw [if_pos rfl, beq_self_eq_true, hone]
      cases f.executor == .movn
      · exact hdiff.symm
      · exact hdiff
    · have hs' : (s == 0#w) = false := beq_eq_false_iff_ne.2 hs
      rw [if_neg hs, beq_self_eq_true, hs']
      cases f.executor == .movn
      · exact hdiff
      · exact hdiff.symm

/-- A write to a CSR of all bits instead of none. -/
theorem not_pairsAgree_of_csrrs (hw : 0 < w) (hl : f.Listed) (hx : f.Executable M isa)
    (he : f.executor = .csrrs) (hnz : f.dst0.isZero = false) : ¬ f.PairsAgree M isa := by
  obtain ⟨hop, hd₁⟩ := hl.csrrs he
  have hacc : f.getAccumulationType = 0 := by simp [FuncInstr.getAccumulationType, hop]
  have hload : f.isLoad = false := by simp [FuncInstr.isLoad_eq, hop, OperationType.loads]
  obtain ⟨hsrc, hdst⟩ := hx.valid hacc
  obtain ⟨-, m, -⟩ := hx
  have hrun : ∀ v : BitVec w × BitVec w, f.executor.run (f.withSources v)
      = { f.withSources v with mask := v.1, vDst0 := allOnes w, vDst1 := v.2 } := by
    intro v
    rw [he]
    rfl
  refine not_pairsAgree_of_masks (RF.zeroed w isa.maxReg) m (allOnes w) (allOnes w, 0#w) rfl rfl
    hsrc hdst (isStore_false_of_operation hop (by decide)) hacc hnz (.inr hd₁) ?_ (.inr ?_) ?_
  · intro v a ha _
    rw [vDst0_of_effect hload ha, hrun]
  · rw [hrun, hrun]
    rfl
  · rw [hrun, hrun]
    show RF.applyMask _ _ _ 0#w ≠ RF.applyMask _ _ _ (allOnes w)
    rw [applyMask_zero, allOnes_eq, RF.applyMask_allOnes]
    intro h
    have hb := congrArg (fun x : BitVec w => x.getLsbD 0) h
    simp [RF.get, RF.zeroed, hw] at hb

end Masked

section PartialLoads

variable {M : Type} [FuncMemory M] [LawfulFuncMemory M] {isa : ISA w} {f g : FuncInstr w} {m : M}

theorem getLsbD_rightMask (i : ℕ) : (Alu.rightMask f).getLsbD i
    = (decide (i < w) && decide (i < (4 - f.memAddr.toNat % 4) * 8)) := by
  unfold Alu.rightMask
  rw [BitVec.getLsbD_setWidth, getLsbD_bitmask]
  by_cases h : i < (4 - f.memAddr.toNat % 4) * 8
  · have h32 : i < 32 := by omega
    simp [h, h32]
  · simp [h]

theorem getLsbD_leftMask (i : ℕ) : (Alu.leftMask f).getLsbD i
    = (decide (i < w) && decide ((3 - f.memAddr.toNat % 4) * 8 ≤ i ∧ i < 32)) := by
  unfold Alu.leftMask
  rw [BitVec.getLsbD_shiftLeft, getLsbD_bitmask]
  by_cases h : (3 - f.memAddr.toNat % 4) * 8 ≤ i
  · have h₁ : i - (3 - f.memAddr.toNat % 4) * 8 < (1 + f.memAddr.toNat % 4) * 8 ↔ i < 32 := by
      omega
    have h₂ : i < w → i - (3 - f.memAddr.toNat % 4) * 8 < w := fun hi => by omega
    by_cases hi : i < w
    · simp [h, h₁, hi, h₂ hi]
    · simp [hi]
  · have h' : i < (3 - f.memAddr.toNat % 4) * 8 := by omega
    simp [h, h']

/-- Masks of different bytes of a word are different. -/
theorem rightMask_ne (hw : 32 ≤ w) (h : f.memAddr.toNat % 4 < g.memAddr.toNat % 4) :
    Alu.rightMask f ≠ Alu.rightMask g := by
  intro heq
  have hb := congrArg (fun x => x.getLsbD ((4 - g.memAddr.toNat % 4) * 8)) heq
  have hlt : (4 - g.memAddr.toNat % 4) * 8 < w := by omega
  have hlt' : (4 - g.memAddr.toNat % 4) * 8 < (4 - f.memAddr.toNat % 4) * 8 := by omega
  simp only [getLsbD_rightMask, hlt, hlt', decide_true, Nat.lt_irrefl, decide_false, Bool.and_true,
    Bool.and_false] at hb
  cases hb

theorem leftMask_ne (hw : 32 ≤ w) (h : f.memAddr.toNat % 4 < g.memAddr.toNat % 4) :
    Alu.leftMask f ≠ Alu.leftMask g := by
  intro heq
  have hb := congrArg (fun x => x.getLsbD ((3 - g.memAddr.toNat % 4) * 8)) heq
  have hlt : (3 - g.memAddr.toNat % 4) * 8 < w := by omega
  have hlt' : ¬ (3 - f.memAddr.toNat % 4) * 8 ≤ (3 - g.memAddr.toNat % 4) * 8 := by omega
  have h32 : (3 - g.memAddr.toNat % 4) * 8 < 32 := by omega
  simp only [getLsbD_leftMask, hlt, hlt', h32, le_refl, decide_true, and_true, decide_false,
    Bool.and_true, Bool.and_false] at hb
  cases hb

/-- The mask of a partial load is that of the place of its address in a word. -/
theorem mask_partialLoad (hw : 32 ≤ w) {v v' : BitVec w × BitVec w}
    (he : f.executor = .loadAddrRight32 ∨ f.executor = .loadAddrLeft32)
    (h : (v.1 + f.vImm).toNat % 4 < (v'.1 + f.vImm).toNat % 4) :
    (f.executor.run (f.withSources v)).mask ≠ (f.executor.run (f.withSources v')).mask := by
  have haddr : ∀ v : BitVec w × BitVec w, (Alu.loadAddr (f.withSources v)).memAddr.toNat % 4
      = (v.1 + f.vImm).toNat % 4 := by
    intro v
    show ((v.1 + f.vImm).setWidth 64).toNat % 4 = _
    rw [BitVec.toNat_setWidth]
    omega
  rcases he with he | he
  · rw [he]
    exact rightMask_ne hw (by rw [haddr, haddr]; exact h)
  · rw [he]
    exact leftMask_ne hw (by rw [haddr, haddr]; exact h)

theorem mod_four_succ (hw : 2 ≤ w) (x : BitVec w) :
    (x + 1#w).toNat % 4 = (x.toNat + 1) % 4 := by
  have h4 : 4 ∣ 2 ^ w := Nat.pow_dvd_pow 2 hw
  have h1 : 1 % 2 ^ w = 1 := Nat.mod_eq_of_lt (by
    have := Nat.le_of_dvd (Nat.two_pow_pos w) h4
    omega)
  rw [BitVec.toNat_add, BitVec.toNat_ofNat, h1, Nat.mod_mod_of_dvd _ h4]

/-- In a blank memory everything is zero. -/
theorem read_blank (hm : ∀ x, byteAt m x = 0#8) (h8 : 8 ∣ w) (e : Endian) (addr : Addr) :
    read m w e addr = 0#w := by
  apply BitVec.eq_of_getLsbD_eq
  intro i hi
  cases e with
  | little => simp [getLsbD_read_little m addr i hi h8, hm]
  | big => simp [getLsbD_read_big m addr i hi h8, hm]

theorem vDst0_blank (hm : ∀ x, byteAt m x = 0#8) (h8 : 8 ∣ w) (hload : f.isLoad)
    (hsize : 0 < f.memSize) {rf : RF w} {v : BitVec w × BitVec w} {a : FuncInstr w × RF w × M}
    (ha : (f.withSources v).effect rf m = .ok a) : a.1.vDst0 = 0#w := by
  obtain ⟨hls, -⟩ := effect_cases ha
  obtain ⟨trap, memAddr, isTakenBranch, newPC, v₀, v₁, mask, hrun⟩ :=
    executed_run (f := f.withSources v) f.executor
  have hexec : (f.withSources v).execute
      = { f.executor.run (f.withSources v) with complete := true } := rfl
  have hload' : (f.withSources v).execute.isLoad := by
    rw [hexec, hrun]
    exact hload
  have hsize' : 0 < (f.withSources v).execute.memSize := by
    rw [hexec, hrun]
    exact hsize
  rcases loadStore_cases hls with ⟨-, ha, -⟩ | ⟨hs, -, -⟩ | ⟨hn, -, -, -⟩
  · rw [ha, vDst0_load _ _ hsize', read_blank hm h8, extended]
    split_ifs
    · simp
    · apply BitVec.eq_of_getLsbD_eq
      intro i hi
      simp [BitVec.getLsbD_signExtend, BitVec.msb_eq_getLsbD_last]
  · rw [isStore_false_of_isLoad hload'] at hs
    cases hs
  · rw [hload'] at hn
    cases hn

/-- A partial load of zeroes into a register of ones, from the next byte. -/
theorem not_pairsAgree_of_partialLoad (hw : 32 ≤ w) (h8 : 8 ∣ w)
    (hm : ∃ m : M, ∀ x, byteAt m x = 0#8) (hl : f.Listed) (hx : f.Executable M isa)
    (he : f.executor = .loadAddrRight32 ∨ f.executor = .loadAddrLeft32)
    (hnz : f.dst0.isZero = false) : ¬ f.PairsAgree M isa := by
  obtain ⟨hop, hsize, hd₁⟩ := hl.partialLoad he
  have hacc : f.getAccumulationType = 0 := by simp [FuncInstr.getAccumulationType, hop]
  have hload : f.isLoad := by simp [FuncInstr.isLoad_eq, hop, OperationType.loads]
  obtain ⟨hsrc, hdst⟩ := hx.valid hacc
  obtain ⟨m, hm⟩ := hm
  let rf := RF.holding isa.maxReg f.dst0 (allOnes w)
  refine not_pairsAgree_of_masks rf m 0#w (rf.get f.src0 + 1#w, rf.get f.src1) rfl
    (RF.holding_zero (.inl hnz)) hsrc hdst (isStore_false_of_operation hop (by decide)) hacc hnz
    (.inl hd₁) (fun v a ha _ => vDst0_blank hm h8 hload (by omega) ha) (.inl hd₁) ?_
  have hones : rf.get f.dst0 = allOnes w := by rw [RF.get_holding, if_pos rfl]
  have happly : ∀ mask : BitVec w, rf.applyMask f.dst0 0#w mask = ~~~mask := by
    intro mask
    rw [RF.applyMask, hones, allOnes_eq]
    simp
  rw [happly, happly]
  intro h
  have hmask := congrArg (~~~·) h
  simp only [BitVec.not_not] at hmask
  clear_value rf
  generalize rf.get f.src0 = a, rf.get f.src1 = b at hmask
  have hmod : (a + 1#w + f.vImm).toNat % 4 = ((a + f.vImm).toNat + 1) % 4 := by
    have hcomm : a + 1#w + f.vImm = a + f.vImm + 1#w := by
      rw [BitVec.add_assoc, BitVec.add_comm 1#w, ← BitVec.add_assoc]
    rw [hcomm, mod_four_succ (by omega)]
  rcases Nat.lt_or_ge ((a + f.vImm).toNat % 4) ((a + 1#w + f.vImm).toNat % 4) with hlt | hge
  · have hne : (f.executor.run (f.withSources (a, b))).mask
        ≠ (f.executor.run (f.withSources (a + 1#w, b))).mask := mask_partialLoad hw he hlt
    exact hne hmask
  · have hlt : (a + 1#w + f.vImm).toNat % 4 < (a + f.vImm).toNat % 4 := by omega
    have hne : (f.executor.run (f.withSources (a + 1#w, b))).mask
        ≠ (f.executor.run (f.withSources (a, b))).mask := mask_partialLoad hw he hlt
    exact hne hmask.symm

end PartialLoads

section Law

variable {M : Type} [FuncMemory M] [LawfulFuncMemory M] {isa : ISA w} {f : FuncInstr w}

/-- What passes the checker agrees, but for the instructions that are not seen. -/
theorem pairsAgree_iff (hw : 32 ≤ w) (h8 : 8 ∣ w) (hm : ∃ m : M, ∀ x, byteAt m x = 0#8)
    (hl : f.Listed) : f.PairsAgree M isa ↔ ¬ (f.Unseen ∧ f.Executable M isa) := by
  constructor
  · rintro hp ⟨hs | ⟨hnz, hmasks, hmoves⟩, hx⟩
    · exact not_pairsAgree_of_store hw h8 hl hs hx hp
    · unfold Executor.masksByOperands at hmasks
      split at hmasks
      all_goals rename_i he
      · have hm : f.executor.moves := by rw [he]; rfl
        exact not_pairsAgree_of_moves (by omega) hl hx hm hnz (fun h => hmoves ⟨hm, h⟩) hp
      · have hm : f.executor.moves := by rw [he]; rfl
        exact not_pairsAgree_of_moves (by omega) hl hx hm hnz (fun h => hmoves ⟨hm, h⟩) hp
      · exact not_pairsAgree_of_partialLoad hw h8 hm hl hx (.inl he) hnz hp
      · exact not_pairsAgree_of_partialLoad hw h8 hm hl hx (.inr he) hnz hp
      · exact not_pairsAgree_of_csrrs (by omega) hl hx he hnz hp
      · cases hmasks
  · intro h
    by_cases hs : f.Unseen
    · intro rf m vSrc g a b hmax hzero hread ha _ _
      exact absurd ⟨hs, rf, m, g, a, hmax, hzero, hread, ha⟩ h
    · intro rf m vSrc g a b _ _ hread ha hb hsame
      exact agree_of_seen hl hs hread ha hb hsame

end Law

end MiptMips
