import MiptMips.FuncSim.NarrowRf
import MiptMips.Memory.SameMemory
import MiptMips.Mips.NarrowDecode
import MiptMips.FuncSim.Faults

/-!
# MIPS32 programs on 64-bit registers

A simulator on 64-bit registers follows one on 32-bit registers while its registers have the same
low halves, its memory looks the same and its program counters agree. A step keeps that as long as
nothing looks at the upper half of an operand that is not sign-extended (`step_follows`), and so
does a run (`mips64_follows_mips32`).

The results of additions, subtractions, multiplications and divisions are extended by zeroes, so a
program may well get such an operand (`mips64_diverges`).
-/

namespace MiptMips

open Bits Machines FuncMemory LawfulFuncMemory

variable {M : Type} [FuncMemory M] [LawfulFuncMemory M] {v v' : MipsVersion}

section Follows

/-- The 64-bit simulator `t` is where the 32-bit simulator `s` is. -/
structure Follows (v v' : MipsVersion) (s : FuncSim 32 M) (t : FuncSim 64 M) : Prop where
  rf : s.rf = t.rf.narrow
  mem : SameMemory s.mem t.mem
  endian : s.imem.endian = t.imem.endian
  pc : s.pc = t.pc
  delayedSlots : s.delayedSlots = t.delayedSlots
  nopsInARow : s.nopsInARow = t.nopsInARow
  sequenceId : s.sequenceId = t.sequenceId
  coherent : s.imem.Coherent (Mips.isaOf v 32)
  coherent' : t.imem.Coherent (Mips.isaOf v' 64)

/-- The address of a store that writes a part of a word, if the instruction is one. -/
def partialStore (g : FuncInstr 64) : Option Addr :=
  let addr := g.vSrc0 + g.vImm
  match g.executor with
  | .storeAddrRight32 => if addr.toNat % 4 = 0 then none else some addr
  | .storeAddrLeft32 => if addr.toNat % 4 = 3 then none else some (addr - 3#64)
  | _ => none

/-- What a step must not do to stay with the 32-bit simulator: look at the upper half of an operand
that is not sign-extended; load a narrow value in big-endian order; or store a part of a word in
big-endian order or at the very end of memory. -/
structure StepSafe (m : M) (g : FuncInstr 64) : Prop where
  operands : SignSafe g.executor g
  loadOrder : g.isLoad → g.endian = .little
  storeOrder : ∀ addr, partialStore g = some addr → g.endian = .little ∧ addr.toNat + 8 ≤ size m

end Follows

section Entries

open MipsTable

/-- The accesses of the 32-bit instruction set are of at most four bytes. -/
theorem Widens.memSize (hv : Widens v v') : ∀ e ∈ entries, e.versions.isSupported v →
    e.function ≠ .unknownInstruction → e.operation.loads ∨ e.operation = .outStore →
    e.memSize = 1 ∨ e.memSize = 2 ∨ e.memSize = 4 := by
  cases hv <;> decide +kernel

/-- The units of the stores. -/
theorem Widens.storeUnit (hv : Widens v v') : ∀ e ∈ entries, e.versions.isSupported v →
    e.function ≠ .unknownInstruction → e.operation = .outStore →
    e.function = .storeAddr ∨ e.function = .storeAddrAligned
      ∨ (e.function = .storeAddrRight32 ∨ e.function = .storeAddrLeft32) ∧ e.memSize = 4 := by
  cases hv <;> decide +kernel

end Entries

section Step

open MipsTable

variable {s s' : FuncSim 32 M} {t : FuncSim 64 M} {f : FuncInstr 32}

/-- The word at the program counter. -/
def FuncSim.word {w : ℕ} (s : FuncSim w M) : BitVec 32 := fetch s.imem.endian s.mem s.getPC

theorem Follows.word_eq (h : Follows v v' s t) : t.word = s.word := by
  unfold FuncSim.word fetch
  rw [h.mem.read_eq, ← h.endian, FuncSim.getPC, FuncSim.getPC, h.pc]

theorem Follows.current_narrow (hv : Widens v v') (h : Follows v v' s t)
    (hs : (getTableEntry s.word).versions.isSupported v) :
    (t.current (Mips.isaOf v' 64)).narrow = s.current (Mips.isaOf v 32) := by
  have hi := createInstr_narrow hv s.imem.endian s.word s.getPC hs
  have hi' : fetchInstr (Mips.isaOf v' 64) t.imem.endian t.mem t.getPC
      = Mips.createInstr v' s.imem.endian s.word s.getPC 64 := by
    show Mips.createInstr v' t.imem.endian t.word t.getPC 64 = _
    rw [h.word_eq, ← h.endian, FuncSim.getPC, FuncSim.getPC, h.pc]
  have hi'' : fetchInstr (Mips.isaOf v 32) s.imem.endian s.mem s.getPC
      = Mips.createInstr v s.imem.endian s.word s.getPC 32 := rfl
  unfold FuncSim.current
  dsimp only
  rw [hi', hi'', ← hi, h.rf, h.sequenceId]
  rfl

omit [LawfulFuncMemory M] in
/-- An instruction that ends without a trap is one that the version has. -/
theorem supported_of_noTrap (h : (s.current (Mips.isaOf v 32)).execute.trap = .noTrap) :
    (getTableEntry s.word).versions.isSupported v
      ∧ (getTableEntry s.word).function ≠ .unknownInstruction := by
  obtain ⟨target, newPC, slots, hi⟩ :=
    Mips.createInstr_entry (w := 32) v s.imem.endian s.word s.getPC
  have hexec : (s.current (Mips.isaOf v 32)).executor
      = if (getTableEntry s.word).versions.isSupported v
        then (getTableEntry s.word).function else .unknownInstruction := by
    show (Mips.createInstr v s.imem.endian s.word s.getPC 32).executor = _
    rw [hi]
  have hne : (s.current (Mips.isaOf v 32)).executor ≠ .unknownInstruction := by
    intro he
    unfold FuncInstr.execute at h
    rw [he] at h
    cases h
  rw [hexec] at hne
  split_ifs at hne with hs
  · exact ⟨hs, hne⟩
  · exact absurd rfl hne

/-- What the table says of the instruction of the 64-bit simulator. -/
structure Decoded (g : FuncInstr 64) : Prop where
  unit : g.executor.isMips32
  imm : SignExtended 32 g.vImm
  shift : g.executor.isImmediateShift → g.vImm.toNat < 32
  size : g.isLoad ∨ g.isStore → g.memSize = 1 ∨ g.memSize = 2 ∨ g.memSize = 4
  store : g.isStore → g.executor = .storeAddr ∨ g.executor = .storeAddrAligned
    ∨ (g.executor = .storeAddrRight32 ∨ g.executor = .storeAddrLeft32) ∧ g.memSize = 4

omit [LawfulFuncMemory M] in
theorem decoded_current (hv : Widens v v') (hs : (getTableEntry t.word).versions.isSupported v)
    (hu : (getTableEntry t.word).function ≠ .unknownInstruction) :
    Decoded (t.current (Mips.isaOf v' 64)) := by
  obtain ⟨target, newPC, slots, hi⟩ :=
    Mips.createInstr_entry (w := 64) v' t.imem.endian t.word t.getPC
  have hm := getTableEntry_mem t.word
  have hs' := hv.supported _ hm hs
  rw [if_pos hs'] at hi
  have hc : Decoded (Mips.createInstr v' t.imem.endian t.word t.getPC 64) := by
    rw [hi]
    refine ⟨hv.isMips32 _ hm hs hu, signExtended_getImmediate _ _, fun h => ?_, fun h => ?_,
      fun h => ?_⟩
    · dsimp only at h ⊢
      rw [shift_entries _ hm h]
      show ((MipsInstrDecoder.getImmediateValue t.word 'S').setWidth 64).toNat < 32
      have := getImmediateValue_shamt_lt t.word
      rw [BitVec.toNat_setWidth]
      omega
    · refine hv.memSize _ hm hs hu ?_
      rw [FuncInstr.isLoad_eq] at h
      simpa [FuncInstr.isStore] using h
    · exact hv.storeUnit _ hm hs hu (by simpa [FuncInstr.isStore] using h)
  exact ⟨hc.unit, hc.imm, hc.shift, hc.size, hc.store⟩

omit [FuncMemory M] [LawfulFuncMemory M] in
/-- An aligned store masks as many bytes as it has. -/
theorem mask_aligned {g : FuncInstr 64} (he : g.executor = .storeAddrAligned) :
    g.execute.mask = bitmask 64 (g.memSize * 8) := by
  have hm : (Executor.storeAddrAligned.run g).mask = bitmask 64 (g.memSize * 8) := by
    show (if _ then _ else _ : FuncInstr 64).mask = _
    split_ifs <;> rfl
  unfold FuncInstr.execute
  rw [he]
  exact hm

omit [FuncMemory M] [LawfulFuncMemory M] in
/-- Where a right store goes, and what it masks. -/
theorem execute_right {g : FuncInstr 64} (he : g.executor = .storeAddrRight32) :
    g.execute.memAddr = g.vSrc0 + g.vImm ∧ g.execute.mask
      = (bitmask 32 ((4 - (g.vSrc0 + g.vImm).toNat % 4) * 8)).setWidth 64 := by
  have haddr : (g.vSrc0 + g.vImm).setWidth 64 = g.vSrc0 + g.vImm := BitVec.setWidth_eq _
  unfold FuncInstr.execute
  rw [he, ← haddr]
  exact ⟨rfl, rfl⟩

omit [FuncMemory M] [LawfulFuncMemory M] in
/-- Where a left store goes, and what it masks. -/
theorem execute_left {g : FuncInstr 64} (he : g.executor = .storeAddrLeft32) :
    g.execute.memAddr = g.vSrc0 + g.vImm - 3#64 ∧ g.execute.mask
      = bitmask 64 ((1 + (g.vSrc0 + g.vImm).toNat % 4) * 8)
        <<< ((3 - (g.vSrc0 + g.vImm).toNat % 4) * 8) := by
  have haddr : (g.vSrc0 + g.vImm).setWidth 64 = g.vSrc0 + g.vImm := BitVec.setWidth_eq _
  unfold FuncInstr.execute
  rw [he, ← haddr]
  exact ⟨rfl, rfl⟩

/-- The mask of a store covers its bytes, or else it is a partial store that is known to be safe. -/
theorem mask_execute {m : M} {g : FuncInstr 64} (hd : Decoded g) (hst : g.isStore)
    (hs : ∀ addr, partialStore g = some addr → g.endian = .little ∧ addr.toNat + 8 ≤ size m) :
    g.execute.mask &&& bitmask 64 (g.memSize * 8) = bitmask 64 (g.memSize * 8)
      ∨ g.endian = .little ∧ g.execute.mask = (g.execute.mask.setWidth 32).setWidth 64
        ∧ g.execute.memAddr.toNat + 8 ≤ size m := by
  rcases hd.store hst with he | he | ⟨he | he, hsize⟩
  · left
    unfold FuncInstr.execute
    rw [he]
    exact BitVec.and_self
  · left
    rw [mask_aligned he, BitVec.and_self]
  · obtain ⟨ha, hm⟩ := execute_right he
    by_cases h0 : (g.vSrc0 + g.vImm).toNat % 4 = 0
    · left
      rw [hm, h0, hsize]
      decide
    · have hp : partialStore g = some (g.vSrc0 + g.vImm) := by
        unfold partialStore
        simp only [he]
        exact if_neg h0
      obtain ⟨hl, hin⟩ := hs _ hp
      refine .inr ⟨hl, ?_, by rw [ha]; exact hin⟩
      rw [hm]
      exact congrArg (BitVec.setWidth 64)
        ((BitVec.setWidth_eq _).symm.trans (BitVec.setWidth_setWidth_of_le _ (by decide)).symm)
  · obtain ⟨ha, hm⟩ := execute_left he
    by_cases h0 : (g.vSrc0 + g.vImm).toNat % 4 = 3
    · left
      rw [hm, h0, hsize]
      decide
    · have hp : partialStore g = some (g.vSrc0 + g.vImm - 3#64) := by
        unfold partialStore
        simp only [he]
        exact if_neg h0
      obtain ⟨hl, hin⟩ := hs _ hp
      refine .inr ⟨hl, ?_, by rw [ha]; exact hin⟩
      rw [hm]
      generalize hn : (g.vSrc0 + g.vImm).toNat % 4 = n
      have hlt : n < 4 := by omega
      clear hm h0 hn
      interval_cases n <;> decide

/-- The access to memory of both simulators. -/
theorem loadStore_narrow {m m' r : M} {g G : FuncInstr 64} {f : FuncInstr 32}
    (hm : SameMemory m m') (hd : Decoded g) (hc : StepSafe m' g) (hG : g.execute = G)
    (h : loadStore m G.narrow = .ok (f, r)) :
    ∃ G' r', loadStore m' G = .ok (G', r') ∧ G'.narrow = f ∧ SameMemory r r' := by
  obtain ⟨trap, memAddr, isTakenBranch, newPC, vDst0, vDst1, mask, hrun⟩ :=
    executed_run (f := g) g.executor
  have hexec : g.execute = _ := congrArg (fun i : FuncInstr 64 => { i with complete := true }) hrun
  have hload : G.isLoad = g.isLoad := by rw [← hG, hexec]; rfl
  have hstore : G.isStore = g.isStore := by rw [← hG, hexec]; rfl
  have hsize : G.memSize = g.memSize := by rw [← hG, hexec]
  have hend : G.endian = g.endian := by rw [← hG, hexec]
  have hl : G.narrow.isLoad = G.isLoad := rfl
  have hst : G.narrow.isStore = G.isStore := rfl
  rcases loadStore_cases h with ⟨hld, rfl, rfl⟩ | ⟨hs, rfl, hr⟩ | ⟨hld, hs, rfl, rfl⟩
  · rw [hl] at hld
    have hg := hload ▸ hld
    have hn := hd.size (.inl hg)
    refine ⟨_, m', by rw [loadStore, if_pos hld], ?_, hm⟩
    exact load_narrow hm (hend.trans (hc.loadOrder hg)) (by omega) (by omega)
  · rw [hst] at hs
    have hg := hstore ▸ hs
    have hn := hd.size (.inr hg)
    have hpart := mask_execute hd hg hc.storeOrder
    rw [hG, ← hsize, ← hend] at hpart
    obtain ⟨r', hr', hsame⟩ := store_narrow hm (by unfold IsSize; omega) (by omega) hpart hr
    refine ⟨G, r', ?_, rfl, hsame⟩
    have hnl : G.isLoad = false := by
      by_contra hl'
      rw [isStore_false_of_isLoad (by simpa using hl')] at hs
      cases hs
    rw [loadStore, hnl, hs, hr']
    rfl
  · rw [hl] at hld
    rw [hst] at hs
    exact ⟨G, m', by rw [loadStore, hld, hs]; rfl, rfl, hm⟩

theorem execute_narrow {g : FuncInstr 64} (hd : Decoded g) (hs : SignSafe g.executor g)
    (htrap : g.narrow.execute.trap = .noTrap) (hb : BelowLimit g.narrow.execute) :
    g.execute.narrow = g.narrow.execute := by
  obtain ⟨_, _, _, _, _, _, _, hrun⟩ := executed_run (f := g.narrow) g.executor
  have hcode : (g.executor.run g.narrow).newPC.toNat < 2 ^ 31 := hb.code
  have hdata : g.executor.isAddress → 0 ≤ g.narrow.vSrc0.toInt + g.narrow.vImm.toInt
      ∧ g.narrow.vSrc0.toInt + g.narrow.vImm.toInt < 2 ^ 31 := by
    intro ha
    have hdat := hb.data
    unfold FuncInstr.execute at hdat
    rw [show g.narrow.executor = g.executor from rfl, hrun] at hdat
    exact hdat ha
  have h := narrow_run hd.unit hs hd.imm hd.shift htrap hcode hdata
  unfold FuncInstr.execute
  rw [show g.narrow.executor = g.executor from rfl, ← h]
  rfl

omit [FuncMemory M] [LawfulFuncMemory M] in
/-- Both simulators move their program counters alike. -/
theorem updatePC_follows (s₁ : FuncSim 32 M) {s₂ : FuncSim 32 M} (t₁ : FuncSim 64 M)
    {G : FuncInstr 64}
    (hpc : s₁.pc = t₁.pc) (hd : s₁.delayedSlots = t₁.delayedSlots)
    (h : s₁.updatePC G.narrow = .ok s₂) :
    t₁.updatePC G = .ok { t₁ with pc := s₂.pc, delayedSlots := s₂.delayedSlots } := by
  obtain ⟨pc, slots, hm, rfl⟩ := FuncSim.updatePC_eq h
  rw [hpc, hd] at hm
  exact bind_eq_ok.2 ⟨(pc, slots), hm, rfl⟩

omit [FuncMemory M] [LawfulFuncMemory M] in
theorem nopCounter_follows {s₁ s₂ : FuncSim 32 M} (t₁ : FuncSim 64 M) {G : FuncInstr 64}
    (hn : s₁.nopsInARow = t₁.nopsInARow)
    (h : s₁.updateAndCheckNopCounter G.narrow = .ok s₂) :
    t₁.updateAndCheckNopCounter G = .ok { t₁ with nopsInARow := s₂.nopsInARow } := by
  have hnop : G.narrow.isNop = G.isNop := rfl
  unfold FuncSim.updateAndCheckNopCounter at h ⊢
  rw [hnop, hn] at h
  generalize (if G.isNop then t₁.nopsInARow + 1 else 0) = n at h ⊢
  by_cases hlt : n > 10
  · rw [if_pos hlt] at h
    cases h
  · rw [if_neg hlt] at h ⊢
    cases h
    rfl

/-- A step of the 32-bit simulator without a trap is followed by the 64-bit simulator, as long as
it is safe. -/
theorem step_follows (hv : Widens v v') (h : Follows v v' s t)
    (hs : s.step (Mips.isaOf v 32) = .ok (f, s')) (htrap : f.trap = .noTrap) (hb : BelowLimit f)
    (hc : StepSafe t.mem (t.current (Mips.isaOf v' 64))) :
    ∃ G t', t.step (Mips.isaOf v' 64) = .ok (G, t') ∧ G.narrow = f ∧ Follows v v' s' t' := by
  obtain ⟨e⟩ := FuncSim.step_cases hs
  obtain ⟨hvalid, hcur, himem⟩ := (FuncSim.fetchOperands_iff h.coherent).1 e.fetched
  have hacc := e.accessed
  rw [hcur] at hacc
  have hexec : (s.current (Mips.isaOf v 32)).execute.trap = .noTrap
      ∧ BelowLimit (s.current (Mips.isaOf v 32)).execute := by
    rcases loadStore_cases hacc with ⟨-, rfl, -⟩ | ⟨-, rfl, -⟩ | ⟨-, -, rfl, -⟩ <;>
      exact ⟨htrap, hb.code, hb.data⟩
  obtain ⟨hsup, hunit⟩ := supported_of_noTrap hexec.1
  have hnarrow := h.current_narrow hv hsup
  have hd : Decoded (t.current (Mips.isaOf v' 64)) :=
    decoded_current hv (h.word_eq ▸ hsup) (h.word_eq ▸ hunit)
  rw [← hnarrow] at hexec hacc
  rw [← execute_narrow hd hc.operands hexec.1 hexec.2] at hacc
  obtain ⟨G, mem, hG, rfl, hmem⟩ := loadStore_narrow h.mem hd hc rfl hacc
  -- the registers
  have hw := e.written
  rw [h.rf, RF.writeDst_narrow] at hw
  obtain ⟨rf, hrf, hrf'⟩ : ∃ rf, t.rf.writeDst G = .ok rf ∧ s'.rf = rf.narrow := by
    rcases hr : t.rf.writeDst G with err | rf
    · rw [hr] at hw
      cases hw
    · rw [hr] at hw
      exact ⟨rf, rfl, (Except.ok.inj hw).symm⟩
  -- the operands
  obtain ⟨imem, himem', hf⟩ : ∃ imem,
      imem = (t.imem.fetchInstr (Mips.isaOf v' 64) t.mem t.getPC).2
        ∧ t.fetchOperands (Mips.isaOf v' 64) = .ok (t.current (Mips.isaOf v' 64), imem) := by
    refine ⟨_, rfl, (FuncSim.fetchOperands_iff h.coherent').2 ⟨?_, rfl, rfl⟩⟩
    rw [hcur, ← hnarrow, h.rf] at hvalid
    exact hvalid
  -- the program counter and the counter of empty instructions
  have hu := updatePC_follows
    { s with sequenceId := s.sequenceId + 1, imem := s'.imem, mem := s'.mem, rf := s'.rf }
    { t with sequenceId := t.sequenceId + 1, imem, mem, rf }
    h.pc h.delayedSlots e.updated
  obtain ⟨pc, slots, -, hmoved⟩ := FuncSim.updatePC_eq e.updated
  have hnops : e.moved.nopsInARow = t.nopsInARow := by
    rw [hmoved]
    exact h.nopsInARow
  have hn := nopCounter_follows
    { t with sequenceId := t.sequenceId + 1, imem, mem, rf, pc := e.moved.pc,
             delayedSlots := e.moved.delayedSlots } hnops e.checked
  have hlast := FuncSim.updateAndCheckNopCounter_eq e.checked
  refine ⟨G, _, FuncSim.step_eq hf hG hrf hu hn, rfl, ?_⟩
  obtain ⟨n, hlast⟩ := hlast
  exact
    { rf := hrf'
      mem := hmem
      endian := by
        rw [himem, himem', endian_fetchInstr, endian_fetchInstr]
        exact h.endian
      pc := by
        have := congrArg FuncSim.pc hlast
        exact this
      delayedSlots := by
        have := congrArg FuncSim.delayedSlots hlast
        exact this
      nopsInARow := rfl
      sequenceId := (congrArg FuncSim.sequenceId hlast).trans
        ((congrArg FuncSim.sequenceId hmoved).trans (congrArg (· + 1) h.sequenceId))
      coherent := by
        rw [himem]
        exact fetchInstr_coherent h.coherent _ _
      coherent' := by
        rw [himem']
        exact fetchInstr_coherent h.coherent' _ _ }

end Step

section Run

/-- Both simulators are about to run the same program from the same address: the same memory, and
registers whose 64-bit values are the sign extensions of the 32-bit ones. -/
structure SameStart (v v' : MipsVersion) (s : FuncSim 32 M) (t : FuncSim 64 M) : Prop where
  reachable : s.Reachable (Mips.isaOf v 32)
  reachable' : t.Reachable (Mips.isaOf v' 64)
  maxReg : t.rf.maxReg = s.rf.maxReg
  array (i : ℕ) : t.rf.array i = (s.rf.array i).signExtend 64
  mem : t.mem = s.mem
  endian : t.imem.endian = s.imem.endian
  pc : t.pc = s.pc
  delayedSlots : t.delayedSlots = s.delayedSlots
  nopsInARow : t.nopsInARow = s.nopsInARow
  sequenceId : t.sequenceId = s.sequenceId

variable {s s' : FuncSim 32 M} {t : FuncSim 64 M} {instrs : List (FuncInstr 32)}

theorem SameStart.follows (h : SameStart v v' s t) : Follows v v' s t where
  rf := by
    have ha : (fun i => (t.rf.array i).setWidth 32) = s.rf.array := by
      funext i
      rw [h.array, SignExtended.setWidth_signExtend (by decide)]
    rw [RF.narrow, h.maxReg, ha]
  mem := by
    rw [h.mem]
    exact ⟨rfl, rfl, fun _ => rfl⟩
  endian := h.endian.symm
  pc := h.pc.symm
  delayedSlots := h.delayedSlots.symm
  nopsInARow := h.nopsInARow.symm
  sequenceId := h.sequenceId.symm
  coherent := h.reachable.coherent
  coherent' := h.reachable'.coherent

/-- A run of the 32-bit simulator without traps is followed by the 64-bit simulator, as long as all
of its steps are safe: it goes through the same instructions, and ends at the same program counter
with the same low halves in its registers. -/
theorem mips64_follows_mips32 (hv : Widens v v') (h : SameStart v v' s t)
    (hrun : Steps (FuncSim.step (Mips.isaOf v 32)) s instrs s')
    (htrap : ∀ f ∈ instrs, f.trap = .noTrap) (hbelow : ∀ f ∈ instrs, BelowLimit f)
    (hsafe : ∀ {done u}, Steps (FuncSim.step (Mips.isaOf v' 64)) t done u →
      done.length < instrs.length → StepSafe u.mem (u.current (Mips.isaOf v' 64))) :
    ∃ instrs' t', Steps (FuncSim.step (Mips.isaOf v' 64)) t instrs' t'
      ∧ List.Forall₂ (fun f g => g.PC = f.PC ∧ g.raw = f.raw ∧ g.trap = .noTrap) instrs instrs'
      ∧ t'.getPC = s'.getPC ∧ ∀ i, (t'.rf.array i).setWidth 32 = s'.rf.array i := by
  have hstep : ∀ {s : FuncSim 32 M} {f s'} {u : FuncSim 64 M}, Follows v v' s u →
      s.step (Mips.isaOf v 32) = .ok (f, s') →
      (f.trap = .noTrap ∧ BelowLimit f) ∧ StepSafe u.mem (u.current (Mips.isaOf v' 64)) →
      ∃ g u', u.step (Mips.isaOf v' 64) = .ok (g, u')
        ∧ (g.PC = f.PC ∧ g.raw = f.raw ∧ g.trap = .noTrap) ∧ Follows v v' s' u' := by
    intro s f s' u hR hs ha
    obtain ⟨g, u', hg, rfl, hR'⟩ := step_follows hv hR hs ha.1.1 ha.1.2 ha.2
    exact ⟨g, u', hg, ⟨rfl, rfl, ha.1.1⟩, hR'⟩
  obtain ⟨instrs', t', hrun', hall, hend⟩ := hrun.simulates
    hstep h.follows
    (fun {pre o post _ ps _} he _ hps hlen => by
      have hmem : o ∈ instrs := by
        rw [he]
        simp
      refine ⟨⟨htrap o hmem, hbelow o hmem⟩, hsafe hps ?_⟩
      rw [hlen, he, List.length_append, List.length_cons]
      omega)
  refine ⟨instrs', t', hrun', hall, ?_, fun i => ?_⟩
  · rw [FuncSim.getPC, FuncSim.getPC, hend.pc]
  · rw [hend.rf]
    rfl

end Run

section Example

/-- Sixteen bytes with two instructions at the addresses 8 and 12. -/
def memoryWithPair (b : List Byte) (h : b.length = 8) : PlainMemory where
  addrBits := 4
  arena := List.replicate 8 0#8 ++ b
  host _ := 0#8
  bits_lt := PlainMemory.four_bits_lt
  length_arena := by simp [h]

/-- A simulator of a version at the first of them, with `2 ^ 31 - 1` in `$t1`. -/
def pairSimulator (v : MipsVersion) (w : ℕ) (mem : PlainMemory) : FuncSim w PlainMemory :=
  let s := (FuncSim.create (Mips.isaOf v w) .little 16 mem).setTarget 8#64 0#64
  { s with rf := s.rf.set (.mips 9) (BitVec.ofNat w 0x7fffffff), mem := mem, nopsInARow := 0 }

theorem reachable_pairSimulator (v : MipsVersion) (w : ℕ) (mem : PlainMemory) :
    (pairSimulator v w mem).Reachable (Mips.isaOf v w) :=
  .host _ _ _ (.setTarget _ _ (.create _ _ _))

theorem rf_pairSimulator (v : MipsVersion) (w : ℕ) (mem : PlainMemory) :
    (pairSimulator v w mem).rf
      = (RF.zeroed w MipsRegister.maxReg).set (.mips 9) (BitVec.ofNat w 0x7fffffff) := rfl

theorem pc_pairSimulator (v : MipsVersion) (w : ℕ) (mem : PlainMemory) :
    (pairSimulator v w mem).pc = fun i => if i = 0 then 8#64 else 0#64 := rfl

theorem sameStart_pairSimulator (mem : PlainMemory) :
    SameStart .v32 .v64 (pairSimulator .v32 32 mem) (pairSimulator .v64 64 mem) where
  reachable := reachable_pairSimulator _ _ _
  reachable' := reachable_pairSimulator _ _ _
  maxReg := by
    rw [rf_pairSimulator, rf_pairSimulator]
    rfl
  array i := by
    rw [rf_pairSimulator, rf_pairSimulator]
    by_cases hi : i = 9
    · subst hi
      show BitVec.ofNat 64 0x7fffffff = (BitVec.ofNat 32 0x7fffffff).signExtend 64
      decide
    · show (if i = 9 then _ else 0#64) = (if i = 9 then _ else 0#32).signExtend 64
      rw [if_neg hi, if_neg hi]
      decide
  mem := rfl
  endian := rfl
  pc := by rw [pc_pairSimulator, pc_pairSimulator]
  delayedSlots := rfl
  nopsInARow := rfl
  sequenceId := rfl

/-- `addiu $t1, $t1, 1; slt $t2, $t1, $zero`. -/
def wrapAndCompare : PlainMemory :=
  memoryWithPair [0x01#8, 0x00#8, 0x29#8, 0x25#8, 0x2a#8, 0x50#8, 0x20#8, 0x01#8] rfl

/-- The addition itself is safe: it does not look at the upper halves. -/
theorem mips64_follows_mips32_addiu : ∃ f s',
    Steps (FuncSim.step (Mips.isaOf .v32 32)) (pairSimulator .v32 32 wrapAndCompare) [f] s'
      ∧ ∃ instrs' t',
        Steps (FuncSim.step (Mips.isaOf .v64 64)) (pairSimulator .v64 64 wrapAndCompare) instrs' t'
        ∧ List.Forall₂ (fun f g => g.PC = f.PC ∧ g.raw = f.raw ∧ g.trap = .noTrap) [f] instrs'
        ∧ t'.getPC = s'.getPC ∧ ∀ i, (t'.rf.array i).setWidth 32 = s'.rf.array i := by
  have hrun : ∃ f s', Steps (FuncSim.step (Mips.isaOf .v32 32))
      (pairSimulator .v32 32 wrapAndCompare) [f] s' ∧ f.trap = .noTrap ∧ BelowLimit f :=
    ⟨_, _, .cons rfl (.nil _), rfl, by decide, fun h => absurd h (by decide)⟩
  obtain ⟨f, s', hrun, htrap, hbelow⟩ := hrun
  refine ⟨f, s', hrun, mips64_follows_mips32 .mips (sameStart_pairSimulator _) hrun ?_ ?_ ?_⟩
  · simpa using htrap
  · simpa using hbelow
  · intro done u h hlen
    cases h with
    | nil =>
      exact ⟨⟨fun h => absurd h (by decide), fun h => absurd h (by decide)⟩,
        fun h => absurd h (by decide), fun _ h => by cases h⟩
    | cons _ _ => simp at hlen

/-- The comparison is not: it takes `$t1` for negative on 32-bit registers, and for positive on
64-bit ones. -/
theorem mips64_diverges : ∃ f₁ f₂ s' g₁ g₂ t',
    SameStart .v32 .v64 (pairSimulator .v32 32 wrapAndCompare) (pairSimulator .v64 64 wrapAndCompare)
      ∧ Steps (FuncSim.step (Mips.isaOf .v32 32)) (pairSimulator .v32 32 wrapAndCompare) [f₁, f₂] s'
      ∧ Steps (FuncSim.step (Mips.isaOf .v64 64)) (pairSimulator .v64 64 wrapAndCompare) [g₁, g₂] t'
      ∧ (∀ f ∈ [f₁, f₂], f.trap = .noTrap ∧ BelowLimit f)
      ∧ (∀ g ∈ [g₁, g₂], g.trap = .noTrap)
      ∧ s'.rf.array 10 = 1#32 ∧ (t'.rf.array 10).setWidth 32 = 0#32 := by
  refine ⟨_, _, _, _, _, _, sameStart_pairSimulator _, .cons rfl (.cons rfl (.nil _)),
    .cons rfl (.cons rfl (.nil _)), ?_, ?_, ?_, ?_⟩
  · simp only [List.forall_mem_cons]
    exact ⟨⟨rfl, by decide, fun h => absurd h (by decide)⟩,
      ⟨rfl, by decide, fun h => absurd h (by decide)⟩, by simp⟩
  · simp only [List.forall_mem_cons]
    exact ⟨rfl, rfl, by simp⟩
  · decide
  · decide

end Example

end MiptMips
