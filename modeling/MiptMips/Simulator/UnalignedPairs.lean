import MiptMips.Memory.StoreLoad
import MiptMips.Mips.Instr
import MiptMips.Modules.Checker

/-!
# Unaligned words

A word that is not at a multiple of four is accessed in two instructions. The right one has the
address of the word and takes the bytes up to the next multiple of four; the left one has the
address of the last byte and takes the rest. Both access all four bytes, under masks that cover the
word between them (`maskAt_or`): what the first one leaves under the second mask is overwritten.
-/

namespace MiptMips

open FuncMemory LawfulFuncMemory Machines

section Perform

variable {M : Type} [FuncMemory M] {w : ℕ}

/-- What a step does to the registers and to the memory. -/
def perform (rf : RF w) (m : M) (instr : FuncInstr w) : Except SimException (RF w × M) := do
  let instr ← rf.readSources instr
  let (_, rf, m) ← instr.effect rf m
  return (rf, m)

def performBoth (rf : RF w) (m : M) (first second : FuncInstr w) :
    Except SimException (RF w × M) := do
  let (rf, m) ← perform rf m first
  perform rf m second

/-- The instruction with the operands that the registers have. -/
def sourced (rf : RF w) (instr : FuncInstr w) : FuncInstr w :=
  instr.withSources (rf.get instr.src0, rf.get instr.src1)

theorem perform_eq_ok {rf rf' : RF w} {m m' : M} {instr accessed : FuncInstr w}
    (h₀ : rf.Valid instr.src0) (h₁ : rf.Valid instr.src1)
    (haccess : loadStore m (sourced rf instr).execute = .ok (accessed, m'))
    (hwrite : rf.writeDst accessed = .ok rf') : perform rf m instr = .ok (rf', m') := by
  have hread : rf.readSources instr = .ok (sourced rf instr) := by
    unfold RF.readSources
    rw [RF.read_ok h₀, RF.read_ok h₁]
    rfl
  unfold perform
  rw [bind_eq_ok]
  refine ⟨_, hread, ?_⟩
  rw [bind_eq_ok]
  exact ⟨_, FuncInstr.effect_eq_ok haccess hwrite, rfl⟩

end Perform

section Merge

variable {w : ℕ}

/-- The new value under the mask, the old one elsewhere. -/
def merged (mask old new : BitVec w) : BitVec w := (new &&& mask) ||| (old &&& ~~~mask)

theorem applyMask_eq (rf : RF w) (num : Register) (val mask : BitVec w) :
    rf.applyMask num val mask = merged mask (rf.get num) val := BitVec.or_comm _ _

theorem merged_allOnes (old new : BitVec w) : merged (BitVec.allOnes w) old new = new := by
  simp [merged]

/-- Two masks that cover everything between them leave nothing of the old value. -/
theorem merged_merged {mask mask' : BitVec w} (h : mask ||| mask' = BitVec.allOnes w)
    (old new : BitVec w) : merged mask' (merged mask old new) new = new := by
  apply BitVec.eq_of_getLsbD_eq
  intro i hi
  have hbit : (mask ||| mask').getLsbD i = true := by simp [h, hi]
  rw [BitVec.getLsbD_or] at hbit
  unfold merged
  rcases hm : mask.getLsbD i <;> rcases hm' : mask'.getLsbD i <;> simp_all

end Merge

namespace Mips

/-- The two halves of an unaligned access. -/
inductive Half where
  | right | left
  deriving DecidableEq, Repr

namespace Half

def loadMnemonic : Half → String
  | right => "lwr"
  | left => "lwl"

def storeMnemonic : Half → String
  | right => "swr"
  | left => "swl"

def loadUnit : Half → Executor
  | right => .loadAddrRight32
  | left => .loadAddrLeft32

def storeUnit : Half → Executor
  | right => .storeAddrRight32
  | left => .storeAddrLeft32

/-- Where the address of the instruction lies in the word at `a`. -/
def offset : Half → ℕ
  | right => 0
  | left => 3

/-- The mask for the word at `a`. -/
def maskAt (a : Addr) : Half → BitVec 32
  | right => bitmask 32 ((4 - a.toNat % 4) * 8)
  | left => bitmask 32 ((1 + (a.offset 3).toNat % 4) * 8) <<< ((3 - (a.offset 3).toNat % 4) * 8)

theorem maskAt_or (a : Addr) : right.maskAt a ||| left.maskAt a = BitVec.allOnes 32 := by
  have hmod : (a.offset 3).toNat % 4 = (a.toNat % 4 + 3) % 4 := by
    rw [Addr.offset, BitVec.toNat_add, BitVec.toNat_ofNat]
    omega
  apply BitVec.eq_of_getLsbD_eq
  intro i hi
  simp only [maskAt, hmod, BitVec.getLsbD_or, BitVec.getLsbD_shiftLeft, getLsbD_bitmask,
    BitVec.getLsbD_allOnes, hi, decide_true, Bool.true_and]
  simp only [Bool.or_eq_true, Bool.and_eq_true, decide_eq_true_eq, Bool.not_eq_true',
    decide_eq_false_iff_not]
  omega

end Half

section Decoded

/-- What the two units and the access look at. -/
structure Fields (instr : FuncInstr 32) (unit : Executor) (operation : OperationType)
    (src1 dst0 dst1 : Register) : Prop where
  executor : instr.executor = unit
  operation : instr.operation = operation
  memSize : instr.memSize = 4
  endian : instr.endian = .little
  src0 : instr.src0.toRfIndex < MipsRegister.maxReg
  src1 : instr.src1 = src1
  dst0 : instr.dst0 = dst0
  dst1 : instr.dst1 = dst1

open MipsTable MipsInstrDecoder in
theorem partial_entries : ∀ e ∈ entries, ∀ half : Half,
    (e.name = half.loadMnemonic → e.function = half.loadUnit ∧ e.operation = .outPartialLoad
      ∧ e.memSize = 4 ∧ e.src = [.rs] ∧ e.dst = [.rt])
    ∧ (e.name = half.storeMnemonic → e.function = half.storeUnit ∧ e.operation = .outStore
      ∧ e.memSize = 4 ∧ e.src = [.rs, .rt] ∧ e.dst = [.zero]) := by
  intro e he half
  revert e
  cases half <;> decide +kernel

/-- The register of the instruction's field `rt`. -/
def rtOf (bytes : BitVec 32) : Register :=
  MipsRegister.fromCpuIndex (MipsInstrDecoder.rt bytes).toNat

theorem rtOf_lt (bytes : BitVec 32) : (rtOf bytes).toRfIndex < MipsRegister.maxReg :=
  MipsInstrDecoder.getRegister_lt bytes .rt

variable {version : MipsVersion} {half : Half} {instr : FuncInstr 32}

/-- The instruction as a simulator gets it from the decoder. -/
def decode (version : MipsVersion) (bytes : BitVec 32) (PC : Addr) (id : BitVec 64) :
    FuncInstr 32 :=
  (createInstr version .little bytes PC 32).setSequenceId id

/-- An instruction of one of the four mnemonics. -/
structure IsHalf (version : MipsVersion) (mnemonic : String) (instr : FuncInstr 32) : Prop where
  decoded : instr = decode version instr.raw instr.PC instr.sequenceId
  name : (MipsTable.getTableEntry instr.raw).name = mnemonic
  supported : (MipsTable.getTableEntry instr.raw).versions.isSupported version

theorem fields_decode {bytes : BitVec 32} (PC : Addr) (id : BitVec 64) {unit : Executor}
    {operation : OperationType} {dst : List MipsReg} {src : List MipsReg}
    (hsup : (MipsTable.getTableEntry bytes).versions.isSupported version)
    (h : (MipsTable.getTableEntry bytes).function = unit
      ∧ (MipsTable.getTableEntry bytes).operation = operation
      ∧ (MipsTable.getTableEntry bytes).memSize = 4
      ∧ (MipsTable.getTableEntry bytes).src = .rs :: src
      ∧ (MipsTable.getTableEntry bytes).dst = dst) :
    Fields (decode version bytes PC id) unit operation (operand bytes (.rs :: src) 1)
      (operand bytes dst 0) (operand bytes dst 1) := by
  obtain ⟨hfun, hop, hsize, hsrc, hdst⟩ := h
  obtain ⟨target, newPC, slots, hcreate⟩ := createInstr_entry (w := 32) version .little bytes PC
  unfold decode
  rw [hcreate, if_pos hsup, hfun, hop, hsize, hsrc, hdst]
  exact ⟨rfl, rfl, rfl, rfl, MipsInstrDecoder.getRegister_lt bytes .rs, rfl, rfl, rfl⟩

theorem fields_load (h : IsHalf version half.loadMnemonic instr) :
    Fields instr half.loadUnit .outPartialLoad MipsRegister.zero (rtOf instr.raw)
      MipsRegister.zero := by
  have hfields := fields_decode instr.PC instr.sequenceId h.supported
    ((partial_entries _ (MipsTable.getTableEntry_mem instr.raw) half).1 h.name)
  rwa [← h.decoded] at hfields

theorem fields_store (h : IsHalf version half.storeMnemonic instr) :
    Fields instr half.storeUnit .outStore (rtOf instr.raw) MipsRegister.zero
      MipsRegister.zero := by
  have hfields := fields_decode instr.PC instr.sequenceId h.supported
    ((partial_entries _ (MipsTable.getTableEntry_mem instr.raw) half).2 h.name)
  rwa [← h.decoded] at hfields

end Decoded

section Execute

variable {half : Half} {f : FuncInstr 32} {a : Addr}

/-- Both units access the word at `a`. -/
theorem run_half {unit : Executor} (h : unit = half.loadUnit ∨ unit = half.storeUnit)
    (haddr : (f.vSrc0 + f.vImm).setWidth 64 = a.offset half.offset) :
    unit.run f = { f with memAddr := a, mask := half.maskAt a } := by
  have hright : a.offset 0 = a := BitVec.add_zero a
  have hleft : a.offset 3 - 3#64 = a := BitVec.add_sub_cancel a 3#64
  cases half with
  | right =>
    rw [Half.offset, hright] at haddr
    rcases h with rfl | rfl <;>
      simp [Half.loadUnit, Half.storeUnit, Executor.run, Alu.loadAddrRight32,
        Alu.storeAddrRight32, Alu.loadAddr, Alu.storeAddr, Alu.addr, Alu.rightMask, Half.maskAt,
        haddr]
  | left =>
    rw [Half.offset] at haddr
    rcases h with rfl | rfl <;>
      simp [Half.loadUnit, Half.storeUnit, Executor.run, Alu.loadAddrLeft32,
        Alu.storeAddrLeft32, Alu.loadAddr, Alu.storeAddr, Alu.addr, Alu.leftMask, Half.maskAt,
        haddr, hleft]

theorem execute_half (h : f.executor = half.loadUnit ∨ f.executor = half.storeUnit)
    (haddr : (f.vSrc0 + f.vImm).setWidth 64 = a.offset half.offset) :
    f.execute = { f with memAddr := a, mask := half.maskAt a, complete := true } := by
  rw [FuncInstr.execute, run_half h haddr]

end Execute

section Load

variable {M : Type} [FuncMemory M] {m : M} {rf : RF 32} {half : Half} {instr : FuncInstr 32}
  {rt : Register} {a : Addr}

def effectiveAddr (rf : RF 32) (instr : FuncInstr 32) : Addr :=
  (rf.get instr.src0 + instr.vImm).setWidth 64

/-- A partial load of four bytes leaves the whole word that is read, to be written under the
mask. -/
theorem vDst0_load_word {f : FuncInstr 32} (hop : f.operation = .outPartialLoad)
    (hsize : f.memSize = 4) : (load m f).vDst0 = read m 32 f.endian f.memAddr := by
  rw [vDst0_load m f (by omega), extended, FuncInstr.isUnsignedLoad, hop, hsize]
  simp

theorem perform_load (hrf : rf.maxReg = MipsRegister.maxReg)
    (hrt : rt.toRfIndex < MipsRegister.maxReg)
    (h : Fields instr half.loadUnit .outPartialLoad MipsRegister.zero rt MipsRegister.zero)
    (haddr : effectiveAddr rf instr = a.offset half.offset) :
    ∃ rf', perform rf m instr = .ok (rf', m) ∧ rf'.maxReg = MipsRegister.maxReg
      ∧ ∀ d, rf'.get d = if rt.isZero = false ∧ d.toRfIndex = rt.toRfIndex
        then merged (half.maskAt a) (rf.get rt) (read m 32 .little a) else rf.get d := by
  have hvalid : ∀ {num : Register}, num.toRfIndex < MipsRegister.maxReg → rf.Valid num :=
    RF.valid_of_maxReg hrf
  have hexec : (sourced rf instr).execute
      = { sourced rf instr with
          memAddr := a, mask := half.maskAt a, complete := true } :=
    execute_half (.inl h.executor) haddr
  set f := (sourced rf instr).execute with hf
  have hop : f.operation = .outPartialLoad := by rw [hexec]; exact h.operation
  have hdst0 : (load m f).dst0 = rt := by rw [hexec]; exact h.dst0
  have hdst1 : (load m f).dst1 = MipsRegister.zero := by rw [hexec]; exact h.dst1
  have hvalue : (load m f).vDst0 = read m 32 .little a := by
    rw [vDst0_load_word hop (by rw [hexec]; exact h.memSize), hexec]
    show read m 32 instr.endian a = _
    rw [h.endian]
  have hmask : (load m f).mask = half.maskAt a := by rw [hexec]; rfl
  have haccess : loadStore m f = .ok (load m f, m) := by
    rw [loadStore, FuncInstr.isLoad_eq, hop]
    rfl
  have hacc : (load m f).getAccumulationType = 0 := by
    have hop' : (load m f).operation = .outPartialLoad := hop
    rw [FuncInstr.getAccumulationType, hop']
    rfl
  obtain ⟨rf', hw, hmax⟩ := RF.writeDst_total (hvalid (hdst0 ▸ hrt))
    (hvalid (hdst1 ▸ by decide)) hacc
  refine ⟨rf', perform_eq_ok (hvalid h.src0) (hvalid (h.src1 ▸ by decide)) haccess hw,
    hmax.trans hrf, fun d => ?_⟩
  have hzero : ¬ (MipsRegister.zero.isZero = false
      ∧ d.toRfIndex = MipsRegister.zero.toRfIndex) := fun hz => absurd hz.1 (by decide)
  rw [RF.get_writeDst hw hacc, hdst1, if_neg hzero, hdst0, hvalue, hmask, applyMask_eq]

end Load

section Store

variable {M : Type} [FuncMemory M] [LawfulFuncMemory M] {m m₁ m₂ : M} {rf : RF 32} {half : Half}
  {instr : FuncInstr 32} {rt : Register} {a : Addr} {v v' mask : BitVec 32}

/-- A store of a whole register under a mask merges it with what is there. -/
theorem store_merged {f : FuncInstr 32} (ha : f.memAddr ≠ 0#64) (hsize : f.memSize = 4)
    (hin : f.memAddr.toNat + 4 ≤ size m) :
    ∃ m', store m f = .ok m' ∧ Written m m' f.endian f.memAddr
      (merged f.mask (read m 32 f.endian f.memAddr) f.vSrc1) 4 := by
  have hfour : IsSize 4 := by decide
  have hfull : bitmask 32 (4 * 8) = BitVec.allOnes 32 := bitmask_width
  rw [store, if_neg ha, hsize, hfull]
  dsimp only
  rw [BitVec.and_allOnes]
  by_cases hmask : f.mask = BitVec.allOnes 32
  · rw [if_pos hmask, hmask, merged_allOnes]
    exact writeInteger_written f.endian f.vSrc1 hfour hin
  · rw [if_neg hmask, maskedWrite]
    obtain ⟨m', hm', hwritten⟩ := writeInteger_written f.endian
      (merged f.mask (read m 32 f.endian f.memAddr) f.vSrc1) hfour hin
    refine ⟨m', ?_, hwritten⟩
    rw [writeInteger_eq hfour, BitVec.setWidth_eq] at hm'
    exact hm'

/-- What was written is read back. -/
theorem read_of_written (h : Written m m₁ .little a v 4) (hin : a.toNat + 4 ≤ size m) :
    read m₁ 32 .little a = v := by
  have hbytes := (setWidth_eq_iff_byteOf (read m₁ 32 .little a) v 4).2 fun k hk => by
    have hc : (canon m (a.offset k)).toNat = a.toNat + k := canon_offset (by omega)
    have hi : a.toNat + k - a.toNat = k := by omega
    rw [byteOf_read m₁ .little a k hk (by decide), h.bytes]
    simp [bytesAfterStore, bytePosition, byteIndex, hc, hk, hi]
  simpa using hbytes

/-- Of two writes at the same place only the second is seen. -/
theorem written_trans (h₁ : Written m m₁ .little a v 4) (h₂ : Written m₁ m₂ .little a v' 4) :
    Written m m₂ .little a v' 4 where
  size := h₂.size.trans h₁.size
  canon := h₂.canon.trans h₁.canon
  bytes x := by
    rw [h₂.bytes x]
    unfold bytesAfterStore
    rw [h₁.canon]
    split_ifs with hx
    · rfl
    · rw [h₁.bytes x, bytesAfterStore, if_neg hx]

theorem perform_store (hrf : rf.maxReg = MipsRegister.maxReg)
    (hrt : rt.toRfIndex < MipsRegister.maxReg)
    (h : Fields instr half.storeUnit .outStore rt MipsRegister.zero MipsRegister.zero)
    (ha : a ≠ 0#64) (hin : a.toNat + 4 ≤ size m)
    (haddr : effectiveAddr rf instr = a.offset half.offset) :
    ∃ m', perform rf m instr = .ok (rf, m')
      ∧ Written m m' .little a (merged (half.maskAt a) (read m 32 .little a) (rf.get rt)) 4 := by
  have hvalid : ∀ {num : Register}, num.toRfIndex < MipsRegister.maxReg → rf.Valid num :=
    RF.valid_of_maxReg hrf
  have hexec : (sourced rf instr).execute
      = { sourced rf instr with
          memAddr := a, mask := half.maskAt a, complete := true } :=
    execute_half (.inr h.executor) haddr
  set f := (sourced rf instr).execute with hf
  have hop : f.operation = .outStore := by rw [hexec]; exact h.operation
  have hsize : f.memSize = 4 := by rw [hexec]; exact h.memSize
  have hendian : f.endian = .little := by rw [hexec]; exact h.endian
  have hvalue : f.vSrc1 = rf.get rt := by rw [hexec, ← h.src1]; rfl
  have hmask : f.mask = half.maskAt a := by rw [hexec]
  have hdst0 : f.dst0 = MipsRegister.zero := by rw [hexec]; exact h.dst0
  have hdst1 : f.dst1 = MipsRegister.zero := by rw [hexec]; exact h.dst1
  have hmem : f.memAddr = a := by rw [hexec]
  obtain ⟨m', hm', hwritten⟩ := store_merged (m := m) (f := f) (hmem ▸ ha) hsize (hmem ▸ hin)
  rw [hendian, hmem, hmask, hvalue] at hwritten
  have haccess : loadStore m f = .ok (f, m') := by
    rw [loadStore, FuncInstr.isLoad_eq, FuncInstr.isStore, hop, hm']
    rfl
  have hwrite : rf.writeDst f = .ok rf := by
    have hz : rf.Valid MipsRegister.zero := hvalid (by decide)
    rw [RF.writeDst, hdst0, hdst1, RF.writeAccumulated_of_isZero (by decide), if_pos hz]
    exact (RF.writeAccumulated_of_isZero (by decide) _).trans (if_pos hz)
  exact ⟨m', perform_eq_ok (hvalid h.src0) (hvalid (h.src1 ▸ hrt)) haccess hwrite, hwritten⟩

end Store

section Pairs

variable {M : Type} [FuncMemory M] [LawfulFuncMemory M]

/-- A right half at `a` and a left half three bytes on, with one register. The address of the second
is computed after the first has been performed. -/
structure IsPair (version : MipsVersion) (mnemonic : Half → String) (rf : RF 32) (m : M) (a : Addr)
    (first second : FuncInstr 32) : Prop where
  right : IsHalf version (mnemonic .right) first
  left : IsHalf version (mnemonic .left) second
  sameRt : rtOf second.raw = rtOf first.raw
  rightAddr : effectiveAddr rf first = a
  leftAddr : ∀ rf₁ m₁, perform rf m first = .ok (rf₁, m₁) → effectiveAddr rf₁ second = a.offset 3

/-- `$t1` holds a value, and the other registers hold zero. -/
def oneRegister : RF 32 := (RF.zeroed 32 MipsRegister.maxReg).set (.mips 9) 0x12345678#32

/-- `lwr $t1, 5($zero)` and `lwl $t1, 8($zero)`. -/
theorem isPair_lwr_lwl : IsPair .v32 Half.loadMnemonic oneRegister smallMemory 5#64
    (decode .v32 0x98090005#32 0x1000#64 0#64) (decode .v32 0x88090008#32 0x1004#64 1#64) where
  right := ⟨rfl, by decide, by decide⟩
  left := ⟨rfl, by decide, by decide⟩
  sameRt := rfl
  rightAddr := by decide
  leftAddr rf₁ m₁ h := by
    cases h
    decide

/-- `swr $t1, 5($zero)` and `swl $t1, 8($zero)`. -/
theorem isPair_swr_swl : IsPair .v32 Half.storeMnemonic oneRegister smallMemory 5#64
    (decode .v32 0xb8090005#32 0x1000#64 0#64) (decode .v32 0xa8090008#32 0x1004#64 1#64) where
  right := ⟨rfl, by decide, by decide⟩
  left := ⟨rfl, by decide, by decide⟩
  sameRt := rfl
  rightAddr := by decide
  leftAddr rf₁ m₁ h := by
    cases h
    decide

/-- The loads leave the word in the register, whatever it held; the stores write the four bytes and
no others. -/
theorem unaligned_pairs (version : MipsVersion) (first second : FuncInstr 32) (rf : RF 32)
    (hrf : rf.maxReg = MipsRegister.maxReg) (m : M) (a : Addr) :
    let rt := rtOf first.raw
    (IsPair version Half.loadMnemonic rf m a first second →
      ∃ rf', performBoth rf m first second = .ok (rf', m)
        ∧ (rt.isZero = false → ∀ k < 4, byteOf (rf'.get rt) k = byteAt m (a.offset k))
        ∧ ∀ d, d.toRfIndex ≠ rt.toRfIndex → rf'.get d = rf.get d)
    ∧ (IsPair version Half.storeMnemonic rf m a first second → a ≠ 0#64 → a.toNat + 4 ≤ size m →
      ∃ m', performBoth rf m first second = .ok (rf, m')
        ∧ (∀ k < 4, byteAt m' (a.offset k) = byteOf (rf.get rt) k)
        ∧ ∀ x, (∀ k < 4, canon m x ≠ a.offset k) → byteAt m' x = byteAt m x) := by
  have hstart : a.offset (Half.offset .right) = a := BitVec.add_zero a
  intro rt
  constructor
  · intro h
    have hfirst := fields_load h.right
    have hsecond := fields_load h.left
    rw [h.sameRt] at hsecond
    obtain ⟨rf₁, hperform, hmax, hget⟩ :=
      perform_load (m := m) hrf (rtOf_lt _) hfirst (h.rightAddr.trans hstart.symm)
    obtain ⟨rf₂, hperform', -, hget'⟩ :=
      perform_load (m := m) hmax (rtOf_lt _) hsecond (h.leftAddr rf₁ m hperform)
    refine ⟨rf₂, bind_eq_ok.2 ⟨_, hperform, hperform'⟩, fun hz k hk => ?_, fun d hd => ?_⟩
    · rw [hget', if_pos ⟨hz, rfl⟩, hget, if_pos ⟨hz, rfl⟩, merged_merged (Half.maskAt_or a),
        byteOf_read m .little a k hk (by decide), bytePosition]
    · rw [hget', if_neg fun hn => hd hn.2, hget, if_neg fun hn => hd hn.2]
  · intro h ha hin
    have hfirst := fields_store h.right
    have hsecond := fields_store h.left
    rw [h.sameRt] at hsecond
    obtain ⟨m₁, hperform, hwritten⟩ :=
      perform_store hrf (rtOf_lt _) hfirst ha hin (h.rightAddr.trans hstart.symm)
    obtain ⟨m₂, hperform', hwritten'⟩ :=
      perform_store hrf (rtOf_lt _) hsecond ha (hwritten.size ▸ hin)
        (h.leftAddr rf m₁ hperform)
    rw [read_of_written hwritten hin, merged_merged (Half.maskAt_or a)] at hwritten'
    have hboth := written_trans hwritten hwritten'
    refine ⟨m₂, bind_eq_ok.2 ⟨_, hperform, hperform'⟩, fun k hk => ?_, fun x hx => ?_⟩
    · have hc : (canon m (a.offset k)).toNat = a.toNat + k := canon_offset (by omega)
      have hi : a.toNat + k - a.toNat = k := by omega
      rw [hboth.bytes]
      simp [bytesAfterStore, byteIndex, hc, hk, hi, rt]
    · rw [hboth.bytes, bytesAfterStore, if_neg]
      rintro ⟨hlo, hhi⟩
      have hs := size_le m
      refine hx ((canon m x).toNat - a.toNat) (by omega) (BitVec.eq_of_toNat_eq ?_)
      rw [toNat_offset (by omega)]
      omega

theorem unaligned_pairs_at_five :
    (∃ rf', performBoth oneRegister smallMemory (decode .v32 0x98090005#32 0x1000#64 0#64)
          (decode .v32 0x88090008#32 0x1004#64 1#64) = .ok (rf', smallMemory)
        ∧ ((Register.mips 9).isZero = false →
          ∀ k < 4, byteOf (rf'.get (.mips 9)) k = byteAt smallMemory (Addr.offset 5#64 k))
        ∧ ∀ d, d.toRfIndex ≠ 9 → rf'.get d = oneRegister.get d)
    ∧ ∃ m', performBoth oneRegister smallMemory (decode .v32 0xb8090005#32 0x1000#64 0#64)
          (decode .v32 0xa8090008#32 0x1004#64 1#64) = .ok (oneRegister, m')
        ∧ (∀ k < 4, byteAt m' (Addr.offset 5#64 k) = byteOf 0x12345678#32 k)
        ∧ ∀ x, (∀ k < 4, canon smallMemory x ≠ Addr.offset 5#64 k) →
          byteAt m' x = byteAt smallMemory x :=
  ⟨(unaligned_pairs .v32 _ _ oneRegister rfl smallMemory 5#64).1 isPair_lwr_lwl,
    (unaligned_pairs .v32 _ _ oneRegister rfl smallMemory 5#64).2 isPair_swr_swl (by decide)
      (by decide)⟩

end Pairs

end Mips

end MiptMips
