import MiptMips.Mips.ExceptionReturn
import MiptMips.Simulator.Mips64
import MiptMips.Simulator.PreciseFaults

/-!
# The widths of bit masks

`bitmask<T>(onecount)` shifts by its argument, which the language defines for arguments up to the
width of `T` only. `stepMasks` lists the masks that a step asks for, function by function and in the
order of the source.

The type and the access size of an instruction come from the instruction table. When the version
does not have the instruction, its execution unit is replaced, but its type and size stay, and the
step still goes to memory. So a doubleword access in a simulator of 32-bit registers asks for 64
ones of 32. All other words keep every mask of a step within its type.
-/

namespace MiptMips

/-- A call of `bitmask<T>`, `width` being the width of `T`. -/
structure MaskCall where
  width : ℕ
  onecount : ℕ
  deriving DecidableEq, Repr

/-- The shift is not wider than the type. -/
def MaskCall.Valid (call : MaskCall) : Prop := call.onecount ≤ call.width

instance (call : MaskCall) : Decidable call.Valid := inferInstanceAs (Decidable (_ ≤ _))

def MasksValid (calls : List MaskCall) : Prop := ∀ call ∈ calls, call.Valid

@[simp]
theorem masksValid_nil : MasksValid [] := fun _ h => absurd h List.not_mem_nil

@[simp]
theorem masksValid_cons {call : MaskCall} {calls : List MaskCall} :
    MasksValid (call :: calls) ↔ call.Valid ∧ MasksValid calls := List.forall_mem_cons

@[simp]
theorem masksValid_append {calls calls' : List MaskCall} :
    MasksValid (calls ++ calls') ↔ MasksValid calls ∧ MasksValid calls' := List.forall_mem_append

section Calls

def signExtensionMasks (w bits : ℕ) : List MaskCall := if bits < w then [⟨w, bits⟩] else []

namespace Alu

def shamtVSrc2Masks (T : ℕ) : List MaskCall := [⟨64, logBitwidth T⟩]

variable {w : ℕ} (instr : FuncInstr w)

def storeAddrMasks : List MaskCall := [⟨w, instr.memSize * 8⟩]

def rightMaskCall : MaskCall := ⟨32, (4 - instr.memAddr.toNat % 4) * 8⟩

def leftMaskCall : MaskCall := ⟨w, (1 + instr.memAddr.toNat % 4) * 8⟩

def bitFieldPlaceMasks : List MaskCall :=
  let src1 := (instr.vSrc1.setWidth 64).toNat
  [⟨w, if (src1 >>> 24) &&& 15 > 0 then (src1 >>> 24) &&& 15 else 16⟩]

/-- `jr` aligns its target up. -/
def jumpMasks (w : ℕ) : Jump → List MaskCall
  | .jr => [⟨w, 2⟩]
  | .j | .riscvJr => []

end Alu

open Alu in
/-- The masks that each execution unit asks for. -/
def Executor.masks {w : ℕ} (e : Executor) (instr : FuncInstr w) : List MaskCall :=
  match e with
  | storeAddr | storeAddrAligned => storeAddrMasks instr
  | loadAddrRight32 => [rightMaskCall (Alu.loadAddr instr)]
  | loadAddrLeft32 => [leftMaskCall (Alu.loadAddr instr)]
  | storeAddrRight32 => storeAddrMasks instr ++ [rightMaskCall (Alu.storeAddr instr)]
  | storeAddrLeft32 => storeAddrMasks instr ++ [leftMaskCall (Alu.storeAddr instr)]
  | riscvAddition T | riscvSubtraction T | riscvAdditionImm T => signExtensionMasks w T
  | sll T | srl T | sra T | sloi T => signExtensionMasks w T
  | sllv T | srlv T | srav T | slo T => shamtVSrc2Masks T ++ signExtensionMasks w T
  | sro T | gorc T | sbinv T | sbext T => shamtVSrc2Masks T
  | rol | ror => signExtensionMasks w w ++ shamtVSrc2Masks w
  | rori => signExtensionMasks w w
  | grev => shamtVSrc2Masks w
  | pack T | packu T => [⟨T, T / 2⟩]
  | bitFieldPlace => bitFieldPlaceMasks instr
  | jump kind | jumpAndLink kind => jumpMasks w kind
  | _ => []

section Access

variable {w : ℕ} (instr : FuncInstr w)

/-- `ReadableMemory::load`, and the sign extension of what it loaded. -/
def loadMasks : List MaskCall :=
  ⟨w, instr.memSize * 8⟩
    :: if instr.isUnsignedLoad then [] else signExtensionMasks w (8 * instr.memSize)

/-- `FuncMemory::store` throws before it asks for its mask when the address is zero. -/
def storeMasks : List MaskCall :=
  if instr.memAddr = 0#64 then [] else [⟨w, instr.memSize * 8⟩]

def loadStoreMasks : List MaskCall :=
  if instr.isLoad then loadMasks instr else if instr.isStore then storeMasks instr else []

end Access

end Calls

section Units

variable {w : ℕ} {instr : FuncInstr w}

@[simp]
theorem masksValid_signExtension (w bits : ℕ) : MasksValid (signExtensionMasks w bits) := by
  unfold signExtensionMasks
  split
  case isTrue h => simp [MaskCall.Valid, h.le]
  case isFalse => exact masksValid_nil

@[simp]
theorem masksValid_shamtVSrc2 (T : ℕ) : MasksValid (Alu.shamtVSrc2Masks T) := by
  have h : logBitwidth T ≤ 64 := by
    unfold logBitwidth
    split <;> decide
  simp [Alu.shamtVSrc2Masks, MaskCall.Valid, h]

/-- The unaligned accesses mask at most the four bytes of a word. -/
theorem valid_rightMaskCall (f : FuncInstr w) : (Alu.rightMaskCall f).Valid := by
  show (4 - f.memAddr.toNat % 4) * 8 ≤ 32
  omega

theorem valid_leftMaskCall (hw : 32 ≤ w) (f : FuncInstr w) : (Alu.leftMaskCall f).Valid := by
  show (1 + f.memAddr.toNat % 4) * 8 ≤ w
  omega

theorem masksValid_bitFieldPlace (hw : 32 ≤ w) : MasksValid (Alu.bitFieldPlaceMasks instr) := by
  have hlen : ∀ n : ℕ, n &&& 15 ≤ 15 := fun n => Nat.and_le_right
  simp only [Alu.bitFieldPlaceMasks, masksValid_cons, masksValid_nil, and_true, MaskCall.Valid]
  split
  · exact (hlen _).trans (by omega)
  · omega

/-- No unit asks for a mask that is too wide, when the size of an access is not. -/
theorem masksValid_masks (hw : 32 ≤ w) (hsize : instr.memSize * 8 ≤ w) (e : Executor) :
    MasksValid (e.masks instr) := by
  have hstore : MasksValid (Alu.storeAddrMasks instr) := by
    simpa [Alu.storeAddrMasks, MaskCall.Valid] using hsize
  have hright := valid_rightMaskCall (w := w)
  have hleft := valid_leftMaskCall (w := w) hw
  cases e with
  | storeAddr => exact hstore
  | storeAddrAligned => exact hstore
  | loadAddrRight32 => simp [Executor.masks, hright]
  | loadAddrLeft32 => simp [Executor.masks, hleft]
  | storeAddrRight32 => simp [Executor.masks, hstore, hright]
  | storeAddrLeft32 => simp [Executor.masks, hstore, hleft]
  | bitFieldPlace => exact masksValid_bitFieldPlace hw
  | jump kind | jumpAndLink kind =>
    cases kind <;> simp [Executor.masks, Alu.jumpMasks, MaskCall.Valid]
    omega
  | pack T | packu T => simpa [Executor.masks, MaskCall.Valid] using Nat.div_le_self T 2
  | _ => simp [Executor.masks]

theorem masksValid_loadStore (hsize : instr.memSize * 8 ≤ w) :
    MasksValid (loadStoreMasks instr) := by
  have hmask : MaskCall.Valid ⟨w, instr.memSize * 8⟩ := hsize
  unfold loadStoreMasks loadMasks storeMasks
  split_ifs <;> simp [hmask]

/-- The mask of an access, also of one that is not executed. -/
theorem mem_loadStoreMasks (hop : instr.operation.loads ∨ instr.operation = .outStore)
    (haddr : instr.memAddr ≠ 0#64) : ⟨w, instr.memSize * 8⟩ ∈ loadStoreMasks instr := by
  unfold loadStoreMasks
  rw [FuncInstr.isLoad_eq, FuncInstr.isStore]
  rcases hop with h | h
  · rw [if_pos h]
    exact List.mem_cons_self
  · rw [h, if_neg (by decide), if_pos (by decide), storeMasks, if_neg haddr]
    exact List.mem_cons_self

end Units

namespace Mips

open MipsTable MipsInstrDecoder

section Step

variable {M : Type} [FuncMemory M] (version : MipsVersion)

def getImmediateMasks (w : ℕ) (type : Char) : List MaskCall :=
  if type = 'N' ∨ type = 'S' ∨ type = 'J' ∨ type = 'L' then [] else signExtensionMasks w 16

def initTargetMasks {w : ℕ} (instr : FuncInstr w) : List MaskCall :=
  if instr.isBranch then signExtensionMasks 64 w else []

def createInstrMasks (endian : Endian) (bytes : BitVec 32) (PC : Addr) : List MaskCall :=
  getImmediateMasks version.width (getTableEntry bytes).immType
    ++ initTargetMasks (createInstr version endian bytes PC version.width)

/-- An instruction that is found in the cache is not decoded again. -/
def fetchInstrMasks (imem : InstrMemoryCached version.width) (mem : M) (PC : Addr) :
    List MaskCall :=
  let bytes := fetch imem.endian mem PC
  match imem.instrCache.find PC with
  | some value =>
    if value.isSameBytes bytes then [] else createInstrMasks version imem.endian bytes PC
  | none => createInstrMasks version imem.endian bytes PC

/-- The masks of a step. Writing the registers and moving the program counter ask for none. -/
def stepMasks (s : FuncSim version.width M) : List MaskCall :=
  fetchInstrMasks version s.imem s.mem s.getPC
    ++ match s.fetchOperands (isa version) with
      | .ok (instr, _) => instr.executor.masks instr ++ loadStoreMasks instr.execute
      | .error _ => []

end Step

section Entries

variable {raw : BitVec 32}

/-- The loads and stores of doublewords: `ldl`, `ldr`, `sdl`, `sdr`, `ldc1`, `ld`, `sdc1` and `sd`
by their opcode, `ldxc1` and `sdxc1` by their function. -/
def IsDoublewordAccess (raw : BitVec 32) : Prop :=
  (opcode raw).toNat ∈ [0x1a, 0x1b, 0x2c, 0x2d, 0x35, 0x37, 0x3d, 0x3f]
    ∨ (opcode raw).toNat = 0x13 ∧ (funct raw).toNat ∈ [0x1, 0x9]

instance : Decidable (IsDoublewordAccess raw) := inferInstanceAs (Decidable (_ ∨ _))

/-- What a table says of the size of its entries is what it says of the keys. -/
theorem memSize_find_iff {table : Table} (keys : List ℕ)
    (hentries : ∀ e ∈ table, e.2.memSize = 8 ↔ e.1 ∈ keys)
    (hkeys : ∀ k ∈ keys, k ∈ table.map (·.1)) (key : BitVec 32) :
    (find table key).memSize = 8 ↔ key.toNat ∈ keys := by
  unfold find
  rcases hl : table.lookup key.toNat with _ | e
  · have hkey : key.toNat ∉ keys := fun hk => by
      obtain ⟨e, he, hke⟩ := List.mem_map.1 (hkeys _ hk)
      exact absurd (List.lookup_eq_none_iff.1 hl e he) (by simp [hke])
    exact iff_of_false (by decide) hkey
  · obtain ⟨l₁, l₂, ht, -⟩ := List.lookup_eq_some_iff.1 hl
    exact hentries (key.toNat, e) (by simp [ht])

theorem memSize_find_ne {table : Table} (h : ∀ e ∈ table, e.2.memSize ≠ 8) (key : BitVec 32) :
    (find table key).memSize ≠ 8 := by
  have hiff := memSize_find_iff [] (fun e he => iff_of_false (h e he) List.not_mem_nil)
    (fun _ hk => absurd hk List.not_mem_nil) key
  exact fun he => List.not_mem_nil (hiff.1 he)

theorem memSize_getOpcodeSpecialEntry : (getOpcodeSpecialEntry raw).memSize ≠ 8 := by
  unfold getOpcodeSpecialEntry
  split <;> exact memSize_find_ne (by decide) _

theorem memSize_getCp0Entry : (getCp0Entry raw).memSize ≠ 8 := by
  unfold getCp0Entry
  split <;> exact memSize_find_ne (by decide) _

theorem memSize_getCp1Entry : (getCp1Entry raw).memSize ≠ 8 := by
  unfold getCp1Entry getCop1SEntry getCop1DEntry
  split
  case h_2 | h_3 => split <;> exact memSize_find_ne (by decide) _
  all_goals exact memSize_find_ne (by decide) _

/-- The words whose entry has the size of a doubleword. -/
theorem memSize_getTableEntry_iff (raw : BitVec 32) :
    (getTableEntry raw).memSize = 8 ↔ IsDoublewordAccess raw := by
  unfold getTableEntry
  split
  case isTrue h =>
    rw [h]
    decide
  case isFalse =>
    unfold IsDoublewordAccess
    split
    case h_5 ho =>
      rw [ho, memSize_find_iff [0x1, 0x9] (by decide) (by decide)]
      simp
    case h_7 h₀ h₁ h₂ h₃ h₄ h₅ =>
      rw [memSize_find_iff [0x1a, 0x1b, 0x2c, 0x2d, 0x35, 0x37, 0x3d, 0x3f]
        (by decide) (by decide)]
      exact (or_iff_left fun h => h₄ h.1).symm
    case h_1 ho => exact iff_of_false memSize_getOpcodeSpecialEntry (by simp [ho])
    case h_2 ho => exact iff_of_false (memSize_find_ne (by decide) _) (by simp [ho])
    case h_3 ho => exact iff_of_false memSize_getCp0Entry (by simp [ho])
    case h_4 ho => exact iff_of_false memSize_getCp1Entry (by simp [ho])
    case h_6 ho => exact iff_of_false (memSize_find_ne (by decide) _) (by simp [ho])

theorem memSize_entries : ∀ e ∈ entries, e.memSize = 8 ∨ e.memSize ≤ 4 := by decide +kernel

/-- A doubleword access is a load or a store. -/
theorem operation_doubleword : ∀ e ∈ entries, e.memSize = 8 →
    e.operation.loads ∨ e.operation = .outStore := by decide +kernel

/-- A version of 32-bit registers executes no doubleword access. -/
theorem unknown_doubleword {version : MipsVersion} (hw : version.width = 32) :
    ∀ e ∈ entries, e.memSize = 8 →
      e.versions.isSupported version = false ∨ e.function = .unknownInstruction := by
  revert hw
  cases version <;> decide +kernel

end Entries

section Widths

variable {M : Type} [FuncMemory M] {version : MipsVersion} {s : FuncSim version.width M}

/-- What its table entry says of an instruction that was not executed yet. -/
structure TableDecoded (version : MipsVersion) (raw : BitVec 32) (entry : MipsTableEntry) {w : ℕ}
    (f : FuncInstr w) : Prop where
  operation : f.operation = entry.operation
  memSize : f.memSize = entry.memSize
  executor : f.executor
    = if entry.versions.isSupported version then entry.function else .unknownInstruction
  memAddr : f.memAddr = NO_VAL32.setWidth 64
  src0 : f.src0 = operand raw entry.src 0
  src1 : f.src1 = operand raw entry.src 1

theorem tableDecoded_current (s : FuncSim version.width M) :
    TableDecoded version s.word (getTableEntry s.word) (s.current (isa version)) := by
  obtain ⟨target, newPC, slots, hi⟩ := createInstr_entry (w := version.width) version
    s.imem.endian s.word s.getPC
  have hfetch : fetchInstr (isa version) s.imem.endian s.mem s.getPC = _ := hi
  unfold FuncSim.current
  rw [hfetch]
  generalize getTableEntry s.word = entry
  exact ⟨rfl, rfl, rfl, rfl, rfl, rfl⟩

/-- With a register file of its size, a simulator reads the sources of every word. -/
theorem fetchOperands_current (hs : s.Reachable (isa version))
    (hmax : s.rf.maxReg = MipsRegister.maxReg) :
    ∃ imem, s.fetchOperands (isa version) = .ok (s.current (isa version), imem) := by
  have hd := tableDecoded_current s
  refine ⟨_, (FuncSim.fetchOperands_iff hs.coherent).2 ⟨⟨?_, ?_⟩, rfl, rfl⟩⟩
  · rw [hd.src0]
    exact RF.valid_of_maxReg hmax (operand_lt _ _ _)
  · rw [hd.src1]
    exact RF.valid_of_maxReg hmax (operand_lt _ _ _)

theorem stepMasks_eq (hs : s.Reachable (isa version))
    (hmax : s.rf.maxReg = MipsRegister.maxReg) :
    stepMasks version s = fetchInstrMasks version s.imem s.mem s.getPC
      ++ ((s.current (isa version)).executor.masks (s.current (isa version))
        ++ loadStoreMasks (s.current (isa version)).execute) := by
  obtain ⟨imem, hf⟩ := fetchOperands_current hs hmax
  rw [stepMasks, hf]

theorem masksValid_fetchInstr (imem : InstrMemoryCached version.width) (mem : M) (PC : Addr) :
    MasksValid (fetchInstrMasks version imem mem PC) := by
  have hdecode (bytes : BitVec 32) :
      MasksValid (createInstrMasks version imem.endian bytes PC) := by
    unfold createInstrMasks getImmediateMasks initTargetMasks
    split_ifs <;> simp
  unfold fetchInstrMasks
  dsimp only
  split
  · split
    · exact masksValid_nil
    · exact hdecode _
  · exact hdecode _

/-- An instruction that is not a doubleword access asks for no mask that is too wide. -/
theorem masksValid_of_size (hs : s.Reachable (isa version))
    (hmax : s.rf.maxReg = MipsRegister.maxReg)
    (hsize : (getTableEntry s.word).memSize * 8 ≤ version.width) :
    MasksValid (stepMasks version s) := by
  have hw : 32 ≤ version.width := by cases version <;> decide
  have hmem := (tableDecoded_current s).memSize
  obtain ⟨_, _, _, _, _, _, _, he⟩ := executed_run (s.current (isa version)).executor
    (f := s.current (isa version))
  have hexec : (s.current (isa version)).execute.memSize = (s.current (isa version)).memSize := by
    rw [FuncInstr.execute, he]
  rw [stepMasks_eq hs hmax, masksValid_append, masksValid_append]
  refine ⟨masksValid_fetchInstr _ _ _, masksValid_masks hw ?_ _, masksValid_loadStore ?_⟩
  · rwa [hmem]
  · rwa [hexec, hmem]

/-- A doubleword access in a simulator of 32-bit registers is not executed, but goes to memory. -/
theorem doubleword_mem_stepMasks (hs : s.Reachable (isa version))
    (hmax : s.rf.maxReg = MipsRegister.maxReg) (hw : version.width = 32)
    (hsize : (getTableEntry s.word).memSize = 8) :
    ⟨version.width, 64⟩ ∈ stepMasks version s := by
  have hd := tableDecoded_current s
  have hunknown : (s.current (isa version)).executor = .unknownInstruction := by
    rw [hd.executor]
    rcases unknown_doubleword hw _ (getTableEntry_mem s.word) hsize with h | h
    · simp [h]
    · rw [h, ite_self]
  have hexec : (s.current (isa version)).execute
      = { s.current (isa version) with trap := .unknownInstruction, complete := true } := by
    rw [FuncInstr.execute, hunknown]
    rfl
  have hop := operation_doubleword _ (getTableEntry_mem s.word) hsize
  rw [← hd.operation] at hop
  -- Nothing wrote the address of the access, and a fresh one is not zero.
  have haddr : (s.current (isa version)).memAddr ≠ 0#64 := by
    rw [hd.memAddr]
    decide
  rw [stepMasks_eq hs hmax, hexec]
  refine List.mem_append_right _ (List.mem_append_right _ ?_)
  rw [show 64 = (s.current (isa version)).memSize * 8 by rw [hd.memSize, hsize]]
  exact mem_loadStoreMasks hop haddr

/-- All masks of a step are within their types exactly when the word at the program counter is not a
doubleword access, or the registers have 64 bits. -/
theorem masksValid_stepMasks_iff (hs : s.Reachable (isa version))
    (hmax : s.rf.maxReg = MipsRegister.maxReg) :
    MasksValid (stepMasks version s)
      ↔ ¬ (version.width = 32 ∧ IsDoublewordAccess s.word) := by
  rw [← memSize_getTableEntry_iff]
  constructor
  · rintro hvalid ⟨hw, hsize⟩
    have hle : 64 ≤ version.width := hvalid _ (doubleword_mem_stepMasks hs hmax hw hsize)
    omega
  · intro h
    refine masksValid_of_size hs hmax ?_
    have hw : version.width = 32 ∨ version.width = 64 := by cases version <;> decide
    have hsize := memSize_entries _ (getTableEntry_mem s.word)
    omega

/-- `lwl $t1, 2($zero)` on MIPS32. -/
theorem masksValid_stepMasks_iff_lwl : MasksValid
    (stepMasks .v32 (simulatorWith (memoryWith 0x02#8 0x00#8 0x09#8 0x88#8))) :=
  (masksValid_stepMasks_iff (reachable_simulatorWith _) rfl).2 (by decide +kernel)

/-- `ld $zero, 0($zero)` on MIPS32 asks for 64 ones of a 32-bit register. -/
theorem not_masksValid_ld :
    (simulatorWith (memoryWith 0x00#8 0x00#8 0x00#8 0xdc#8)).Reachable (isa .v32)
      ∧ (simulatorWith (memoryWith 0x00#8 0x00#8 0x00#8 0xdc#8)).rf.maxReg = MipsRegister.maxReg
      ∧ ¬ MasksValid
        (stepMasks .v32 (simulatorWith (memoryWith 0x00#8 0x00#8 0x00#8 0xdc#8))) := by
  have hs := reachable_simulatorWith (memoryWith 0x00#8 0x00#8 0x00#8 0xdc#8)
  refine ⟨hs, rfl, fun h => ?_⟩
  have hmask := doubleword_mem_stepMasks hs rfl rfl (by decide +kernel)
  exact absurd (h _ hmask) (by decide)

end Widths

end Mips

end MiptMips
