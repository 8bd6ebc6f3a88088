import MiptMips.Lib.SignExtended
import MiptMips.RiscV.Immediates
import MiptMips.RiscV.Instr

/-!
# Targets of RISC-V branches and jumps

The offset of a branch has thirteen bits and that of a jump twenty-one, but both the decoder and
the constructor extend them from one bit less. The target is right when the offset fits there, and
an offset of the other half of its range goes the wrong way.
-/

namespace MiptMips

open Bits

namespace RiscV

variable {opcodes : RiscVOpcodes} {w : ℕ} {bytes : BitVec 32}

section Search

/-- No word has both: they differ in a bit that both masks look at. -/
def Conflicts (a b : BitVec 32 × BitVec 32) : Prop := (a.1 ^^^ b.1) &&& a.2 &&& b.2 ≠ 0#32

instance (a b : BitVec 32 × BitVec 32) : Decidable (Conflicts a b) :=
  inferInstanceAs (Decidable (_ ≠ _))

theorem and_ne_of_conflicts {a b : BitVec 32 × BitVec 32} (h : Conflicts a b)
    (hb : bytes &&& b.2 = b.1) : bytes &&& a.2 ≠ a.1 := by
  intro ha
  apply h
  rw [← ha, ← hb]
  apply BitVec.eq_of_getLsbD_eq
  intro i _
  simp only [BitVec.getLsbD_and, BitVec.getLsbD_xor, BitVec.getLsbD_zero]
  rcases bytes.getLsbD i <;> rcases a.2.getLsbD i <;> rcases b.2.getLsbD i <;> rfl

/-- The search stops at an entry that no entry before it stands in the way of. -/
theorem findEntry_eq {before after : List RiscVTableEntry} {e : RiscVTableEntry}
    (htable : cmdDesc opcodes w = before ++ e :: after) (hmatch : bytes &&& e.entry.2 = e.entry.1)
    (hw : w ∈ e.bitWidth) (hbefore : ∀ e' ∈ before, Conflicts e'.entry e.entry) :
    findEntry opcodes w bytes = e := by
  have hfind : (cmdDesc opcodes w).find? (checkMaskAndType w bytes) = some e := by
    rw [List.find?_eq_some_iff_append]
    refine ⟨by simp [checkMaskAndType, hmatch, hw], before, after, htable, fun e' he' => ?_⟩
    simp [checkMaskAndType, and_ne_of_conflicts (hbefore e' he') hmatch]
  rw [findEntry, hfind]
  rfl

end Search

section Opcodes

/-- The instruction set's words for what the table has up to the last branch. -/
structure StandardControlFlow (opcodes : RiscVOpcodes) : Prop where
  lui : opcodes.insn "lui" = (0x37#32, 0x7f#32)
  auipc : opcodes.insn "auipc" = (0x17#32, 0x7f#32)
  jal : opcodes.insn "jal" = (0x6f#32, 0x7f#32)
  jalr : opcodes.insn "jalr" = (0x67#32, 0x707f#32)
  beq : opcodes.insn "beq" = (0x63#32, 0x707f#32)
  bne : opcodes.insn "bne" = (0x1063#32, 0x707f#32)
  blt : opcodes.insn "blt" = (0x4063#32, 0x707f#32)
  bge : opcodes.insn "bge" = (0x5063#32, 0x707f#32)
  bltu : opcodes.insn "bltu" = (0x6063#32, 0x707f#32)
  bgeu : opcodes.insn "bgeu" = (0x7063#32, 0x707f#32)

/-- The entries whose target is the address plus a wide offset: the branches and `jal`. -/
def IsControlFlow (e : RiscVTableEntry) : Prop := e.immediateType = .B ∨ e.immediateType = .J

instance (e : RiscVTableEntry) : Decidable (IsControlFlow e) :=
  inferInstanceAs (Decidable (_ ∨ _))

variable {e : RiscVTableEntry}

/-- All of them are in the first eleven entries. -/
theorem mem_take_of_isControlFlow (he : e ∈ cmdDesc opcodes w) (hflow : IsControlFlow e) :
    e ∈ (cmdDesc opcodes w).take 11 := by
  have hrest : ((cmdDesc opcodes w).drop 11).all (fun e => decide ¬ IsControlFlow e) = true := rfl
  rw [← List.take_append_drop 11 (cmdDesc opcodes w), List.mem_append] at he
  rcases he with he | he
  · exact he
  · exact absurd hflow (of_decide_eq_true (List.all_eq_true.1 hrest e he))

/-- A branch, or the jump, and the bits that name it. -/
def IsControl (e : RiscVTableEntry) (mask : BitVec 32) : Prop :=
  e.immediateType = .B ∧ e.type = .outBranch ∧ mask = 0x707f#32
    ∨ e.immediateType = .J ∧ e.type = .outJJump ∧ mask = 0x7f#32

/-- No bit that names the instruction is a bit of the offset. -/
theorem source_of_isControl {mask : BitVec 32} (h : IsControl e mask) :
    ∀ i < 32, mask.getLsbD i → e.immediateType.layout.source i = none := by
  rcases h with ⟨hi, -, rfl⟩ | ⟨hi, -, rfl⟩ <;> rw [hi] <;> decide +kernel

/-- What the search and the constructor need to know of such an entry. -/
structure ControlEntry (opcodes : RiscVOpcodes) (w : ℕ) (e : RiscVTableEntry) : Prop where
  found (bytes : BitVec 32) : bytes &&& e.entry.2 = e.entry.1 → findEntry opcodes w bytes = e
  isControl : IsControl e e.entry.2

/-- The entry at an index, against the entries before it. -/
theorem controlEntry_of (i : ℕ) {entry : BitVec 32 × BitVec 32} (hentry : e.entry = entry)
    (htable : cmdDesc opcodes w = (cmdDesc opcodes w).take i ++ e :: (cmdDesc opcodes w).drop (i + 1))
    (hw : w ∈ e.bitWidth)
    (hbefore : ((cmdDesc opcodes w).take i).all (fun e' => decide (Conflicts e'.entry entry)) = true)
    (hcontrol : IsControl e entry.2) : ControlEntry opcodes w e := by
  subst hentry
  refine ⟨fun bytes hb => findEntry_eq htable hb hw fun e' he' => ?_, hcontrol⟩
  exact of_decide_eq_true (List.all_eq_true.1 hbefore e' he')

theorem controlEntry (h : StandardControlFlow opcodes) (hw : w = 32 ∨ w = 64 ∨ w = 128)
    (he : e ∈ cmdDesc opcodes w) (hflow : IsControlFlow e) : ControlEntry opcodes w e := by
  have hmem := mem_take_of_isControlFlow he hflow
  have hwidth : w ∈ [32, 64, 128] := by simpa using hw
  simp only [cmdDesc, cmdDescOf, List.take_succ_cons, List.take_zero, List.mem_cons,
    List.not_mem_nil, or_false] at hmem
  rcases hmem with rfl | rfl | rfl | rfl | rfl | rfl | rfl | rfl | rfl | rfl | rfl
  · exact absurd hflow (by simp [IsControlFlow, invalidInstr])
  · exact absurd hflow (by simp [IsControlFlow])
  · exact absurd hflow (by simp [IsControlFlow])
  · exact controlEntry_of 3 h.jal rfl hwidth
      (by simp [cmdDesc, cmdDescOf, h.lui, h.auipc]; decide) (.inr ⟨rfl, rfl, rfl⟩)
  · exact absurd hflow (by simp [IsControlFlow])
  · exact controlEntry_of 5 h.beq rfl hwidth
      (by simp [cmdDesc, cmdDescOf, h.lui, h.auipc, h.jal, h.jalr]; decide) (.inl ⟨rfl, rfl, rfl⟩)
  · exact controlEntry_of 6 h.bne rfl hwidth
      (by simp [cmdDesc, cmdDescOf, h.lui, h.auipc, h.jal, h.jalr, h.beq]; decide)
      (.inl ⟨rfl, rfl, rfl⟩)
  · exact controlEntry_of 7 h.blt rfl hwidth
      (by simp [cmdDesc, cmdDescOf, h.lui, h.auipc, h.jal, h.jalr, h.beq, h.bne]; decide)
      (.inl ⟨rfl, rfl, rfl⟩)
  · exact controlEntry_of 8 h.bge rfl hwidth
      (by simp [cmdDesc, cmdDescOf, h.lui, h.auipc, h.jal, h.jalr, h.beq, h.bne, h.blt]; decide)
      (.inl ⟨rfl, rfl, rfl⟩)
  · exact controlEntry_of 9 h.bltu rfl hwidth
      (by simp [cmdDesc, cmdDescOf, h.lui, h.auipc, h.jal, h.jalr, h.beq, h.bne, h.blt, h.bge]
          decide) (.inl ⟨rfl, rfl, rfl⟩)
  · exact controlEntry_of 10 h.bgeu rfl hwidth
      (by simp [cmdDesc, cmdDescOf, h.lui, h.auipc, h.jal, h.jalr, h.beq, h.bne, h.blt, h.bge,
            h.bltu]
          decide) (.inl ⟨rfl, rfl, rfl⟩)

end Opcodes

section Target

variable {e : RiscVTableEntry} {offset : BitVec e.immediateType.width}

/-- Both extensions look at one bit less than the offset has. -/
theorem signExtension_twice {n k : ℕ} (hk : 0 < k) (hkn : k ≤ n) (hn : n ≤ 32) (hw : 32 ≤ w)
    (offset : BitVec n) : signExtension k
      ((signExtension k ((offset.setWidth 32).setWidth w)).setWidth 64)
        = (offset.setWidth k).signExtend 64 := by
  have hcut : ((offset.setWidth 32).setWidth w).setWidth k = offset.setWidth k := by
    rw [BitVec.setWidth_setWidth_of_le _ (by omega), BitVec.setWidth_setWidth_of_le _ (by omega)]
  rw [sign_extension_eq hk (by omega), sign_extension_eq hk (by omega),
    BitVec.setWidth_setWidth_of_le _ (by omega), SignExtended.setWidth_signExtend (by omega), hcut]

/-- The immediate that the constructor makes the target of. -/
def immediateOf (w : ℕ) (e : RiscVTableEntry) (bytes : BitVec 32) : BitVec w :=
  RiscVInstrDecoder.getImmediate w e.immediateType
    (RiscVInstrDecoder.getImmediateValue bytes e.immediateType)

theorem target_of_outBranch (hfound : findEntry opcodes w bytes = e) (ht : e.type = .outBranch)
    (PC : Addr) : (createInstr opcodes w bytes PC).target
      = PC + signExtension 12 ((immediateOf w e bytes).setWidth 64) := by
  subst hfound
  simp [createInstr, initTarget, init, FuncInstr.isBranch, FuncInstr.isCommonBranch, ht,
    immediateOf]

theorem target_of_outJJump (hfound : findEntry opcodes w bytes = e) (ht : e.type = .outJJump)
    (PC : Addr) : (createInstr opcodes w bytes PC).target
      = PC + signExtension 20 ((immediateOf w e bytes).setWidth 64) := by
  subst hfound
  simp [createInstr, initTarget, init, FuncInstr.isBranch, FuncInstr.isCommonBranch,
    FuncInstr.isLikelyBranch, FuncInstr.isDirectJump, ht, immediateOf]

/-- The target of the word that has an offset in it. -/
theorem target_encode (he : ControlEntry opcodes w e) (hw : 32 ≤ w)
    (hoffset : e.immediateType.Encodable offset) {raw : BitVec 32}
    (hraw : raw &&& e.entry.2 = e.entry.1) (PC : Addr) :
    (createInstr opcodes w (e.immediateType.encode offset raw) PC).target
      = PC + (offset.setWidth (e.immediateType.width - 1)).signExtend 64 := by
  have hfound : findEntry opcodes w (e.immediateType.encode offset raw) = e := by
    refine he.found _ ?_
    rw [← hraw]
    exact Layout.place_and (source_of_isControl he.isControl)
  have himm := RiscVInstrDecoder.getImmediateValue_encode hoffset raw
  rcases he.isControl with ⟨hi, ht, -⟩ | ⟨hi, ht, -⟩
  · have hwidth : e.immediateType.width = 13 := by rw [hi]; rfl
    have hbits : e.immediateType.width - 1 = 12 := by omega
    have hget : ∀ value, RiscVInstrDecoder.getImmediate w e.immediateType value
        = signExtension 12 (value.setWidth w) := by
      rw [hi]
      exact fun _ => rfl
    rw [target_of_outBranch hfound ht, immediateOf, himm, hget, hbits,
      signExtension_twice (by decide) (by omega) (by omega) hw]
  · have hwidth : e.immediateType.width = 21 := by rw [hi]; rfl
    have hbits : e.immediateType.width - 1 = 20 := by omega
    have hget : ∀ value, RiscVInstrDecoder.getImmediate w e.immediateType value
        = signExtension 20 (value.setWidth w) := by
      rw [hi]
      exact fun _ => rfl
    rw [target_of_outJJump hfound ht, immediateOf, himm, hget, hbits,
      signExtension_twice (by decide) (by omega) (by omega) hw]

/-- The target is right exactly for the offsets that fit in one bit less than they have. -/
theorem target_encode_iff (h : StandardControlFlow opcodes) (hw : w = 32 ∨ w = 64 ∨ w = 128)
    (he : e ∈ cmdDesc opcodes w) (hflow : IsControlFlow e)
    (hoffset : e.immediateType.Encodable offset) {raw : BitVec 32}
    (hraw : raw &&& e.entry.2 = e.entry.1) (PC : Addr) :
    (createInstr opcodes w (e.immediateType.encode offset raw) PC).target
        = PC + offset.signExtend 64
      ↔ -2 ^ (e.immediateType.width - 2) ≤ offset.toInt
        ∧ offset.toInt < 2 ^ (e.immediateType.width - 2) := by
  have hentry := controlEntry h hw he hflow
  have hwidth : 13 ≤ e.immediateType.width ∧ e.immediateType.width ≤ 32 := by
    rcases hflow with hi | hi <;> rw [hi] <;> decide
  have hbits : e.immediateType.width - 2 = e.immediateType.width - 1 - 1 := by omega
  rw [target_encode hentry (by omega) hoffset hraw, add_right_inj, hbits]
  exact signExtend_setWidth_iff (by omega) (by omega) (by omega) offset

/-- The control flow of the base instruction set, with no control and status registers. -/
def baseOpcodes : RiscVOpcodes where
  insn
    | "lui" => (0x37#32, 0x7f#32)
    | "auipc" => (0x17#32, 0x7f#32)
    | "jal" => (0x6f#32, 0x7f#32)
    | "jalr" => (0x67#32, 0x707f#32)
    | "beq" => (0x63#32, 0x707f#32)
    | "bne" => (0x1063#32, 0x707f#32)
    | "blt" => (0x4063#32, 0x707f#32)
    | "bge" => (0x5063#32, 0x707f#32)
    | "bltu" => (0x6063#32, 0x707f#32)
    | "bgeu" => (0x7063#32, 0x707f#32)
    | _ => (0xffffffff#32, 0xffffffff#32)
  csrs := []
  causes := ⟨3#8, 8#8, 2#8, 4#8, 6#8, 0#8⟩

theorem standardControlFlow_base : StandardControlFlow baseOpcodes :=
  ⟨rfl, rfl, rfl, rfl, rfl, rfl, rfl, rfl, rfl, rfl⟩

def baseBeq : RiscVTableEntry := (cmdDesc baseOpcodes 64).getD 5 invalidInstr

theorem baseBeq_mem : baseBeq ∈ cmdDesc baseOpcodes 64 :=
  List.mem_of_getElem? (show (cmdDesc baseOpcodes 64)[5]? = some baseBeq from rfl)

/-- `beq x1, x2` with the offset 8. -/
theorem target_encode_iff_beq :
    (createInstr baseOpcodes 64 (baseBeq.immediateType.encode (8#13) 0x208063#32) 0x1000#64).target
        = 0x1000#64 + (8#13).signExtend 64
      ↔ -2 ^ (baseBeq.immediateType.width - 2) ≤ (8#13).toInt
        ∧ (8#13).toInt < 2 ^ (baseBeq.immediateType.width - 2) :=
  target_encode_iff standardControlFlow_base (.inr (.inl rfl)) baseBeq_mem (.inl rfl)
    (show baseBeq.immediateType.Encodable (BitVec.ofNat baseBeq.immediateType.width 8) by decide)
    (by decide) _

/-- `beq x1, x2` with the offset 2048 goes 2048 bytes back. -/
theorem not_target_encode_beq : StandardControlFlow baseOpcodes ∧ baseBeq ∈ cmdDesc baseOpcodes 64
    ∧ IsControlFlow baseBeq
    ∧ baseBeq.immediateType.Encodable (BitVec.ofNat baseBeq.immediateType.width 2048)
    ∧ 0x208063#32 &&& baseBeq.entry.2 = baseBeq.entry.1
    ∧ (createInstr baseOpcodes 64 (baseBeq.immediateType.encode (2048#13) 0x208063#32)
        0x1000#64).target ≠ 0x1000#64 + (2048#13).signExtend 64 :=
  ⟨standardControlFlow_base, baseBeq_mem, .inl rfl, by decide, by decide, by decide +kernel⟩

end Target

end RiscV

end MiptMips
