import MiptMips.Lib.Steps
import MiptMips.Mips.Instr

/-!
# Exception entry and return

The driver sets the exception-level bit of the status register, bit 1, and saves the program
counter; `eret` is to undo that. It clears bit 2 instead, and cuts the status with what its result
held before, which is `0xdeadbeef` in a new instruction. So it never gets back to a status without
the exception level, and it leaves the other bits alone only if they are in that number
(`exceptionReturnExact_iff`).
-/

namespace MiptMips

namespace Mips

open Machines

variable {w : ℕ}

section Model

/-- The words that `eret` is decoded from. -/
def IsEret (bytes : BitVec 32) : Prop := (MipsTable.getTableEntry bytes).function = .eret

instance (bytes : BitVec 32) : Decidable (IsEret bytes) := inferInstanceAs (Decidable (_ = _))

/-- Execution and write-back of the instruction with a word. -/
def executeWord (version : MipsVersion) (endian : Endian) (bytes : BitVec 32) (PC : Addr)
    (rf : RF w) : Except SimException (FuncInstr w × RF w) := do
  let instr ← rf.readSources (createInstr version endian bytes PC w)
  let instr := instr.execute
  let rf ← rf.writeDst instr
  return (instr, rf)

/-- The status bits that `eret` keeps. -/
def eretMask (w : ℕ) : BitVec w := NO_VAL32.setWidth w &&& (~~~4#32).setWidth w

/-- The exception-level bit, which the driver sets. -/
def exlBit : ℕ := 1

end Model

section Access

variable {rf : RF w} {num : Register}

theorem readCpuRegister_ok (h : rf.Valid num) :
    readCpuRegister rf num = .ok ((rf.get num).setWidth 64) := by
  unfold readCpuRegister
  rw [RF.read_ok h]
  rfl

/-- The registers after an exception entry. -/
def enterException (rf : RF w) (f : FuncInstr w) : RF w :=
  let status := (rf.get MipsRegister.status).setWidth 64 ||| 0x2#64
  let cause := ((rf.get MipsRegister.cause).setWidth 64 &&& ~~~(bitmask 64 4 <<< 2))
    ||| ((f.trap.toMipsFormat.setWidth 64 &&& bitmask 64 4) <<< 2)
  ((rf.set MipsRegister.status (status.setWidth w)).set MipsRegister.cause (cause.setWidth w)).set
    MipsRegister.epc (f.PC.setWidth w)

theorem handleTrap_eq {f : FuncInstr w} (hmax : rf.maxReg = MipsRegister.maxReg)
    (htrap : f.trap ≠ .noTrap) (hhalt : f.trap ≠ .halt) :
    handleTrap rf f = .ok ⟨enterException rf f, some trapVector, .noTrap⟩ := by
  unfold handleTrap
  rw [if_neg (by simp [htrap, hhalt]), bind_eq_ok]
  refine ⟨_, readCpuRegister_ok (RF.valid_of_maxReg hmax (by decide)), ?_⟩
  rw [bind_eq_ok]
  refine ⟨_, readCpuRegister_ok (RF.valid_of_maxReg hmax (by decide)), ?_⟩
  rw [bind_eq_ok]
  refine ⟨_, RF.write_ok (RF.valid_of_maxReg hmax (by decide)) rfl, ?_⟩
  rw [bind_eq_ok]
  refine ⟨_, RF.write_ok (RF.valid_of_maxReg hmax (by decide)) rfl, ?_⟩
  rw [bind_eq_ok]
  exact ⟨_, RF.write_ok (RF.valid_of_maxReg hmax (by decide)) rfl, rfl⟩

/-- The status gets the exception level, the address of the instruction is saved. -/
theorem get_enterException (hw : w ≤ 64) (f : FuncInstr w) :
    (enterException rf f).get MipsRegister.status
        = rf.get MipsRegister.status ||| (0x2#64).setWidth w
      ∧ (enterException rf f).get MipsRegister.epc = f.PC.setWidth w := by
  refine ⟨?_, rfl⟩
  show ((rf.get MipsRegister.status).setWidth 64 ||| 0x2#64).setWidth w = _
  rw [BitVec.setWidth_or, BitVec.setWidth_setWidth_of_le _ hw, BitVec.setWidth_eq]

theorem eret_entries : ∀ e ∈ MipsTable.entries, e.function = .eret →
    e.operation = .outRJump ∧ e.src = [.epc, .sr] ∧ e.dst = [.sr]
      ∧ ∀ v ∈ [MipsVersion.I, .II, .III, .IV, .V, .v32, .v64, .mars, .mars64],
        e.versions.isSupported v := by
  decide +kernel

/-- What `eret` computes. -/
theorem eret_spec (f : FuncInstr w) : (Alu.eret f).newPC = f.vSrc0.setWidth 64
    ∧ (Alu.eret f).vDst0 = f.vDst0 &&& (f.vSrc1 &&& (~~~4#32).setWidth w)
    ∧ (Alu.eret f).mask = f.mask := by
  unfold Alu.eret Alu.jumpTo Alu.checkHaltTrap
  split_ifs <;> exact ⟨rfl, rfl, rfl⟩

/-- What decoding says of `eret`. -/
structure EretDecoded (f : FuncInstr w) : Prop where
  src0 : f.src0 = MipsRegister.epc
  src1 : f.src1 = MipsRegister.status
  dst0 : f.dst0 = MipsRegister.status
  dst1 : f.dst1 = MipsRegister.zero
  executor : f.executor = .eret
  accumulation : f.getAccumulationType = 0
  vDst0 : f.vDst0 = NO_VAL32.setWidth w
  mask : f.mask = allOnes w

theorem eretDecoded_createInstr (version : MipsVersion) (endian : Endian) {bytes : BitVec 32}
    (hb : IsEret bytes) (PC : Addr) : EretDecoded (createInstr version endian bytes PC w) := by
  obtain ⟨target, newPC, slots, hi⟩ := createInstr_entry (w := w) version endian bytes PC
  obtain ⟨hop, hsrc, hdst, hv⟩ := eret_entries _ (MipsTable.getTableEntry_mem bytes) hb
  have hsup : (MipsTable.getTableEntry bytes).versions.isSupported version :=
    hv version (by cases version <;> decide)
  rw [hop, hsrc, hdst, if_pos hsup, show (MipsTable.getTableEntry bytes).function = _ from hb] at hi
  rw [hi]
  exact ⟨rfl, rfl, rfl, rfl, rfl, rfl, rfl, rfl⟩

/-- Exception return: the status is cut with the mask, and the saved address is next. -/
theorem executeWord_eret (version : MipsVersion) (endian : Endian) {bytes : BitVec 32}
    (hb : IsEret bytes) (PC : Addr) (hmax : rf.maxReg = MipsRegister.maxReg) : ∃ instr rf',
    executeWord version endian bytes PC rf = .ok (instr, rf')
      ∧ instr.newPC = (rf.get MipsRegister.epc).setWidth 64
      ∧ rf'.get MipsRegister.status = eretMask w &&& rf.get MipsRegister.status := by
  have hd := eretDecoded_createInstr (w := w) version endian hb PC
  unfold executeWord
  generalize createInstr version endian bytes PC w = f at hd ⊢
  have hread : rf.readSources f = .ok { f with
      vSrc0 := rf.get MipsRegister.epc, vSrc1 := rf.get MipsRegister.status } := by
    unfold RF.readSources
    rw [hd.src0, hd.src1, RF.read_ok (RF.valid_of_maxReg hmax (by decide)),
      RF.read_ok (RF.valid_of_maxReg hmax (by decide))]
    rfl
  let g : FuncInstr w :=
    { f with vSrc0 := rf.get MipsRegister.epc, vSrc1 := rf.get MipsRegister.status }
  have hg : g.execute = { Alu.eret g with complete := true } := by
    rw [FuncInstr.execute, show g.executor = .eret from hd.executor]
    rfl
  obtain ⟨hnew, hdst, hmask⟩ := eret_spec g
  have hframe := executed_run (f := g) .eret
  rw [show Executor.eret.run g = Alu.eret g from rfl] at hframe
  have hsame : g.execute.dst0 = MipsRegister.status ∧ g.execute.dst1 = MipsRegister.zero
      ∧ g.execute.getAccumulationType = 0 := by
    obtain ⟨_, _, _, _, _, _, _, he⟩ := hframe
    rw [hg, he]
    exact ⟨hd.dst0, hd.dst1, hd.accumulation⟩
  have hstatus : rf.Valid MipsRegister.status := RF.valid_of_maxReg hmax (by decide)
  have hzero : rf.Valid MipsRegister.zero := RF.valid_of_maxReg hmax (by decide)
  obtain ⟨rf₂, hwrite, -⟩ :=
    RF.writeDst_total (hsame.1 ▸ hstatus) (hsame.2.1 ▸ hzero) hsame.2.2
  refine ⟨g.execute, rf₂, ?_, ?_, ?_⟩
  · rw [hread]
    show (do let rf ← rf.writeDst g.execute; return (g.execute, rf)) = _
    rw [hwrite]
    rfl
  · rw [hg]
    exact hnew
  · rw [RF.get_writeDst hwrite hsame.2.2, hsame.1, hsame.2.1, if_neg (by decide),
      if_pos (by decide), hg]
    show rf.applyMask _ (Alu.eret g).vDst0 (Alu.eret g).mask = _
    rw [hdst, hmask, show g.mask = allOnes w from hd.mask, allOnes_eq, RF.applyMask_allOnes,
      show g.vDst0 = _ from hd.vDst0, show g.vSrc1 = rf.get MipsRegister.status from rfl, eretMask]
    ac_rfl

end Access

section Exact

/-- Entering an exception and returning from it restores the status and goes back to the saved
address, and a return changes no bit but the exception level. -/
structure ExceptionReturnExact (version : MipsVersion) (status : BitVec version.width) : Prop where
  identity : status.getLsbD exlBit = false →
    ∀ (rf : RF version.width) (f : FuncInstr version.width) (endian : Endian) (bytes : BitVec 32)
      (PC : Addr), rf.maxReg = MipsRegister.maxReg → rf.get MipsRegister.status = status →
      f.trap ≠ .noTrap → f.trap ≠ .halt → IsEret bytes → ∃ result instr rf',
        (isa version).handleTrap rf f = .ok result
          ∧ executeWord version endian bytes PC result.rf = .ok (instr, rf')
          ∧ rf'.get MipsRegister.status = status
          ∧ instr.newPC = (result.rf.get MipsRegister.epc).setWidth 64
  frame : ∀ (rf : RF version.width) (endian : Endian) (bytes : BitVec 32) (PC : Addr),
    rf.maxReg = MipsRegister.maxReg → rf.get MipsRegister.status = status → IsEret bytes →
    ∃ instr rf', executeWord version endian bytes PC rf = .ok (instr, rf')
      ∧ ∀ i, i ≠ exlBit →
        (rf'.get MipsRegister.status).getLsbD i = status.getLsbD i

variable {version : MipsVersion} {status : BitVec version.width}

theorem width_le (version : MipsVersion) : version.width ≤ 64 := by
  cases version <;> decide

/-- `eret` leaves a bit alone that is in the mask, and one that is not there. -/
theorem frame_iff : (∀ i, i ≠ exlBit → (eretMask version.width &&& status).getLsbD i
    = status.getLsbD i) ↔ ∀ i, i ≠ exlBit → status.getLsbD i → (eretMask version.width).getLsbD i := by
  simp only [BitVec.getLsbD_and]
  refine forall_congr' fun i => imp_congr_right fun _ => ?_
  cases status.getLsbD i <;> simp

theorem getLsbD_eretMask_exl (version : MipsVersion) :
    (eretMask version.width).getLsbD exlBit = true := by
  cases version <;> decide

theorem isEret_word : IsEret 0x42000018#32 := by decide +kernel

/-- An instruction that ends with a system call. -/
def trapped (w : ℕ) : FuncInstr w :=
  { PC := 0x100#64, newPC := 0x104#64, raw := 0#32, endian := .little, executor := .syscall
    src0 := MipsRegister.zero, src1 := MipsRegister.zero, dst0 := MipsRegister.zero
    dst1 := MipsRegister.zero, trap := .syscall }

theorem trap_trapped : (trapped w).trap ≠ .noTrap ∧ (trapped w).trap ≠ .halt := by
  constructor <;> intro h <;> cases h

/-- Registers with a status. -/
def withStatus (status : BitVec w) : RF w :=
  (RF.zeroed w MipsRegister.maxReg).set MipsRegister.status status

/-- What becomes of the status from the entry to the return. -/
theorem get_status_roundTrip (version : MipsVersion) {rf rf' : RF version.width}
    {f instr : FuncInstr version.width} {result : DriverResult version.width} {endian : Endian}
    {bytes : BitVec 32} {PC : Addr} (hmax : rf.maxReg = MipsRegister.maxReg)
    (htrap : f.trap ≠ .noTrap) (hhalt : f.trap ≠ .halt) (hb : IsEret bytes)
    (henter : (isa version).handleTrap rf f = .ok result)
    (hexec : executeWord version endian bytes PC result.rf = .ok (instr, rf')) :
    rf'.get MipsRegister.status
      = eretMask version.width
        &&& (rf.get MipsRegister.status ||| (0x2#64).setWidth version.width) := by
  have henter' := (handleTrap_eq hmax htrap hhalt).symm.trans henter
  cases henter'
  have hmax' : (enterException rf f).maxReg = MipsRegister.maxReg := hmax
  obtain ⟨instr₁, rf₁, hexec₁, -, hget⟩ := executeWord_eret version endian hb PC hmax'
  rw [hexec₁] at hexec
  cases hexec
  rw [hget, (get_enterException (width_le version) f).1]

/-- Entry and return are exact for a status just when it has the exception level already and no
bit that `eret` loses. -/
theorem exceptionReturnExact_iff : ExceptionReturnExact version status
    ↔ status.getLsbD exlBit = true
      ∧ ∀ i, status.getLsbD i → (eretMask version.width).getLsbD i := by
  constructor
  · intro h
    have hexl : status.getLsbD exlBit = true := by
      by_contra hexl
      rw [Bool.not_eq_true] at hexl
      obtain ⟨result, instr, rf', henter, hexec, hstatus, -⟩ := h.identity hexl (withStatus status)
        (trapped _) .little 0x42000018#32 0#64 rfl rfl trap_trapped.1 trap_trapped.2 isEret_word
      -- the bit that the driver sets is still there
      have hget := get_status_roundTrip version rfl trap_trapped.1 trap_trapped.2 isEret_word
        henter hexec
      have hbit := congrArg (·.getLsbD exlBit) (hget.symm.trans hstatus)
      rw [show (withStatus status).get MipsRegister.status = status from rfl] at hbit
      simp only [BitVec.getLsbD_and, BitVec.getLsbD_or, getLsbD_eretMask_exl, hexl] at hbit
      cases version <;> simp [exlBit, MipsVersion.width] at hbit
    refine ⟨hexl, fun i hi => ?_⟩
    obtain ⟨instr, rf', hexec, hframe⟩ := h.frame (withStatus status) .little 0x42000018#32 0#64
      rfl rfl isEret_word
    have hmax : (withStatus status).maxReg = MipsRegister.maxReg := rfl
    obtain ⟨instr₁, rf₁, hexec₁, -, hget⟩ :=
      executeWord_eret version .little isEret_word 0#64 hmax
    rw [hexec₁] at hexec
    cases hexec
    rw [hget] at hframe
    by_cases h₁ : i = exlBit
    · rw [h₁]
      exact getLsbD_eretMask_exl version
    · exact frame_iff.1 hframe i h₁ hi
  · rintro ⟨hexl, hkept⟩
    constructor
    · intro h
      rw [hexl] at h
      cases h
    · intro rf endian bytes PC hmax hst hb
      obtain ⟨instr, rf', hexec, -, hget⟩ := executeWord_eret version endian hb PC hmax
      refine ⟨instr, rf', hexec, ?_⟩
      rw [hget, hst]
      exact frame_iff.2 fun i _ => hkept i

/-- A status of zero comes back as two. -/
theorem not_exceptionReturnExact_zero : ¬ ExceptionReturnExact .v32 0#32 := by
  intro h
  obtain ⟨result, instr, rf', henter, hexec, hstatus, -⟩ := h.identity rfl (withStatus 0#32)
    (trapped 32) .little 0x42000018#32 0#64 rfl rfl trap_trapped.1 trap_trapped.2 isEret_word
  have hget := get_status_roundTrip .v32 rfl trap_trapped.1 trap_trapped.2 isEret_word henter
    hexec
  exact absurd (show 2#32 = 0#32 from hget.symm.trans hstatus) (by decide)

end Exact

end Mips

end MiptMips
