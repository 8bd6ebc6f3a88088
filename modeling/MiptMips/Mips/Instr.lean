import MiptMips.FuncSim.Isa
import MiptMips.Mips.Table

/-!
# MIPS instructions

The constructor of an instruction from its word and address, and the exception driver.
-/

namespace MiptMips

namespace Mips

variable {w : ℕ}

section Instr

variable (version : MipsVersion) (endian : Endian) (bytes : BitVec 32) (PC : Addr)

/-- What follows from the table entry alone. -/
def init (entry : MipsTableEntry) (instr : FuncInstr w) : FuncInstr w :=
  let instr :=
    { instr with
      operation := entry.operation
      memSize := entry.memSize
      executor := if entry.versions.isSupported version then entry.function
        else .unknownInstruction }
  let hasDelayedSlot := instr.isJump && version != .mars && version != .mars64
    && entry.src.head? != some .epc
  let delayedSlots := if hasDelayedSlot then 1 else 0
  { instr with delayedSlots, newPC := instr.newPC + BitVec.ofNat 64 (delayedSlots * 4) }

def initTarget (instr : FuncInstr w) : FuncInstr w :=
  if instr.isBranch then
    { instr with
      target := instr.PC + 4#64 + (signExtension w (instr.vImm.setWidth 64) <<< 2) }
  else if instr.isDirectJump then
    { instr with
      target := (instr.PC &&& 0xf0000000#64) ||| (instr.vImm <<< 2).setWidth 64 }
  else instr

/-- An operand that the table does not list is the zero register. -/
def operand (regs : List MipsReg) (i : ℕ) : Register :=
  (regs[i]?.map (MipsInstrDecoder.getRegister bytes)).getD MipsRegister.zero

open MipsInstrDecoder MipsTable in
def createInstr (w : ℕ) : FuncInstr w :=
  let entry := getTableEntry bytes
  let instr : FuncInstr w :=
    { PC := PC, newPC := PC + 4#64, raw := bytes, endian := endian
      executor := .unknownInstruction
      src0 := operand bytes entry.src 0, src1 := operand bytes entry.src 1
      dst0 := operand bytes entry.dst 0, dst1 := operand bytes entry.dst 1 }
  let instr := init version entry instr
  initTarget
    { instr with
      vImm := getImmediate w entry.immType (getImmediateValue bytes entry.immType) }

end Instr

section Driver

/-- The address that `DriverMIPS32` sends traps to. -/
def trapVector : Addr := 0x800000180#64

variable (rf : RF w)

/-- `read_cpu_register` and `write_cpu_register` pass values as 64-bit numbers. -/
def readCpuRegister (num : Register) : Except SimException (BitVec 64) := do
  let value ← rf.read num
  return value.setWidth 64

def writeCpuRegister (num : Register) (value : BitVec 64) : Except SimException (RF w) :=
  rf.write num (value.setWidth w)

def handleTrap (instr : FuncInstr w) : Except SimException (DriverResult w) :=
  if instr.trap = .noTrap ∨ instr.trap = .halt then .ok ⟨rf, none, instr.trap⟩
  else do
    let status ← readCpuRegister rf MipsRegister.status
    let cause ← readCpuRegister rf MipsRegister.cause
    let status := status ||| 0x2#64
    let cause := (cause &&& ~~~(bitmask 64 4 <<< 2))
      ||| ((instr.trap.toMipsFormat.setWidth 64 &&& bitmask 64 4) <<< 2)
    let rf ← writeCpuRegister rf MipsRegister.status status
    let rf ← writeCpuRegister rf MipsRegister.cause cause
    let rf ← writeCpuRegister rf MipsRegister.epc instr.PC
    return ⟨rf, some trapVector, .noTrap⟩

end Driver

section Facts

variable (version : MipsVersion) (endian : Endian) (bytes : BitVec 32) (PC : Addr)

/-- Every operand of a word is in the register file. -/
theorem operand_lt (regs : List MipsReg) (i : ℕ) :
    (operand bytes regs i).toRfIndex < MipsRegister.maxReg := by
  unfold operand
  rcases regs[i]? with _ | r
  · exact (by decide : 0 < 98)
  · exact MipsInstrDecoder.getRegister_lt bytes r

theorem initTarget_eq (instr : FuncInstr w) :
    ∃ target, initTarget instr = { instr with target := target } := by
  unfold initTarget
  split_ifs
  · exact ⟨_, rfl⟩
  · exact ⟨_, rfl⟩
  · exact ⟨instr.target, rfl⟩

theorem fresh_initTarget {instr : FuncInstr w} (h : instr.Fresh) : (initTarget instr).Fresh := by
  obtain ⟨target, ht⟩ := initTarget_eq instr
  rw [ht]
  exact ⟨h.trap, h.memAddr, h.isTakenBranch, h.vDst0, h.vDst1, h.mask, h.complete⟩

@[simp]
theorem raw_initTarget (instr : FuncInstr w) : (initTarget instr).raw = instr.raw := by
  obtain ⟨target, ht⟩ := initTarget_eq instr
  rw [ht]

@[simp]
theorem PC_initTarget (instr : FuncInstr w) : (initTarget instr).PC = instr.PC := by
  obtain ⟨target, ht⟩ := initTarget_eq instr
  rw [ht]

theorem createInstr_fresh : (createInstr version endian bytes PC w).Fresh :=
  fresh_initTarget ⟨rfl, rfl, rfl, rfl, rfl, rfl, rfl⟩

theorem raw_createInstr : (createInstr version endian bytes PC w).raw = bytes := raw_initTarget _

theorem PC_createInstr : (createInstr version endian bytes PC w).PC = PC := PC_initTarget _

open MipsTable in
/-- What the table entry says of an instruction. -/
theorem createInstr_entry :
    ∃ target newPC delayedSlots, createInstr version endian bytes PC w
      = { PC := PC, newPC := newPC, raw := bytes, endian := endian
          executor := if (getTableEntry bytes).versions.isSupported version
            then (getTableEntry bytes).function else .unknownInstruction
          operation := (getTableEntry bytes).operation
          memSize := (getTableEntry bytes).memSize
          vImm := MipsInstrDecoder.getImmediate w (getTableEntry bytes).immType
            (MipsInstrDecoder.getImmediateValue bytes (getTableEntry bytes).immType)
          target := target, delayedSlots := delayedSlots
          src0 := operand bytes (getTableEntry bytes).src 0
          src1 := operand bytes (getTableEntry bytes).src 1
          dst0 := operand bytes (getTableEntry bytes).dst 0
          dst1 := operand bytes (getTableEntry bytes).dst 1 } := by
  obtain ⟨target, ht⟩ := initTarget_eq
    { init version (getTableEntry bytes)
        { PC := PC, newPC := PC + 4#64, raw := bytes, endian := endian
          executor := .unknownInstruction
          src0 := operand bytes (getTableEntry bytes).src 0
          src1 := operand bytes (getTableEntry bytes).src 1
          dst0 := operand bytes (getTableEntry bytes).dst 0
          dst1 := operand bytes (getTableEntry bytes).dst 1 } with
      vImm := MipsInstrDecoder.getImmediate w (getTableEntry bytes).immType
        (MipsInstrDecoder.getImmediateValue bytes (getTableEntry bytes).immType) }
  exact ⟨target, _, _, ht⟩

section Fields

open MipsTable MipsInstrDecoder

theorem executor_createInstr : (createInstr version endian bytes PC w).executor
    = if (getTableEntry bytes).versions.isSupported version then (getTableEntry bytes).function
      else .unknownInstruction := by
  obtain ⟨target, newPC, slots, hi⟩ := createInstr_entry (w := w) version endian bytes PC
  rw [hi]

theorem operation_createInstr : (createInstr version endian bytes PC w).operation
    = (getTableEntry bytes).operation := by
  obtain ⟨target, newPC, slots, hi⟩ := createInstr_entry (w := w) version endian bytes PC
  rw [hi]

theorem vImm_createInstr : (createInstr version endian bytes PC w).vImm
    = getImmediate w (getTableEntry bytes).immType
      (getImmediateValue bytes (getTableEntry bytes).immType) := by
  obtain ⟨target, newPC, slots, hi⟩ := createInstr_entry (w := w) version endian bytes PC
  rw [hi]

theorem dst_createInstr :
    (createInstr version endian bytes PC w).dst0 = operand bytes (getTableEntry bytes).dst 0
      ∧ (createInstr version endian bytes PC w).dst1
        = operand bytes (getTableEntry bytes).dst 1 := by
  obtain ⟨target, newPC, slots, hi⟩ := createInstr_entry (w := w) version endian bytes PC
  rw [hi]
  exact ⟨rfl, rfl⟩

end Fields

end Facts

/-- The MIPS instruction set of a version, on registers of `w` bits. -/
def isaOf (version : MipsVersion) (w : ℕ) : ISA w where
  maxReg := MipsRegister.maxReg
  createInstr bytes endian PC := createInstr version endian bytes PC w
  handleTrap := handleTrap
  raw_createInstr bytes endian PC := raw_createInstr version endian bytes PC
  PC_createInstr bytes endian PC := PC_createInstr version endian bytes PC
  fresh_createInstr bytes endian PC := createInstr_fresh version endian bytes PC

def isa (version : MipsVersion) : ISA version.width := isaOf version version.width

end Mips

end MiptMips
