import MiptMips.FuncSim.Rf
import MiptMips.FuncSim.Alu

/-!
# Instruction sets

What a simulator takes from an instruction set: the size of the register file, the decoder and the
exception driver. The driver reads and writes registers and may set the program counter.
-/

namespace MiptMips

/-- What a driver does with a retired instruction. -/
structure DriverResult (w : ℕ) where
  rf : RF w
  /-- The argument of `set_pc`, when it is called. -/
  pc : Option Addr
  trap : Trap

/-- The state of an instruction right after its construction. -/
structure FuncInstr.Fresh {w : ℕ} (instr : FuncInstr w) : Prop where
  trap : instr.trap = .noTrap
  memAddr : instr.memAddr = NO_VAL32.setWidth 64
  isTakenBranch : instr.isTakenBranch = false
  vDst0 : instr.vDst0 = NO_VAL32.setWidth w
  vDst1 : instr.vDst1 = NO_VAL32.setWidth w
  mask : instr.mask = allOnes w
  complete : instr.complete = false

structure ISA (w : ℕ) where
  maxReg : ℕ
  createInstr : BitVec 32 → Endian → Addr → FuncInstr w
  handleTrap : RF w → FuncInstr w → Except SimException (DriverResult w)
  raw_createInstr : ∀ bytes endian PC, (createInstr bytes endian PC).raw = bytes
  PC_createInstr : ∀ bytes endian PC, (createInstr bytes endian PC).PC = PC
  fresh_createInstr : ∀ bytes endian PC, (createInstr bytes endian PC).Fresh

end MiptMips
