import MiptMips.Infra.Macro

/-!
# Traps

The traps an instruction can end with and the exception codes the drivers put into the cause
registers. The codes of the RISC-V privileged specification come from a generated header; they are
a parameter.
-/

namespace MiptMips

inductive Trap where
  | noTrap
  | halt
  | breakpoint
  | explicitTrap
  | syscall
  | integerOverflow
  | unsupportedSyscall
  | unknownInstruction
  | reservedInstruction
  | coprocessorUnusable
  | unalignedLoad
  | unalignedStore
  | unalignedFetch
  | fpOverflow
  | fpUnderflow
  | fpDivByZero
  deriving DecidableEq, Repr

/-- The `CAUSE_*` codes of the generated opcode header. -/
structure RiscVCauses where
  breakpoint : BitVec 8
  userEcall : BitVec 8
  illegalInstruction : BitVec 8
  misalignedLoad : BitVec 8
  misalignedStore : BitVec 8
  misalignedFetch : BitVec 8

namespace Trap

def toRiscvFormat (c : RiscVCauses) : Trap → BitVec 8
  | noTrap | halt => 0x10#8
  | breakpoint | explicitTrap => c.breakpoint
  | syscall => c.userEcall
  | integerOverflow | unsupportedSyscall => 0x10#8
  | unknownInstruction | reservedInstruction | coprocessorUnusable => c.illegalInstruction
  | unalignedLoad => c.misalignedLoad
  | unalignedStore => c.misalignedStore
  | unalignedFetch => c.misalignedFetch
  | fpOverflow | fpUnderflow | fpDivByZero => 0x10#8

def toMipsFormat : Trap → BitVec 8
  | noTrap | halt => 0#8
  | breakpoint => 13#8
  | explicitTrap => 9#8
  | syscall => 8#8
  | integerOverflow => 12#8
  | unsupportedSyscall => 0#8
  | unknownInstruction | reservedInstruction => 10#8
  | coprocessorUnusable => 11#8
  | unalignedLoad => 4#8
  | unalignedStore => 5#8
  | unalignedFetch => 4#8
  | fpOverflow => 16#8
  | fpUnderflow => 17#8
  | fpDivByZero => 15#8

end Trap

end MiptMips
