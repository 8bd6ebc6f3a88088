import MiptMips.Mips.Decode

/-!
# MIPS instruction tables

One table for each field that selects an instruction, in the order of the source, with the same
columns: name, execution unit, type, access size, immediate, operands, results and the versions
that have the instruction. The floating-point instructions are in the tables, but all of them are
executed as unknown instructions.
-/

namespace MiptMips

structure MipsTableEntry where
  name : String
  function : Executor
  operation : OperationType
  memSize : ℕ
  immType : Char
  src : List MipsReg
  dst : List MipsReg
  versions : MipsVersionMask
  deriving DecidableEq, Repr

namespace MipsTable

abbrev Table := List (ℕ × MipsTableEntry)

def unknownInstruction : MipsTableEntry :=
  ⟨"Unknown instruction", .unknownInstruction, .outArithm, 0, 'N', [], [.zero], mipsI⟩

def instrNop : MipsTableEntry := ⟨"nop", .doNothing, .outArithm, 0, 'N', [], [.zero], mipsI⟩

def isaMapR : Table := [
  (0x0, ⟨"sll", .sll 32, .outArithm, 0, 'S', [.rt], [.rd], mipsI⟩),
  (0x2, ⟨"srl", .srl 32, .outArithm, 0, 'S', [.rt], [.rd], mipsI⟩),
  (0x3, ⟨"sra", .sra 32, .outArithm, 0, 'S', [.rt], [.rd], mipsI⟩),
  (0x4, ⟨"sllv", .sllv 32, .outArithm, 0, 'N', [.rt, .rs], [.rd], mipsI⟩),
  (0x6, ⟨"srlv", .srlv 32, .outArithm, 0, 'N', [.rt, .rs], [.rd], mipsI⟩),
  (0x7, ⟨"srav", .srav 32, .outArithm, 0, 'N', [.rt, .rs], [.rd], mipsI⟩),
  (0x8, ⟨"jr", .jump .jr, .outRJump, 0, 'N', [.rs], [.zero], mipsI⟩),
  (0x9, ⟨"jalr", .jumpAndLink .jr, .outRJump, 0, 'N', [.rs], [.rd], mipsI⟩),
  (0xa, ⟨"movz", .movz, .outRCondm, 0, 'N', [.rs, .rt], [.rd], (mipsIV ++ mips32)⟩),
  (0xb, ⟨"movn", .movn, .outRCondm, 0, 'N', [.rs, .rt], [.rd], (mipsIV ++ mips32)⟩),
  (0xc, ⟨"syscall", .syscall, .outSyscall, 0, 'N', [], [.zero], mipsI⟩),
  (0xd, ⟨"break", .breakpoint, .outBreak, 0, 'N', [], [.zero], mipsI⟩),
  (0x10, ⟨"mfhi", .move, .outArithm, 0, 'N', [.hi], [.rd], mipsI⟩),
  (0x11, ⟨"mthi", .move, .outArithm, 0, 'N', [.rs], [.hi], mipsI⟩),
  (0x12, ⟨"mflo", .move, .outArithm, 0, 'N', [.lo], [.rd], mipsI⟩),
  (0x13, ⟨"mtlo", .move, .outArithm, 0, 'N', [.rs], [.lo], mipsI⟩),
  (0x14, ⟨"dsllv", .sllv 64, .outArithm, 0, 'N', [.rt, .rs], [.rd], mipsIII⟩),
  (0x16, ⟨"dsrlv", .srlv 64, .outArithm, 0, 'N', [.rt, .rs], [.rd], mipsIII⟩),
  (0x17, ⟨"dsrav", .srav 64, .outArithm, 0, 'N', [.rt, .rs], [.rd], mipsIII⟩),
  (0x18, ⟨"mult", .multiplication 32 true, .outDivmult, 0, 'N', [.rs, .rt], [.lo, .hi], mipsI⟩),
  (0x19, ⟨"multu", .multiplication 32 false, .outDivmult, 0, 'N', [.rs, .rt], [.lo, .hi], mipsI⟩),
  (0x1a, ⟨"div", .division 32 true, .outDivmult, 0, 'N', [.rs, .rt], [.lo, .hi], mipsI⟩),
  (0x1b, ⟨"divu", .division 32 false, .outDivmult, 0, 'N', [.rs, .rt], [.lo, .hi], mipsI⟩),
  (0x1c, ⟨"dmult", .multiplication 64 true, .outDivmult, 0, 'N',
    [.rs, .rt], [.lo, .hi], mipsIII⟩),
  (0x1d, ⟨"dmultu", .multiplication 64 false, .outDivmult, 0, 'N',
    [.rs, .rt], [.lo, .hi], mipsIII⟩),
  (0x1e, ⟨"ddiv", .division 64 true, .outDivmult, 0, 'N', [.rs, .rt], [.lo, .hi], mipsIII⟩),
  (0x1f, ⟨"ddivu", .division 64 false, .outDivmult, 0, 'N', [.rs, .rt], [.lo, .hi], mipsIII⟩),
  (0x20, ⟨"add", .additionOverflow 32, .outArithm, 0, 'N', [.rs, .rt], [.rd], mipsI⟩),
  (0x21, ⟨"addu", .addition 32, .outArithm, 0, 'N', [.rs, .rt], [.rd], mipsI⟩),
  (0x22, ⟨"sub", .subtractionOverflow 32, .outArithm, 0, 'N', [.rs, .rt], [.rd], mipsI⟩),
  (0x23, ⟨"subu", .subtraction 32, .outArithm, 0, 'N', [.rs, .rt], [.rd], mipsI⟩),
  (0x24, ⟨"and", .andv, .outArithm, 0, 'N', [.rs, .rt], [.rd], mipsI⟩),
  (0x25, ⟨"or", .orv, .outArithm, 0, 'N', [.rs, .rt], [.rd], mipsI⟩),
  (0x26, ⟨"xor", .xorv, .outArithm, 0, 'N', [.rs, .rt], [.rd], mipsI⟩),
  (0x27, ⟨"nor", .nor, .outArithm, 0, 'N', [.rs, .rt], [.rd], mipsI⟩),
  (0x2a, ⟨"slt", .set .lt, .outArithm, 0, 'N', [.rs, .rt], [.rd], mipsI⟩),
  (0x2b, ⟨"sltu", .set .ltu, .outArithm, 0, 'N', [.rs, .rt], [.rd], mipsI⟩),
  (0x2c, ⟨"dadd", .additionOverflow 64, .outArithm, 0, 'N', [.rs, .rt], [.rd], mipsIII⟩),
  (0x2d, ⟨"daddu", .addition 64, .outArithm, 0, 'N', [.rs, .rt], [.rd], mipsIII⟩),
  (0x2e, ⟨"dsub", .subtractionOverflow 64, .outArithm, 0, 'N', [.rs, .rt], [.rd], mipsIII⟩),
  (0x2f, ⟨"dsubu", .subtraction 64, .outArithm, 0, 'N', [.rs, .rt], [.rd], mipsIII⟩),
  (0x30, ⟨"tge", .trap .ge, .outTrap, 0, 'N', [.rs, .rt], [.zero], mipsII⟩),
  (0x31, ⟨"tgeu", .trap .geu, .outTrap, 0, 'N', [.rs, .rt], [.zero], mipsII⟩),
  (0x32, ⟨"tlt", .trap .lt, .outTrap, 0, 'N', [.rs, .rt], [.zero], mipsII⟩),
  (0x33, ⟨"tltu", .trap .ltu, .outTrap, 0, 'N', [.rs, .rt], [.zero], mipsII⟩),
  (0x34, ⟨"teq", .trap .eq, .outTrap, 0, 'N', [.rs, .rt], [.zero], mipsII⟩),
  (0x36, ⟨"tne", .trap .ne, .outTrap, 0, 'N', [.rs, .rt], [.zero], mipsII⟩),
  (0x38, ⟨"dsll", .sll 64, .outArithm, 0, 'S', [.rt], [.rd], mipsIII⟩),
  (0x3a, ⟨"dsrl", .srl 64, .outArithm, 0, 'S', [.rt], [.rd], mipsIII⟩),
  (0x3b, ⟨"dsra", .sra 64, .outArithm, 0, 'S', [.rt], [.rd], mipsIII⟩),
  (0x3c, ⟨"dsll32", .dsll32, .outArithm, 0, 'S', [.rt], [.rd], mipsIII⟩),
  (0x3e, ⟨"dsrl32", .dsrl32, .outArithm, 0, 'S', [.rt], [.rd], mipsIII⟩),
  (0x3f, ⟨"dsra32", .dsra32, .outArithm, 0, 'S', [.rt], [.rd], mipsIII⟩)]

def isaMapRI : Table := [
  (0x0, ⟨"bltz", .branch .ltz, .outBranch, 0, 'I', [.rs], [.zero], mipsI⟩),
  (0x1, ⟨"bgez", .branch .gez, .outBranch, 0, 'I', [.rs], [.zero], mipsI⟩),
  (0x2, ⟨"bltzl", .branch .ltz, .outBranchLikely, 0, 'I', [.rs], [.zero], mipsII⟩),
  (0x3, ⟨"bgezl", .branch .gez, .outBranchLikely, 0, 'I', [.rs], [.zero], mipsII⟩),
  (0x8, ⟨"tgei", .trap .gei, .outTrap, 0, 'I', [.rs], [.zero], mipsII⟩),
  (0x9, ⟨"tgeiu", .trap .geiu, .outTrap, 0, 'I', [.rs], [.zero], mipsII⟩),
  (0xa, ⟨"tlti", .trap .lti, .outTrap, 0, 'I', [.rs], [.zero], mipsII⟩),
  (0xb, ⟨"tltiu", .trap .ltiu, .outTrap, 0, 'I', [.rs], [.zero], mipsII⟩),
  (0xc, ⟨"teqi", .trap .eqi, .outTrap, 0, 'I', [.rs], [.zero], mipsII⟩),
  (0xe, ⟨"tnei", .trap .nei, .outTrap, 0, 'I', [.rs], [.zero], mipsII⟩),
  (0x10, ⟨"bltzal", .branchAndLink .ltz, .outBranch, 0, 'I', [.rs], [.ra], mipsI⟩),
  (0x11, ⟨"bgezal", .branchAndLink .gez, .outBranch, 0, 'I', [.rs], [.ra], mipsI⟩),
  (0x12, ⟨"bltzall", .branchAndLink .ltz, .outBranchLikely, 0, 'I', [.rs], [.ra], mipsII⟩),
  (0x13, ⟨"bgezall", .branchAndLink .gez, .outBranchLikely, 0, 'I', [.rs], [.ra], mipsII⟩)]

def isaMapIJ : Table := [
  (0x2, ⟨"j", .jump .j, .outJJump, 0, 'J', [], [.zero], mipsI⟩),
  (0x3, ⟨"jal", .jumpAndLink .j, .outJJump, 0, 'J', [], [.ra], mipsI⟩),
  (0x4, ⟨"beq", .branch .eq, .outBranch, 0, 'I', [.rs, .rt], [.zero], mipsI⟩),
  (0x5, ⟨"bne", .branch .ne, .outBranch, 0, 'I', [.rs, .rt], [.zero], mipsI⟩),
  (0x6, ⟨"blez", .branch .lez, .outBranch, 0, 'I', [.rs], [.zero], mipsI⟩),
  (0x7, ⟨"bgtz", .branch .gtz, .outBranch, 0, 'I', [.rs], [.zero], mipsI⟩),
  (0x8, ⟨"addi", .additionOverflowImm 32, .outArithm, 0, 'I', [.rs], [.rt], mipsI⟩),
  (0x9, ⟨"addiu", .additionImm 32, .outArithm, 0, 'I', [.rs], [.rt], mipsI⟩),
  (0xa, ⟨"slti", .set .lti, .outArithm, 0, 'I', [.rs], [.rt], mipsI⟩),
  (0xb, ⟨"sltiu", .set .ltiu, .outArithm, 0, 'I', [.rs], [.rt], mipsI⟩),
  (0xc, ⟨"andi", .andi, .outArithm, 0, 'L', [.rs], [.rt], mipsI⟩),
  (0xd, ⟨"ori", .ori, .outArithm, 0, 'L', [.rs], [.rt], mipsI⟩),
  (0xe, ⟨"xori", .xori, .outArithm, 0, 'L', [.rs], [.rt], mipsI⟩),
  (0xf, ⟨"lui", .upperImmediate 16, .outArithm, 0, 'I', [], [.rt], mipsI⟩),
  (0x14, ⟨"beql", .branch .eq, .outBranchLikely, 0, 'I', [.rs, .rt], [.zero], mipsII⟩),
  (0x15, ⟨"bnel", .branch .ne, .outBranchLikely, 0, 'I', [.rs, .rt], [.zero], mipsII⟩),
  (0x16, ⟨"blezl", .branch .lez, .outBranchLikely, 0, 'I', [.rs, .rt], [.zero], mipsII⟩),
  (0x17, ⟨"bgtzl", .branch .gtz, .outBranchLikely, 0, 'I', [.rs, .rt], [.zero], mipsII⟩),
  (0x1a, ⟨"ldl", .loadAddr, .outLoad, 8, 'I', [.rs], [.rt], mipsIII⟩),
  (0x1b, ⟨"ldr", .loadAddr, .outLoad, 8, 'I', [.rs], [.rt], mipsIII⟩),
  (0x18, ⟨"daddi", .additionOverflowImm 64, .outArithm, 0, 'I', [.rs], [.rt], mipsIII⟩),
  (0x19, ⟨"daddiu", .additionImm 64, .outArithm, 0, 'I', [.rs], [.rt], mipsIII⟩),
  (0x20, ⟨"lb", .loadAddr, .outLoad, 1, 'I', [.rs], [.rt], mipsI⟩),
  (0x21, ⟨"lh", .loadAddrAligned, .outLoad, 2, 'I', [.rs], [.rt], mipsI⟩),
  (0x22, ⟨"lwl", .loadAddrLeft32, .outPartialLoad, 4, 'I', [.rs], [.rt], mipsI⟩),
  (0x23, ⟨"lw", .loadAddrAligned, .outLoad, 4, 'I', [.rs], [.rt], mipsI⟩),
  (0x24, ⟨"lbu", .loadAddr, .outLoadu, 1, 'I', [.rs], [.rt], mipsI⟩),
  (0x25, ⟨"lhu", .loadAddrAligned, .outLoadu, 2, 'I', [.rs], [.rt], mipsI⟩),
  (0x26, ⟨"lwr", .loadAddrRight32, .outPartialLoad, 4, 'I', [.rs], [.rt], mipsI⟩),
  (0x27, ⟨"lwu", .loadAddrAligned, .outLoadu, 4, 'I', [.rs], [.rt], mipsI⟩),
  (0x28, ⟨"sb", .storeAddr, .outStore, 1, 'I', [.rs, .rt], [.zero], mipsI⟩),
  (0x29, ⟨"sh", .storeAddrAligned, .outStore, 2, 'I', [.rs, .rt], [.zero], mipsI⟩),
  (0x2a, ⟨"swl", .storeAddrLeft32, .outStore, 4, 'I', [.rs, .rt], [.zero], mipsI⟩),
  (0x2b, ⟨"sw", .storeAddrAligned, .outStore, 4, 'I', [.rs, .rt], [.zero], mipsI⟩),
  (0x2c, ⟨"sdl", .storeAddr, .outStore, 8, 'I', [.rs, .rt], [.zero], mipsIII⟩),
  (0x2d, ⟨"sdr", .storeAddr, .outStore, 8, 'I', [.rs, .rt], [.zero], mipsIII⟩),
  (0x2e, ⟨"swr", .storeAddrRight32, .outStore, 4, 'I', [.rs, .rt], [.zero], mipsI⟩),
  (0x30, ⟨"ll", .loadAddrAligned, .outLoad, 2, 'I', [.rs], [.rt], mipsI⟩),
  (0x31, ⟨"lwc1", .unknownInstruction, .outLoad, 4, 'I', [.rs], [.ft], mipsI⟩),
  (0x35, ⟨"ldc1", .unknownInstruction, .outLoad, 8, 'I', [.rs], [.ft], mipsII⟩),
  (0x37, ⟨"ld", .loadAddrAligned, .outLoad, 8, 'I', [.rs], [.rt], mipsIII⟩),
  (0x38, ⟨"sc", .storeAddrAligned, .outStore, 2, 'I', [.rs, .rt], [.zero], mipsI⟩),
  (0x39, ⟨"swc1", .unknownInstruction, .outStore, 4, 'I', [.rs], [.ft], mipsI⟩),
  (0x3d, ⟨"sdc1", .unknownInstruction, .outStore, 8, 'I', [.rs], [.ft], mipsII⟩),
  (0x3f, ⟨"sd", .storeAddrAligned, .outStore, 8, 'I', [.rs, .rt], [.zero], mipsIII⟩)]

def isaMapMips32 : Table := [
  (0x00, ⟨"madd", .multiplication 32 true, .outRAccum, 0, 'N', [.rs, .rt], [.lo, .hi], mips32⟩),
  (0x01, ⟨"maddu", .multiplication 32 false, .outRAccum, 0, 'N', [.rs, .rt], [.lo, .hi], mips32⟩),
  (0x02, ⟨"mul", .multiplication 32 true, .outArithm, 0, 'N', [.rs, .rt], [.rd], mips32⟩),
  (0x04, ⟨"msub", .multiplication 32 true, .outRSubtr, 0, 'N', [.rs, .rt], [.lo, .hi], mips32⟩),
  (0x05, ⟨"msubu", .multiplication 32 false, .outRSubtr, 0, 'N', [.rs, .rt], [.lo, .hi], mips32⟩),
  (0x20, ⟨"clz", .clz 32, .outArithm, 0, 'N', [.rs], [.rd], mips32⟩),
  (0x21, ⟨"clo", .clo 32, .outArithm, 0, 'N', [.rs], [.rd], mips32⟩),
  (0x24, ⟨"dclz", .clz 64, .outArithm, 0, 'N', [.rs], [.rd], mips64⟩),
  (0x25, ⟨"dclo", .clo 64, .outArithm, 0, 'N', [.rs], [.rd], mips64⟩)]

def isaMapCop0Rs : Table := [
  (0x00, ⟨"mfc0", .move, .outArithm, 0, 'N', [.cp0Rd], [.rt], mipsI⟩),
  (0x04, ⟨"mtc0", .move, .outArithm, 0, 'N', [.rt], [.cp0Rd], mipsI⟩)]

def isaMapCop0Funct : Table := [
  (0x18, ⟨"eret", .eret, .outRJump, 0, 'N', [.epc, .sr], [.sr], mipsI⟩)]

def isaMapCop1 : Table := [
  (0x00, ⟨"mfc1", .unknownInstruction, .outFpu, 0, 'N', [.fs], [.rt], mipsI⟩),
  (0x01, ⟨"dmfc1", .unknownInstruction, .outFpu, 0, 'N', [.fs], [.rt], mipsIII⟩),
  (0x02, ⟨"cfc1", .unknownInstruction, .outFpu, 0, 'N', [.fs], [.rt], mipsI⟩),
  (0x04, ⟨"mtc1", .unknownInstruction, .outFpu, 0, 'N', [.rt], [.fs], mipsI⟩),
  (0x05, ⟨"dmtc1", .unknownInstruction, .outFpu, 0, 'N', [.rt], [.fs], mipsIII⟩),
  (0x06, ⟨"ctc1", .unknownInstruction, .outFpu, 0, 'N', [.rt], [.fs], mipsIII⟩)]

def isaMapCop1S : Table := [
  (0x00, ⟨"add.s", .unknownInstruction, .outFpu, 0, 'N', [.fs, .ft], [.fd], mipsI⟩),
  (0x01, ⟨"sub.s", .unknownInstruction, .outFpu, 0, 'N', [.fs, .ft], [.fd], mipsI⟩),
  (0x02, ⟨"mul.s", .unknownInstruction, .outFpu, 0, 'N', [.fs, .ft], [.fd], mipsI⟩),
  (0x03, ⟨"div.s", .unknownInstruction, .outFpu, 0, 'N', [.fs, .ft], [.fd], mipsI⟩),
  (0x04, ⟨"sqrt.s", .unknownInstruction, .outFpu, 0, 'N', [.fs], [.fd], mipsII⟩),
  (0x05, ⟨"abs.s", .unknownInstruction, .outFpu, 0, 'N', [.fs], [.fd], mipsI⟩),
  (0x06, ⟨"mov.s", .unknownInstruction, .outFpu, 0, 'N', [.fs], [.fd], mipsI⟩),
  (0x07, ⟨"neg.s", .unknownInstruction, .outFpu, 0, 'N', [.fs], [.fd], mipsI⟩),
  (0x08, ⟨"round.l.s", .unknownInstruction, .outFpu, 0, 'N', [.fs], [.fd], mipsIII⟩),
  (0x09, ⟨"trunc.l.s", .unknownInstruction, .outFpu, 0, 'N', [.fs], [.fd], mipsIII⟩),
  (0x0a, ⟨"ceil.l.s", .unknownInstruction, .outFpu, 0, 'N', [.fs], [.fd], mipsIII⟩),
  (0x0b, ⟨"floor.l.s", .unknownInstruction, .outFpu, 0, 'N', [.fs], [.fd], mipsIII⟩),
  (0x0c, ⟨"round.w.s", .unknownInstruction, .outFpu, 0, 'N', [.fs], [.fd], mipsII⟩),
  (0x0d, ⟨"trunc.w.s", .unknownInstruction, .outFpu, 0, 'N', [.fs], [.fd], mipsII⟩),
  (0x0e, ⟨"ceil.w.s", .unknownInstruction, .outFpu, 0, 'N', [.fs], [.fd], mipsII⟩),
  (0x0f, ⟨"floor.w.s", .unknownInstruction, .outFpu, 0, 'N', [.fs], [.fd], mipsII⟩),
  (0x12, ⟨"movz.s", .unknownInstruction, .outFpu, 0, 'N', [.fs, .rt], [.fd], mipsIV⟩),
  (0x13, ⟨"movn.s", .unknownInstruction, .outFpu, 0, 'N', [.fs, .rt], [.fd], mipsIV⟩),
  (0x15, ⟨"recip.s", .unknownInstruction, .outFpu, 0, 'N', [.fs], [.fd], mipsIV⟩),
  (0x16, ⟨"rsqrt.s", .unknownInstruction, .outFpu, 0, 'N', [.fs], [.fd], mipsIV⟩),
  (0x21, ⟨"cvt.d.s", .unknownInstruction, .outFpu, 0, 'N', [.fs], [.fd], mipsI⟩),
  (0x24, ⟨"cvt.w.s", .unknownInstruction, .outFpu, 0, 'N', [.fs], [.fd], mipsI⟩),
  (0x25, ⟨"cvt.l.s", .unknownInstruction, .outFpu, 0, 'N', [.fs], [.fd], mipsIII⟩),
  (0x30, ⟨"c.f.s", .unknownInstruction, .outFpu, 0, 'N', [.fs, .ft], [.fcsr], mipsI⟩),
  (0x31, ⟨"c.un.s", .unknownInstruction, .outFpu, 0, 'N', [.fs, .ft], [.fcsr], mipsI⟩),
  (0x32, ⟨"c.eq.s", .unknownInstruction, .outFpu, 0, 'N', [.fs, .ft], [.fcsr], mipsI⟩),
  (0x33, ⟨"c.ueq.s", .unknownInstruction, .outFpu, 0, 'N', [.fs, .ft], [.fcsr], mipsI⟩),
  (0x34, ⟨"c.olt.s", .unknownInstruction, .outFpu, 0, 'N', [.fs, .ft], [.fcsr], mipsI⟩),
  (0x35, ⟨"c.ult.s", .unknownInstruction, .outFpu, 0, 'N', [.fs, .ft], [.fcsr], mipsI⟩),
  (0x36, ⟨"c.ole.s", .unknownInstruction, .outFpu, 0, 'N', [.fs, .ft], [.fcsr], mipsI⟩),
  (0x37, ⟨"c.ule.s", .unknownInstruction, .outFpu, 0, 'N', [.fs, .ft], [.fcsr], mipsI⟩),
  (0x38, ⟨"c.sf.s", .unknownInstruction, .outFpu, 0, 'N', [.fs, .ft], [.fcsr], mipsI⟩),
  (0x39, ⟨"c.ngle.s", .unknownInstruction, .outFpu, 0, 'N', [.fs, .ft], [.fcsr], mipsI⟩),
  (0x3a, ⟨"c.seq.s", .unknownInstruction, .outFpu, 0, 'N', [.fs, .ft], [.fcsr], mipsI⟩),
  (0x3b, ⟨"c.ngl.s", .unknownInstruction, .outFpu, 0, 'N', [.fs, .ft], [.fcsr], mipsI⟩),
  (0x3c, ⟨"c.lt.s", .unknownInstruction, .outFpu, 0, 'N', [.fs, .ft], [.fcsr], mipsI⟩),
  (0x3d, ⟨"c.nge.s", .unknownInstruction, .outFpu, 0, 'N', [.fs, .ft], [.fcsr], mipsI⟩),
  (0x3e, ⟨"c.le.s", .unknownInstruction, .outFpu, 0, 'N', [.fs, .ft], [.fcsr], mipsI⟩),
  (0x3f, ⟨"c.ngt.s", .unknownInstruction, .outFpu, 0, 'N', [.fs, .ft], [.fcsr], mipsI⟩)]

def isaMapCop1D : Table := [
  (0x00, ⟨"add.d", .unknownInstruction, .outFpu, 0, 'N', [.fs, .ft], [.fd], mipsI⟩),
  (0x01, ⟨"sub.d", .unknownInstruction, .outFpu, 0, 'N', [.fs, .ft], [.fd], mipsI⟩),
  (0x02, ⟨"mul.d", .unknownInstruction, .outFpu, 0, 'N', [.fs, .ft], [.fd], mipsI⟩),
  (0x03, ⟨"div.d", .unknownInstruction, .outFpu, 0, 'N', [.fs, .ft], [.fd], mipsI⟩),
  (0x04, ⟨"sqrt.d", .unknownInstruction, .outFpu, 0, 'N', [.fs], [.fd], mipsII⟩),
  (0x05, ⟨"abs.d", .unknownInstruction, .outFpu, 0, 'N', [.fs], [.fd], mipsI⟩),
  (0x06, ⟨"mov.d", .unknownInstruction, .outFpu, 0, 'N', [.fs], [.fd], mipsI⟩),
  (0x07, ⟨"neg.d", .unknownInstruction, .outFpu, 0, 'N', [.fs], [.fd], mipsI⟩),
  (0x08, ⟨"round.l.d", .unknownInstruction, .outFpu, 0, 'N', [.fs], [.fd], mipsIII⟩),
  (0x09, ⟨"trunc.l.d", .unknownInstruction, .outFpu, 0, 'N', [.fs], [.fd], mipsIII⟩),
  (0x0a, ⟨"ceil.l.d", .unknownInstruction, .outFpu, 0, 'N', [.fs], [.fd], mipsIII⟩),
  (0x0b, ⟨"floor.l.d", .unknownInstruction, .outFpu, 0, 'N', [.fs], [.fd], mipsIII⟩),
  (0x0c, ⟨"round.w.d", .unknownInstruction, .outFpu, 0, 'N', [.fs], [.fd], mipsII⟩),
  (0x0d, ⟨"trunc.w.d", .unknownInstruction, .outFpu, 0, 'N', [.fs], [.fd], mipsII⟩),
  (0x0e, ⟨"ceil.w.d", .unknownInstruction, .outFpu, 0, 'N', [.fs], [.fd], mipsII⟩),
  (0x0f, ⟨"floor.w.d", .unknownInstruction, .outFpu, 0, 'N', [.fs], [.fd], mipsII⟩),
  (0x12, ⟨"movz.d", .unknownInstruction, .outFpu, 0, 'N', [.fs, .rt], [.fd], mipsIV⟩),
  (0x13, ⟨"movn.d", .unknownInstruction, .outFpu, 0, 'N', [.fs, .rt], [.fd], mipsIV⟩),
  (0x15, ⟨"recip.d", .unknownInstruction, .outFpu, 0, 'N', [.fs], [.fd], mipsIV⟩),
  (0x16, ⟨"rsqrt.d", .unknownInstruction, .outFpu, 0, 'N', [.fs], [.fd], mipsIV⟩),
  (0x20, ⟨"cvt.s.d", .unknownInstruction, .outFpu, 0, 'N', [.fs], [.fd], mipsI⟩),
  (0x24, ⟨"cvt.w.d", .unknownInstruction, .outFpu, 0, 'N', [.fs], [.fd], mipsI⟩),
  (0x25, ⟨"cvt.l.d", .unknownInstruction, .outFpu, 0, 'N', [.fs], [.fd], mipsIII⟩),
  (0x30, ⟨"c.f.d", .unknownInstruction, .outFpu, 0, 'N', [.fs, .ft], [.fcsr], mipsI⟩),
  (0x31, ⟨"c.un.d", .unknownInstruction, .outFpu, 0, 'N', [.fs, .ft], [.fcsr], mipsI⟩),
  (0x32, ⟨"c.eq.d", .unknownInstruction, .outFpu, 0, 'N', [.fs, .ft], [.fcsr], mipsI⟩),
  (0x33, ⟨"c.ueq.d", .unknownInstruction, .outFpu, 0, 'N', [.fs, .ft], [.fcsr], mipsI⟩),
  (0x34, ⟨"c.olt.d", .unknownInstruction, .outFpu, 0, 'N', [.fs, .ft], [.fcsr], mipsI⟩),
  (0x35, ⟨"c.ult.d", .unknownInstruction, .outFpu, 0, 'N', [.fs, .ft], [.fcsr], mipsI⟩),
  (0x36, ⟨"c.ole.d", .unknownInstruction, .outFpu, 0, 'N', [.fs, .ft], [.fcsr], mipsI⟩),
  (0x37, ⟨"c.ule.d", .unknownInstruction, .outFpu, 0, 'N', [.fs, .ft], [.fcsr], mipsI⟩),
  (0x38, ⟨"c.sf.d", .unknownInstruction, .outFpu, 0, 'N', [.fs, .ft], [.fcsr], mipsI⟩),
  (0x39, ⟨"c.ngle.d", .unknownInstruction, .outFpu, 0, 'N', [.fs, .ft], [.fcsr], mipsI⟩),
  (0x3a, ⟨"c.seq.d", .unknownInstruction, .outFpu, 0, 'N', [.fs, .ft], [.fcsr], mipsI⟩),
  (0x3b, ⟨"c.ngl.d", .unknownInstruction, .outFpu, 0, 'N', [.fs, .ft], [.fcsr], mipsI⟩),
  (0x3c, ⟨"c.lt.d", .unknownInstruction, .outFpu, 0, 'N', [.fs, .ft], [.fcsr], mipsI⟩),
  (0x3d, ⟨"c.nge.d", .unknownInstruction, .outFpu, 0, 'N', [.fs, .ft], [.fcsr], mipsI⟩),
  (0x3e, ⟨"c.le.d", .unknownInstruction, .outFpu, 0, 'N', [.fs, .ft], [.fcsr], mipsI⟩),
  (0x3f, ⟨"c.ngt.d", .unknownInstruction, .outFpu, 0, 'N', [.fs, .ft], [.fcsr], mipsI⟩)]

def isaMapCop1L : Table := [
  (0x20, ⟨"cvt.s.l", .unknownInstruction, .outFpu, 0, 'N', [.fs], [.fd], mipsIII⟩),
  (0x21, ⟨"cvt.d.l", .unknownInstruction, .outFpu, 0, 'N', [.fs], [.fd], mipsIII⟩)]

def isaMapCop1W : Table := [
  (0x20, ⟨"cvt.s.w", .unknownInstruction, .outFpu, 0, 'N', [.fs], [.fd], mipsI⟩),
  (0x21, ⟨"cvt.d.w", .unknownInstruction, .outFpu, 0, 'N', [.fs], [.fd], mipsI⟩)]

def isaMapCop1I : Table := [
  (0x0, ⟨"bc1f", .unknownInstruction, .outBranch, 0, 'I', [.fcsr], [.zero], mipsI⟩),
  (0x1, ⟨"bc1t", .unknownInstruction, .outBranch, 0, 'I', [.fcsr], [.zero], mipsI⟩),
  (0x2, ⟨"bc1fl", .unknownInstruction, .outBranch, 0, 'I', [.fcsr], [.zero], mipsI⟩),
  (0x3, ⟨"bc1tl", .unknownInstruction, .outBranch, 0, 'I', [.fcsr], [.zero], mipsI⟩)]

def isaMapCop1X : Table := [
  (0x0, ⟨"lwxc1", .unknownInstruction, .outLoad, 4, 'N', [.rs, .rt], [.fd], mipsIV⟩),
  (0x1, ⟨"ldxc1", .unknownInstruction, .outLoad, 8, 'N', [.rs, .rt], [.fd], mipsIV⟩),
  (0x8, ⟨"swxc1", .unknownInstruction, .outStore, 4, 'N', [.rs, .rt], [.fd], mipsIV⟩),
  (0x9, ⟨"sdxc1", .unknownInstruction, .outStore, 8, 'N', [.rs, .rt], [.fd], mipsIV⟩),
  (0x20, ⟨"madd.s", .unknownInstruction, .outFpu, 0, 'N', [.fr, .fs, .ft], [.fd], mipsIV⟩),
  (0x21, ⟨"madd.d", .unknownInstruction, .outFpu, 0, 'N', [.fr, .fs, .ft], [.fd], mipsIV⟩),
  (0x28, ⟨"msub.s", .unknownInstruction, .outFpu, 0, 'N', [.fr, .fs, .ft], [.fd], mipsIV⟩),
  (0x29, ⟨"msub.d", .unknownInstruction, .outFpu, 0, 'N', [.fr, .fs, .ft], [.fd], mipsIV⟩),
  (0x30, ⟨"nmadd.s", .unknownInstruction, .outFpu, 0, 'N', [.fr, .fs, .ft], [.fd], mipsIV⟩),
  (0x31, ⟨"nmadd.d", .unknownInstruction, .outFpu, 0, 'N', [.fr, .fs, .ft], [.fd], mipsIV⟩),
  (0x38, ⟨"nmsub.s", .unknownInstruction, .outFpu, 0, 'N', [.fr, .fs, .ft], [.fd], mipsIV⟩),
  (0x39, ⟨"nmsub.d", .unknownInstruction, .outFpu, 0, 'N', [.fr, .fs, .ft], [.fd], mipsIV⟩)]

def isaMapMovci : Table := [
  (0x0, ⟨"movf", .unknownInstruction, .outFpu, 0, 'N', [.rs, .fcsr], [.rd], mipsIV⟩),
  (0x1, ⟨"movt", .unknownInstruction, .outFpu, 0, 'N', [.rs, .fcsr], [.rd], mipsIV⟩)]

def isaMapMovcfD : Table := [
  (0x0, ⟨"movf.d", .unknownInstruction, .outFpu, 0, 'N', [.fs, .fcsr], [.fd], mipsIV⟩),
  (0x1, ⟨"movt.d", .unknownInstruction, .outFpu, 0, 'N', [.fs, .fcsr], [.fd], mipsIV⟩)]

def isaMapMovcfS : Table := [
  (0x0, ⟨"movf.s", .unknownInstruction, .outFpu, 0, 'N', [.fs, .fcsr], [.fd], mipsIV⟩),
  (0x1, ⟨"movt.s", .unknownInstruction, .outFpu, 0, 'N', [.fs, .fcsr], [.fd], mipsIV⟩)]

def allIsaMaps : List Table :=
  [isaMapR, isaMapRI, isaMapMips32, isaMapIJ, isaMapCop0Rs, isaMapCop0Funct, isaMapCop1,
    isaMapCop1X, isaMapCop1S, isaMapCop1D, isaMapCop1L, isaMapCop1W, isaMapCop1I, isaMapMovci,
    isaMapMovcfS, isaMapMovcfD]

section Lookup

open MipsInstrDecoder

def find (table : Table) (key : BitVec 32) : MipsTableEntry :=
  (table.lookup key.toNat).getD unknownInstruction

variable (raw : BitVec 32)

def getOpcodeSpecialEntry : MipsTableEntry :=
  if (funct raw).toNat = 0x1 then find isaMapMovci (ft raw) else find isaMapR (funct raw)

def getCop1SEntry : MipsTableEntry :=
  if (funct raw).toNat = 0x11 then find isaMapMovcfS (ft raw) else find isaMapCop1S (funct raw)

def getCop1DEntry : MipsTableEntry :=
  if (funct raw).toNat = 0x11 then find isaMapMovcfD (ft raw) else find isaMapCop1D (funct raw)

def getCp0Entry : MipsTableEntry :=
  if (funct raw).toNat = 0x0 then find isaMapCop0Rs (rs raw) else find isaMapCop0Funct (funct raw)

def getCp1Entry : MipsTableEntry :=
  match (fmt raw).toNat with
  | 0x8 => find isaMapCop1I (ft raw)
  | 0x10 => getCop1SEntry raw
  | 0x11 => getCop1DEntry raw
  | 0x14 => find isaMapCop1W (funct raw)
  | 0x15 => find isaMapCop1L (funct raw)
  | _ => find isaMapCop1 (fmt raw)

def getTableEntry : MipsTableEntry :=
  if raw = 0#32 then instrNop
  else
    match (opcode raw).toNat with
    | 0x0 => getOpcodeSpecialEntry raw
    | 0x1 => find isaMapRI (rt raw)
    | 0x10 => getCp0Entry raw
    | 0x11 => getCp1Entry raw
    | 0x13 => find isaMapCop1X (funct raw)
    | 0x1c => find isaMapMips32 (funct raw)
    | _ => find isaMapIJ (opcode raw)

end Lookup

section Entries

/-- Every entry a word can be decoded to. -/
def entries : List MipsTableEntry :=
  unknownInstruction :: instrNop :: allIsaMaps.flatMap fun table => table.map (·.2)

theorem find_mem {table : Table} (h : table ∈ allIsaMaps) (key : BitVec 32) :
    find table key ∈ entries := by
  unfold find
  rcases hl : table.lookup key.toNat with _ | e
  · exact List.mem_cons_self
  · have hm : (key.toNat, e) ∈ table := by
      obtain ⟨l₁, l₂, h, -⟩ := List.lookup_eq_some_iff.1 hl
      rw [h]
      simp
    exact List.mem_cons_of_mem _ (List.mem_cons_of_mem _
      (List.mem_flatMap.2 ⟨table, h, List.mem_map.2 ⟨_, hm, rfl⟩⟩))

theorem getTableEntry_mem (raw : BitVec 32) : getTableEntry raw ∈ entries := by
  have hs : getCop1SEntry raw ∈ entries := by
    unfold getCop1SEntry
    split <;> exact find_mem (by decide) _
  have hd : getCop1DEntry raw ∈ entries := by
    unfold getCop1DEntry
    split <;> exact find_mem (by decide) _
  have h1 : getCp1Entry raw ∈ entries := by
    unfold getCp1Entry
    split
    · exact find_mem (by decide) _
    · exact hs
    · exact hd
    all_goals exact find_mem (by decide) _
  unfold getTableEntry
  split
  · exact List.mem_cons_of_mem _ List.mem_cons_self
  · split
    · unfold getOpcodeSpecialEntry
      split <;> exact find_mem (by decide) _
    · exact find_mem (by decide) _
    · unfold getCp0Entry
      split <;> exact find_mem (by decide) _
    · exact h1
    all_goals exact find_mem (by decide) _

end Entries

end MipsTable

end MiptMips
