import MiptMips.FuncSim.Isa
import MiptMips.RiscV.Decode

/-!
# RISC-V instructions

The instruction table is searched in order for the first entry whose match word the masked bytes
give and that the register width has. Its first entry is the invalid instruction, which any word
with sixteen low zeroes is.
-/

namespace MiptMips

structure RiscVTableEntry where
  subset : Char
  /-- The match and the mask. -/
  entry : BitVec 32 × BitVec 32
  function : Executor
  type : OperationType
  immediateType : RiscVImmediate
  src : List RiscVReg
  dst : List RiscVReg
  memSize : ℕ
  /-- The register widths that have the instruction. -/
  bitWidth : List ℕ

namespace RiscV

variable (opcodes : RiscVOpcodes) (w : ℕ)

section Table

def invalidInstr : RiscVTableEntry :=
  ⟨'I', (0x0#32, 0xffff#32), .unknownInstruction, .outArithm, .none, [.zero, .zero], [.zero], 0,
    [32, 64, 128]⟩

/-- The table, given the opcodes of the header. -/
def cmdDescOf (opc : String → BitVec 32 × BitVec 32) : List RiscVTableEntry := [
  invalidInstr,
  ⟨'I', opc "lui", .upperImmediate 12, .outArithm, .U, [.zero, .zero], [.rd], 0, [32, 64, 128]⟩,
  ⟨'I', opc "auipc", .auipc, .outArithm, .U, [.zero, .zero], [.rd], 0, [32, 64, 128]⟩,
  ⟨'I', opc "jal", .jumpAndLink .j, .outJJump, .J, [.zero, .zero], [.rd], 0, [32, 64, 128]⟩,
  ⟨'I', opc "jalr", .jumpAndLink .riscvJr, .outRJump, .I, [.rs1, .zero], [.rd], 0, [32, 64, 128]⟩,
  ⟨'I', opc "beq", .branch .eq, .outBranch, .B, [.rs1, .rs2], [.zero], 0, [32, 64, 128]⟩,
  ⟨'I', opc "bne", .branch .ne, .outBranch, .B, [.rs1, .rs2], [.zero], 0, [32, 64, 128]⟩,
  ⟨'I', opc "blt", .branch .lt, .outBranch, .B, [.rs1, .rs2], [.zero], 0, [32, 64, 128]⟩,
  ⟨'I', opc "bge", .branch .ge, .outBranch, .B, [.rs1, .rs2], [.zero], 0, [32, 64, 128]⟩,
  ⟨'I', opc "bltu", .branch .ltu, .outBranch, .B, [.rs1, .rs2], [.zero], 0, [32, 64, 128]⟩,
  ⟨'I', opc "bgeu", .branch .geu, .outBranch, .B, [.rs1, .rs2], [.zero], 0, [32, 64, 128]⟩,
  ⟨'I', opc "lb", .addr, .outLoad, .I, [.rs1, .zero], [.rd], 1, [32, 64, 128]⟩,
  ⟨'I', opc "lh", .addr, .outLoad, .I, [.rs1, .zero], [.rd], 2, [32, 64, 128]⟩,
  ⟨'I', opc "lw", .addr, .outLoad, .I, [.rs1, .zero], [.rd], 4, [32, 64, 128]⟩,
  ⟨'I', opc "ld", .addr, .outLoad, .I, [.rs1, .zero], [.rd], 8, [64, 128]⟩,
  ⟨'I', opc "lbu", .addr, .outLoadu, .I, [.rs1, .zero], [.rd], 1, [32, 64, 128]⟩,
  ⟨'I', opc "lhu", .addr, .outLoadu, .I, [.rs1, .zero], [.rd], 2, [32, 64, 128]⟩,
  ⟨'I', opc "lwu", .addr, .outLoadu, .I, [.rs1, .zero], [.rd], 4, [32, 64, 128]⟩,
  ⟨'I', opc "sb", .storeAddr, .outStore, .S, [.rs1, .rs2], [.zero], 1, [32, 64, 128]⟩,
  ⟨'I', opc "sh", .storeAddr, .outStore, .S, [.rs1, .rs2], [.zero], 2, [32, 64, 128]⟩,
  ⟨'I', opc "sw", .storeAddr, .outStore, .S, [.rs1, .rs2], [.zero], 4, [32, 64, 128]⟩,
  ⟨'I', opc "sd", .storeAddr, .outStore, .S, [.rs1, .rs2], [.zero], 8, [64, 128]⟩,
  ⟨'I', opc "addi", .riscvAdditionImm w, .outArithm, .I, [.rs1, .zero], [.rd], 0, [32, 64, 128]⟩,
  ⟨'I', opc "slli", .sll w, .outArithm, .seven, [.rs1, .zero], [.rd], 0, [32, 64, 128]⟩,
  ⟨'I', opc "srli", .srl w, .outArithm, .seven, [.rs1, .zero], [.rd], 0, [32, 64, 128]⟩,
  ⟨'I', opc "srai", .sra w, .outArithm, .seven, [.rs1, .zero], [.rd], 0, [32, 64, 128]⟩,
  ⟨'I', opc "addiw", .riscvAdditionImm 32, .outArithm, .I, [.rs1, .zero], [.rd], 0, [64, 128]⟩,
  ⟨'I', opc "slliw", .sll 32, .outArithm, .five, [.rs1, .zero], [.rd], 0, [64, 128]⟩,
  ⟨'I', opc "srliw", .srl 32, .outArithm, .five, [.rs1, .zero], [.rd], 0, [64, 128]⟩,
  ⟨'I', opc "sraiw", .sra 32, .outArithm, .five, [.rs1, .zero], [.rd], 0, [64, 128]⟩,
  ⟨'I', opc "addid", .riscvAdditionImm 64, .outArithm, .I, [.rs1, .zero], [.rd], 0, [128]⟩,
  ⟨'I', opc "sllid", .sll 64, .outArithm, .six, [.rs1, .zero], [.rd], 0, [128]⟩,
  ⟨'I', opc "srlid", .srl 64, .outArithm, .six, [.rs1, .zero], [.rd], 0, [128]⟩,
  ⟨'I', opc "sraid", .sra 64, .outArithm, .six, [.rs1, .zero], [.rd], 0, [128]⟩,
  ⟨'I', opc "slti", .set .lti, .outArithm, .I, [.rs1, .zero], [.rd], 0, [32, 64, 128]⟩,
  ⟨'I', opc "sltiu", .set .ltiu, .outArithm, .I, [.rs1, .zero], [.rd], 0, [32, 64, 128]⟩,
  ⟨'I', opc "xori", .xori, .outArithm, .I, [.rs1, .zero], [.rd], 0, [32, 64, 128]⟩,
  ⟨'I', opc "ori", .ori, .outArithm, .I, [.rs1, .zero], [.rd], 0, [32, 64, 128]⟩,
  ⟨'I', opc "andi", .andi, .outArithm, .I, [.rs1, .zero], [.rd], 0, [32, 64, 128]⟩,
  ⟨'I', opc "add", .riscvAddition w, .outArithm, .none, [.rs1, .rs2], [.rd], 0, [32, 64, 128]⟩,
  ⟨'I', opc "sub", .riscvSubtraction w, .outArithm, .none, [.rs1, .rs2], [.rd], 0, [32, 64, 128]⟩,
  ⟨'I', opc "sll", .sllv w, .outArithm, .none, [.rs1, .rs2], [.rd], 0, [32, 64, 128]⟩,
  ⟨'I', opc "sra", .srav w, .outArithm, .none, [.rs1, .rs2], [.rd], 0, [32, 64, 128]⟩,
  ⟨'I', opc "srl", .srlv w, .outArithm, .none, [.rs1, .rs2], [.rd], 0, [32, 64, 128]⟩,
  ⟨'I', opc "addw", .riscvAddition 32, .outArithm, .none, [.rs1, .rs2], [.rd], 0, [64, 128]⟩,
  ⟨'I', opc "subw", .riscvSubtraction 32, .outArithm, .none, [.rs1, .rs2], [.rd], 0, [64, 128]⟩,
  ⟨'I', opc "sllw", .sllv 32, .outArithm, .none, [.rs1, .rs2], [.rd], 0, [64, 128]⟩,
  ⟨'I', opc "sraw", .srav 32, .outArithm, .none, [.rs1, .rs2], [.rd], 0, [64, 128]⟩,
  ⟨'I', opc "srlw", .srlv 32, .outArithm, .none, [.rs1, .rs2], [.rd], 0, [64, 128]⟩,
  ⟨'I', opc "slt", .set .lt, .outArithm, .none, [.rs1, .rs2], [.rd], 0, [32, 64, 128]⟩,
  ⟨'I', opc "sltu", .set .ltu, .outArithm, .none, [.rs1, .rs2], [.rd], 0, [32, 64, 128]⟩,
  ⟨'I', opc "and", .andv, .outArithm, .none, [.rs1, .rs2], [.rd], 0, [32, 64, 128]⟩,
  ⟨'I', opc "xor", .xorv, .outArithm, .none, [.rs1, .rs2], [.rd], 0, [32, 64, 128]⟩,
  ⟨'I', opc "or", .orv, .outArithm, .none, [.rs1, .rs2], [.rd], 0, [32, 64, 128]⟩,
  ⟨'I', opc "ecall", .syscall, .outTrap, .none, [.zero, .zero], [.zero], 0, [32, 64, 128]⟩,
  ⟨'I', opc "ebreak", .breakpoint, .outTrap, .none, [.zero, .zero], [.zero], 0, [32, 64, 128]⟩,
  ⟨'I', opc "sret", .jumpAndLink .riscvJr, .outRJump, .none,
    [.sepc, .zero], [.zero], 0, [32, 64, 128]⟩,
  ⟨'I', opc "mret", .jumpAndLink .riscvJr, .outRJump, .none,
    [.mepc, .zero], [.zero], 0, [32, 64, 128]⟩,
  ⟨'I', opc "csrrw", .csrrw, .outArithm, .none, [.rs1, .csr], [.csr, .rd], 0, [32, 64, 128]⟩,
  ⟨'I', opc "csrrs", .csrrs, .outArithm, .none, [.rs1, .csr], [.csr, .rd], 0, [32, 64, 128]⟩,
  ⟨'I', opc "csrrwi", .csrrwi, .outArithm, .C, [.zero, .csr], [.csr, .rd], 0, [32, 64, 128]⟩,
  ⟨'I', opc "fence", .addr, .outLoad, .I, [.rs1, .zero], [.zero], 0, [32, 64, 128]⟩,
  ⟨'I', opc "fence_i", .addr, .outLoad, .I, [.rs1, .zero], [.zero], 0, [32, 64, 128]⟩,
  ⟨'M', opc "mul", .multL w, .outArithm, .none, [.rs1, .rs2], [.rd], 0, [32, 64, 128]⟩,
  ⟨'M', opc "mulh", .multHSs w, .outArithm, .none, [.rs1, .rs2], [.rd], 0, [32, 64, 128]⟩,
  ⟨'M', opc "mulhsu", .multHSu w, .outArithm, .none, [.rs1, .rs2], [.rd], 0, [32, 64, 128]⟩,
  ⟨'M', opc "mulhu", .multHUu w, .outArithm, .none, [.rs1, .rs2], [.rd], 0, [32, 64, 128]⟩,
  ⟨'M', opc "div", .div w true, .outArithm, .none, [.rs1, .rs2], [.rd], 0, [32, 64, 128]⟩,
  ⟨'M', opc "divu", .div w false, .outArithm, .none, [.rs1, .rs2], [.rd], 0, [32, 64, 128]⟩,
  ⟨'M', opc "rem", .rem w true, .outArithm, .none, [.rs1, .rs2], [.rd], 0, [32, 64, 128]⟩,
  ⟨'M', opc "remu", .rem w false, .outArithm, .none, [.rs1, .rs2], [.rd], 0, [32, 64, 128]⟩,
  ⟨'C', opc "c_ebreak", .breakpoint, .outBreak, .none, [.zero, .zero], [.zero], 0, [32, 64, 128]⟩,
  ⟨'C', opc "c_nop", .orv, .outArithm, .none, [.zero, .zero], [.zero], 0, [32, 64, 128]⟩,
  ⟨'C', opc "c_j", .jumpAndLink .j, .outBranch, .cJ, [.zero, .zero], [.zero], 0, [32, 64, 128]⟩,
  ⟨'C', opc "c_jal", .jumpAndLink .j, .outBranch, .cJ, [.zero, .zero], [.ra], 0, [32]⟩,
  ⟨'C', opc "c_jr", .jumpAndLink .riscvJr, .outBranch, .none,
    [.rd, .zero], [.zero], 0, [32, 64, 128]⟩,
  ⟨'C', opc "c_jalr", .jumpAndLink .riscvJr, .outBranch, .none,
    [.rd, .zero], [.ra], 0, [32, 64, 128]⟩,
  ⟨'C', opc "c_beqz", .branch .eq, .outBranch, .cB, [.rs1_3bit, .zero], [.zero], 0, [32, 64, 128]⟩,
  ⟨'C', opc "c_bnez", .branch .ne, .outBranch, .cB, [.rs1_3bit, .zero], [.zero], 0, [32, 64, 128]⟩,
  ⟨'C', opc "c_lwsp", .addr, .outLoad, .cLwsp, [.sp, .zero], [.rd], 4, [32, 64, 128]⟩,
  ⟨'C', opc "c_ldsp", .addr, .outLoad, .cLdsp, [.sp, .zero], [.rd], 8, [64, 128]⟩,
  ⟨'C', opc "c_lqsp", .addr, .outLoad, .cLqsp, [.sp, .zero], [.rd], 16, [128]⟩,
  ⟨'C', opc "c_lw", .addr, .outLoad, .cLw, [.rs1_3bit, .zero], [.rd_3bit], 4, [32, 64, 128]⟩,
  ⟨'C', opc "c_ld", .addr, .outLoad, .cLd, [.rs1_3bit, .zero], [.rd_3bit], 8, [64, 128]⟩,
  ⟨'C', opc "c_lq", .addr, .outLoad, .cLq, [.rs1_3bit, .zero], [.rd_3bit], 16, [128]⟩,
  ⟨'C', opc "c_swsp", .storeAddr, .outStore, .cSwsp, [.sp, .rs2Cmp], [.zero], 4, [32, 64, 128]⟩,
  ⟨'C', opc "c_sdsp", .storeAddr, .outStore, .cSdsp, [.sp, .rs2Cmp], [.zero], 8, [64, 128]⟩,
  ⟨'C', opc "c_sqsp", .storeAddr, .outStore, .cSqsp, [.sp, .rs2Cmp], [.zero], 16, [128]⟩,
  ⟨'C', opc "c_sw", .storeAddr, .outStore, .cLw,
    [.rs1_3bit, .rs2_3bit], [.zero], 4, [32, 64, 128]⟩,
  ⟨'C', opc "c_sd", .storeAddr, .outStore, .cLd, [.rs1_3bit, .rs2_3bit], [.zero], 8, [64, 128]⟩,
  ⟨'C', opc "c_sq", .storeAddr, .outStore, .cLq, [.rs1_3bit, .rs2_3bit], [.zero], 16, [128]⟩,
  ⟨'C', opc "c_addi16sp", .riscvAdditionImm w, .outArithm, .cAddi16sp,
    [.sp, .zero], [.sp], 0, [32, 64, 128]⟩,
  ⟨'C', opc "c_addi", .riscvAdditionImm w, .outArithm, .cI, [.rd, .zero], [.rd], 0, [32, 64, 128]⟩,
  ⟨'C', opc "c_srli", .srl w, .outArithm, .cS, [.rs1_3bit, .zero], [.rs1_3bit], 0, [32, 64, 128]⟩,
  ⟨'C', opc "c_srai", .sra w, .outArithm, .cS, [.rs1_3bit, .zero], [.rs1_3bit], 0, [32, 64, 128]⟩,
  ⟨'C', opc "c_slli", .sll w, .outArithm, .cS, [.rd, .zero], [.rd], 0, [32, 64, 128]⟩,
  ⟨'C', opc "c_addi4spn", .riscvAdditionImm w, .outArithm, .cAddi4spn,
    [.sp, .zero], [.rd_3bit], 0, [32, 64]⟩,
  ⟨'C', opc "c_addiw", .riscvAdditionImm 32, .outArithm, .cI, [.rd, .zero], [.rd], 0, [64, 128]⟩,
  ⟨'C', opc "c_li", .riscvAdditionImm w, .outArithm, .cI, [.zero, .zero], [.rd], 0, [32, 64, 128]⟩,
  ⟨'C', opc "c_lui", .upperImmediate 12, .outArithm, .cI, [.zero, .zero], [.rd], 0, [32, 64, 128]⟩,
  ⟨'C', opc "c_andi", .andi, .outArithm, .cI, [.rs1_3bit, .zero], [.rs1_3bit], 0, [32, 64, 128]⟩,
  ⟨'C', opc "c_sub", .riscvSubtraction w, .outArithm, .none,
    [.rs1_3bit, .rs2_3bit], [.rs1_3bit], 0, [32, 64, 128]⟩,
  ⟨'C', opc "c_addw", .riscvAddition 32, .outArithm, .none,
    [.rs1_3bit, .rs2_3bit], [.rs1_3bit], 0, [64, 128]⟩,
  ⟨'C', opc "c_subw", .riscvSubtraction 32, .outArithm, .none,
    [.rs1_3bit, .rs2_3bit], [.rs1_3bit], 0, [64, 128]⟩,
  ⟨'C', opc "c_mv", .orv, .outArithm, .none, [.zero, .rs2Cmp], [.rd], 0, [32, 64, 128]⟩,
  ⟨'C', opc "c_add", .riscvAddition w, .outArithm, .none, [.rd, .rs2Cmp], [.rd], 0, [32, 64, 128]⟩,
  ⟨'C', opc "c_xor", .xorv, .outArithm, .none,
    [.rs1_3bit, .rs2_3bit], [.rs1_3bit], 0, [32, 64, 128]⟩,
  ⟨'C', opc "c_or", .orv, .outArithm, .none,
    [.rs1_3bit, .rs2_3bit], [.rs1_3bit], 0, [32, 64, 128]⟩,
  ⟨'C', opc "c_and", .andv, .outArithm, .none,
    [.rs1_3bit, .rs2_3bit], [.rs1_3bit], 0, [32, 64, 128]⟩,
  ⟨'B', opc "slo", .slo w, .outArithm, .none, [.rs1, .rs2], [.rd], 0, [32, 64]⟩,
  ⟨'B', opc "sro", .sro w, .outArithm, .none, [.rs1, .rs2], [.rd], 0, [32, 64]⟩,
  ⟨'B', opc "orn", .orn, .outArithm, .none, [.rs1, .rs2], [.rd], 0, [32, 64]⟩,
  ⟨'B', opc "sbinv", .sbinv w, .outArithm, .none, [.rs1, .rs2], [.rd], 0, [32, 64]⟩,
  ⟨'B', opc "sbext", .sbext w, .outArithm, .none, [.rs1, .rs2], [.rd], 0, [32, 64]⟩,
  ⟨'B', opc "pack", .pack w, .outArithm, .none, [.rs1, .rs2], [.rd], 0, [32, 64]⟩,
  ⟨'B', opc "packu", .packu w, .outArithm, .none, [.rs1, .rs2], [.rd], 0, [32, 64]⟩,
  ⟨'B', opc "xnor", .xnor, .outArithm, .none, [.rs1, .rs2], [.rd], 0, [32, 64]⟩,
  ⟨'B', opc "bfp", .bitFieldPlace, .outArithm, .none, [.rs1, .rs2], [.rd], 0, [32, 64]⟩,
  ⟨'B', opc "grev", .grev, .outArithm, .none, [.rs1, .rs2], [.rd], 0, [32, 64]⟩,
  ⟨'B', opc "pcnt", .pcnt w, .outArithm, .none, [.rs1, .rs2], [.rd], 0, [32, 64]⟩,
  ⟨'B', opc "clz", .clz w, .outArithm, .none, [.rs1, .zero], [.rd], 0, [32, 64]⟩,
  ⟨'B', opc "ctz", .ctz w, .outArithm, .none, [.rs1, .zero], [.rd], 0, [32, 64]⟩,
  ⟨'B', opc "rol", .rol, .outArithm, .none, [.rs1, .rs2], [.rd], 0, [32, 64]⟩,
  ⟨'B', opc "ror", .ror, .outArithm, .none, [.rs1, .rs2], [.rd], 0, [32, 64]⟩,
  ⟨'B', opc "clmul", .clmul w, .outArithm, .none, [.rs1, .rs2], [.rd], 0, [32, 64]⟩,
  ⟨'B', opc "max", .max, .outArithm, .none, [.rs1, .rs2], [.rd], 0, [32, 64]⟩,
  ⟨'B', opc "maxu", .maxu, .outArithm, .none, [.rs1, .rs2], [.rd], 0, [32, 64]⟩,
  ⟨'B', opc "min", .min, .outArithm, .none, [.rs1, .rs2], [.rd], 0, [32, 64]⟩,
  ⟨'B', opc "minu", .minu, .outArithm, .none, [.rs1, .rs2], [.rd], 0, [32, 64]⟩,
  ⟨'B', opc "gorc", .gorc w, .outArithm, .none, [.rs1, .rs2], [.rd], 0, [32, 64]⟩,
  ⟨'B', opc "gorci", .gorci, .outArithm, .seven, [.rs1, .zero], [.rd], 0, [32, 64]⟩,
  ⟨'B', opc "unshfl", .riscvUnshfl, .outArithm, .none, [.rs1, .rs2], [.rd], 0, [32, 64, 128]⟩,
  ⟨'B', opc "rori", .rori, .outArithm, .seven, [.rs1, .zero], [.rd], 0, [32, 64]⟩,
  ⟨'B', opc "shfl", .riscvShfl, .outArithm, .none, [.rs1, .rs2], [.rd], 0, [32, 64]⟩,
  ⟨'B', opc "sloi", .sloi w, .outArithm, .seven, [.rs1, .zero], [.rd], 0, [32, 64]⟩,
  ⟨'B', opc "sroi", .sroi, .outArithm, .seven, [.rs1, .zero], [.rd], 0, [32, 64]⟩]

def cmdDesc : List RiscVTableEntry := cmdDescOf w opcodes.insn

def checkMaskAndType (bytes : BitVec 32) (e : RiscVTableEntry) : Bool :=
  (bytes &&& e.entry.2 == e.entry.1) && e.bitWidth.contains w

def findEntry (bytes : BitVec 32) : RiscVTableEntry :=
  ((cmdDesc opcodes w).find? (checkMaskAndType w bytes)).getD invalidInstr

end Table

section Instr

variable {w}

def init (entry : RiscVTableEntry) (instr : FuncInstr w) : FuncInstr w :=
  { instr with
    newPC := if entry.subset = 'C' then instr.PC + 2#64 else instr.newPC
    memSize := entry.memSize
    operation := entry.type
    executor := entry.function }

def initTarget (instr : FuncInstr w) : FuncInstr w :=
  if instr.isBranch then
    { instr with target := instr.PC + signExtension 12 (instr.vImm.setWidth 64) }
  else if instr.isDirectJump then
    { instr with target := instr.PC + signExtension 20 (instr.vImm.setWidth 64) }
  else instr

/-- An operand that the table does not list is the zero register. -/
def operand (bytes : BitVec 32) (regs : List RiscVReg) (i : ℕ) : Register :=
  (regs[i]?.map (RiscVInstrDecoder.getRegister opcodes bytes)).getD RiscVRegister.zero

variable (w) in
open RiscVInstrDecoder in
def createInstr (bytes : BitVec 32) (PC : Addr) : FuncInstr w :=
  let entry := findEntry opcodes w bytes
  let instr : FuncInstr w :=
    { PC := PC, newPC := PC + 4#64, raw := bytes, endian := .little
      executor := .unknownInstruction
      src0 := operand opcodes bytes entry.src 0, src1 := operand opcodes bytes entry.src 1
      dst0 := operand opcodes bytes entry.dst 0, dst1 := operand opcodes bytes entry.dst 1 }
  let instr := init entry instr
  initTarget
    { instr with
      vImm := getImmediate w entry.immediateType (getImmediateValue bytes entry.immediateType) }

end Instr

section Driver

variable {w}

variable (rf : RF w)

/-- Values of registers are passed as 64-bit numbers. -/
def readCsrRegister (name : String) : Except SimException (BitVec 64) := do
  let value ← rf.read (RiscVRegister.fromCsrName opcodes name)
  return value.setWidth 64

def writeCsrRegister (name : String) (value : BitVec 64) : Except SimException (RF w) :=
  rf.write (RiscVRegister.fromCsrName opcodes name) (value.setWidth w)

def handleTrap (instr : FuncInstr w) : Except SimException (DriverResult w) := do
  let rf ← writeCsrRegister opcodes rf "scause"
    ((instr.trap.toRiscvFormat opcodes.causes).setWidth 64)
  if instr.trap = .noTrap ∨ instr.trap = .halt then
    return ⟨rf, none, instr.trap⟩
  else
    let tvec ← readCsrRegister opcodes rf "stvec"
    let pc := trapVectorAddress tvec
    let rf ← writeCsrRegister opcodes rf "sepc" instr.PC
    return ⟨rf, some pc, if tvec = 0#64 then .halt else .noTrap⟩

end Driver

section Facts

variable {w}

theorem initTarget_eq (instr : FuncInstr w) :
    ∃ target, initTarget instr = { instr with target := target } := by
  unfold initTarget
  split_ifs
  · exact ⟨_, rfl⟩
  · exact ⟨_, rfl⟩
  · exact ⟨instr.target, rfl⟩

theorem fresh_initTarget {instr : FuncInstr w} (h : instr.Fresh) : (initTarget instr).Fresh := by
  obtain ⟨target, ht⟩ := initTarget_eq instr
  rw [ht]
  exact ⟨h.trap, h.memAddr, h.isTakenBranch, h.vDst0, h.vDst1, h.mask, h.complete⟩

@[simp]
theorem raw_initTarget (instr : FuncInstr w) : (initTarget instr).raw = instr.raw := by
  obtain ⟨target, ht⟩ := initTarget_eq instr
  rw [ht]

@[simp]
theorem PC_initTarget (instr : FuncInstr w) : (initTarget instr).PC = instr.PC := by
  obtain ⟨target, ht⟩ := initTarget_eq instr
  rw [ht]

theorem findEntry_mem (bytes : BitVec 32) : findEntry opcodes w bytes ∈ cmdDesc opcodes w := by
  unfold findEntry
  rcases h : (cmdDesc opcodes w).find? (checkMaskAndType w bytes) with _ | e
  · exact List.mem_cons_self
  · exact List.mem_of_find?_eq_some h

/-- What the table entry says of an instruction. -/
theorem createInstr_entry (bytes : BitVec 32) (PC : Addr) :
    ∃ target newPC vImm, createInstr opcodes w bytes PC
      = { PC := PC, newPC := newPC, raw := bytes, endian := .little
          executor := (findEntry opcodes w bytes).function
          operation := (findEntry opcodes w bytes).type
          memSize := (findEntry opcodes w bytes).memSize
          vImm := vImm, target := target
          src0 := operand opcodes bytes (findEntry opcodes w bytes).src 0
          src1 := operand opcodes bytes (findEntry opcodes w bytes).src 1
          dst0 := operand opcodes bytes (findEntry opcodes w bytes).dst 0
          dst1 := operand opcodes bytes (findEntry opcodes w bytes).dst 1 } := by
  obtain ⟨target, ht⟩ := initTarget_eq
    { init (findEntry opcodes w bytes)
        { PC := PC, newPC := PC + 4#64, raw := bytes, endian := .little
          executor := .unknownInstruction
          src0 := operand opcodes bytes (findEntry opcodes w bytes).src 0
          src1 := operand opcodes bytes (findEntry opcodes w bytes).src 1
          dst0 := operand opcodes bytes (findEntry opcodes w bytes).dst 0
          dst1 := operand opcodes bytes (findEntry opcodes w bytes).dst 1 } with
      vImm := RiscVInstrDecoder.getImmediate w (findEntry opcodes w bytes).immediateType
        (RiscVInstrDecoder.getImmediateValue bytes (findEntry opcodes w bytes).immediateType) }
  exact ⟨target, _, _, ht⟩

end Facts

/-- The RISC-V instruction set on registers of `w` bits. -/
def isa : ISA w where
  maxReg := RiscVRegister.maxReg opcodes
  createInstr bytes _ PC := createInstr opcodes w bytes PC
  handleTrap := handleTrap opcodes
  raw_createInstr _ _ _ := raw_initTarget _
  PC_createInstr _ _ _ := PC_initTarget _
  fresh_createInstr _ _ _ := fresh_initTarget ⟨rfl, rfl, rfl, rfl, rfl, rfl, rfl⟩

end RiscV

end MiptMips
