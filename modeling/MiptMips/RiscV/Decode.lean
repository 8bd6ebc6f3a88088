import MiptMips.FuncSim.Operation

/-!
# RISC-V registers and instruction fields

The match and mask words of the instructions, the list of control and status registers and the
cause codes come from a generated header; they are the parameter `RiscVOpcodes`. A register that
the list does not have gets the index past the end of the register file.
-/

namespace MiptMips

/-- What the generated opcode header declares. -/
structure RiscVOpcodes where
  /-- `DECLARE_INSN`: the match and the mask of an instruction. -/
  insn : String → BitVec 32 × BitVec 32
  /-- `DECLARE_CSR`: names and numbers, in order. -/
  csrs : List (String × ℕ)
  causes : RiscVCauses

namespace RiscVRegister

variable (opcodes : RiscVOpcodes)

def maxReg : ℕ := 32 + opcodes.csrs.length

def zero : Register := .riscv 0

def fromCpuIndex (id : ℕ) : Register := .riscv id

def fromCpuPopularIndex (id : ℕ) : Register := .riscv (8 + id)

/-- The search gives the length of the list for a number that is not in it. -/
def fromCsrIndex (id : ℕ) : Register := .riscv (32 + opcodes.csrs.findIdx (·.2 == id))

def fromCsrName (name : String) : Register := .riscv (32 + opcodes.csrs.findIdx (·.1 == name))

theorem isZero_fromCsrName (name : String) : (fromCsrName opcodes name).isZero = false := by
  simp [fromCsrName, Register.isZero, Register.toRfIndex]

end RiscVRegister

inductive RiscVReg where
  | rs1 | rs2 | rs2Cmp | rd
  | rs1_3bit | rs2_3bit | rd_3bit
  | csr | sepc | mepc
  | zero | sp | ra
  deriving DecidableEq, Repr

inductive RiscVImmediate where
  | I | five | six | seven | B | S | U | J | C | none
  | cLwsp | cLdsp | cLqsp | cSwsp | cSdsp | cSqsp
  | cLw | cLd | cLq
  | cI | cJ | cS | cB
  | cAddi4spn | cAddi16sp
  deriving DecidableEq, Repr

namespace RiscVInstrDecoder

/-- The field under a mask, moved down by the trailing zeroes of the mask. -/
def applyMask (bytes mask : BitVec 32) (shift : ℕ) : BitVec 32 := (bytes &&& mask) >>> shift

section Fields

variable (raw : BitVec 32)

def iImm : BitVec 32 := applyMask raw 0xfff00000#32 20

def sImm4_0 : BitVec 32 := applyMask raw 0x00000f80#32 7

def sImm11_5 : BitVec 32 := applyMask raw 0xfe000000#32 25

def bImm11 : BitVec 32 := applyMask raw 0x00000080#32 7

def bImm4_1 : BitVec 32 := applyMask raw 0x00000f00#32 8

def bImm10_5 : BitVec 32 := applyMask raw 0x7e000000#32 25

def bImm12 : BitVec 32 := applyMask raw 0x80000000#32 31

def uImm : BitVec 32 := applyMask raw 0xfffff000#32 12

def jImm19_12 : BitVec 32 := applyMask raw 0x000ff000#32 12

def jImm11 : BitVec 32 := applyMask raw 0x00100000#32 20

def jImm10_1 : BitVec 32 := applyMask raw 0x7fe00000#32 21

def jImm20 : BitVec 32 := applyMask raw 0x80000000#32 31

def csrImm : BitVec 32 := applyMask raw 0x000f8000#32 15

def ciImm1 : BitVec 32 := applyMask raw 0x00001000#32 12

def ciImm2 : BitVec 32 := applyMask raw 0x0000007c#32 2

def cssImm : BitVec 32 := applyMask raw 0x00001f80#32 7

def ciwImm : BitVec 32 := applyMask raw 0x00001fe0#32 5

def clImm1 : BitVec 32 := applyMask raw 0x00001c00#32 10

def clImm2 : BitVec 32 := applyMask raw 0x00000060#32 5

def cjImm : BitVec 32 := applyMask raw 0x00001ffc#32 2

end Fields

section Immediates

variable (raw : BitVec 32)

def getBImmediate : BitVec 32 :=
  (bImm4_1 raw <<< 1) ||| (bImm10_5 raw <<< 5) ||| (bImm11 raw <<< 11) ||| (bImm12 raw <<< 12)

def getJImmediate : BitVec 32 :=
  (jImm10_1 raw <<< 1) ||| (jImm11 raw <<< 11) ||| (jImm19_12 raw <<< 12) ||| (jImm20 raw <<< 20)

def getCLwspImmediate : BitVec 32 :=
  (applyMask (ciImm1 raw) 0b1#32 0 <<< 5) ||| (applyMask (ciImm2 raw) 0b11100#32 2 <<< 2)
    ||| (applyMask (ciImm2 raw) 0b00011#32 0 <<< 6)

def getCLdspImmediate : BitVec 32 :=
  (applyMask (ciImm1 raw) 0b1#32 0 <<< 5) ||| (applyMask (ciImm2 raw) 0b11000#32 3 <<< 3)
    ||| (applyMask (ciImm2 raw) 0b00111#32 0 <<< 6)

def getCLqspImmediate : BitVec 32 :=
  (applyMask (ciImm1 raw) 0b1#32 0 <<< 5) ||| (applyMask (ciImm2 raw) 0b10000#32 4 <<< 4)
    ||| (applyMask (ciImm2 raw) 0b01111#32 0 <<< 6)

def getCSwspImmediate : BitVec 32 :=
  (applyMask (cssImm raw) 0b111100#32 2 <<< 2) ||| (applyMask (cssImm raw) 0b000011#32 0 <<< 6)

def getCSdspImmediate : BitVec 32 :=
  (applyMask (cssImm raw) 0b111000#32 3 <<< 3) ||| (applyMask (cssImm raw) 0b000111#32 0 <<< 6)

def getCSqspImmediate : BitVec 32 :=
  (applyMask (cssImm raw) 0b110000#32 4 <<< 4) ||| (applyMask (cssImm raw) 0b001111#32 0 <<< 6)

def getCLwImmediate : BitVec 32 :=
  (applyMask (clImm2 raw) 0b10#32 1 <<< 2) ||| (applyMask (clImm2 raw) 0b01#32 0 <<< 6)
    ||| (applyMask (clImm1 raw) 0b111#32 0 <<< 3)

def getCLdImmediate : BitVec 32 :=
  (applyMask (clImm1 raw) 0b111#32 0 <<< 3) ||| (applyMask (clImm2 raw) 0b11#32 0 <<< 6)

def getCLqImmediate : BitVec 32 :=
  (applyMask (clImm1 raw) 0b110#32 1 <<< 4) ||| (applyMask (clImm1 raw) 0b001#32 0 <<< 8)
    ||| (applyMask (clImm2 raw) 0b11#32 0 <<< 6)

def getCIImmediate : BitVec 32 :=
  (applyMask (ciImm1 raw) 0b1#32 0 <<< 5) ||| applyMask (ciImm2 raw) 0b11111#32 0

def getCJImmediate : BitVec 32 :=
  (applyMask (cjImm raw) 0b10000000000#32 10 <<< 11)
    ||| (applyMask (cjImm raw) 0b01000000000#32 9 <<< 4)
    ||| (applyMask (cjImm raw) 0b00110000000#32 7 <<< 8)
    ||| (applyMask (cjImm raw) 0b00001000000#32 6 <<< 10)
    ||| (applyMask (cjImm raw) 0b00000100000#32 5 <<< 6)
    ||| (applyMask (cjImm raw) 0b00000010000#32 4 <<< 7)
    ||| (applyMask (cjImm raw) 0b00000001110#32 1 <<< 1)
    ||| (applyMask (cjImm raw) 0b00000000001#32 0 <<< 5)

def getCBImmediate : BitVec 32 :=
  (applyMask (clImm1 raw) 0b100#32 2 <<< 8) ||| (applyMask (clImm1 raw) 0b011#32 0 <<< 3)
    ||| (applyMask (ciImm2 raw) 0b11000#32 3 <<< 6)
    ||| (applyMask (ciImm2 raw) 0b00110#32 1 <<< 1)
    ||| (applyMask (ciImm2 raw) 0b00001#32 0 <<< 5)

def getCAddi4spnImmediate : BitVec 32 :=
  (applyMask (ciwImm raw) 0b11000000#32 6 <<< 4) ||| (applyMask (ciwImm raw) 0b00111100#32 2 <<< 6)
    ||| (applyMask (ciwImm raw) 0b00000010#32 1 <<< 2)
    ||| (applyMask (ciwImm raw) 0b00000001#32 0 <<< 3)

def getCAddi16spImmediate : BitVec 32 :=
  (applyMask (ciImm1 raw) 0b1#32 0 <<< 9) ||| (applyMask (ciImm2 raw) 0b10000#32 4 <<< 4)
    ||| (applyMask (ciImm2 raw) 0b01000#32 3 <<< 6)
    ||| (applyMask (ciImm2 raw) 0b00110#32 1 <<< 7)
    ||| (applyMask (ciImm2 raw) 0b00001#32 0 <<< 5)

def getImmediateValue : RiscVImmediate → BitVec 32
  | .I => iImm raw
  | .five => iImm raw &&& bitmask 32 5
  | .six => iImm raw &&& bitmask 32 6
  | .seven => iImm raw &&& bitmask 32 7
  | .B => getBImmediate raw
  | .S => sImm4_0 raw ||| (sImm11_5 raw <<< 5)
  | .U => uImm raw
  | .J => getJImmediate raw
  | .C => csrImm raw
  | .none => 0#32
  | .cLwsp => getCLwspImmediate raw
  | .cLdsp => getCLdspImmediate raw
  | .cLqsp => getCLqspImmediate raw
  | .cSwsp => getCSwspImmediate raw
  | .cSdsp => getCSdspImmediate raw
  | .cSqsp => getCSqspImmediate raw
  | .cLw => getCLwImmediate raw
  | .cLd => getCLdImmediate raw
  | .cLq => getCLqImmediate raw
  | .cJ => getCJImmediate raw
  | .cB => getCBImmediate raw
  | .cAddi4spn => getCAddi4spnImmediate raw
  | .cAddi16sp => getCAddi16spImmediate raw
  | .cS | .cI => getCIImmediate raw

def getImmediate (w : ℕ) (type : RiscVImmediate) (value : BitVec 32) : BitVec w :=
  match type with
  | .five | .six | .seven => value.setWidth w &&& bitmask w (logBitwidth w)
  | .I | .B | .S => signExtension 12 (value.setWidth w)
  | .U | .J => signExtension 20 (value.setWidth w)
  | .cI => signExtension 6 (value.setWidth w)
  | .cJ => signExtension 12 (value.setWidth w)
  | .cB => signExtension 9 (value.setWidth w)
  | .cAddi16sp => signExtension 10 (value.setWidth w)
  | _ => value.setWidth w

end Immediates

section Registers

variable (opcodes : RiscVOpcodes) (raw : BitVec 32)

open RiscVRegister in
def getRegister : RiscVReg → Register
  | .zero => RiscVRegister.zero
  | .sp => fromCpuIndex 2
  | .ra => fromCpuIndex 1
  | .sepc => fromCsrIndex opcodes 0x141
  | .mepc => fromCsrIndex opcodes 0x341
  | .rd => fromCpuIndex (applyMask raw 0x00000f80#32 7).toNat
  | .rs1 => fromCpuIndex (applyMask raw 0x000f8000#32 15).toNat
  | .rs2 => fromCpuIndex (applyMask raw 0x01f00000#32 20).toNat
  | .csr => fromCsrIndex opcodes (applyMask raw 0xfff00000#32 20).toNat
  | .rs2Cmp => fromCpuIndex (applyMask raw 0x0000007c#32 2).toNat
  | .rd_3bit => fromCpuPopularIndex (applyMask raw 0x0000001c#32 2).toNat
  | .rs1_3bit => fromCpuPopularIndex (applyMask raw 0x00000380#32 7).toNat
  | .rs2_3bit => fromCpuPopularIndex (applyMask raw 0x0000001c#32 2).toNat

end Registers

end RiscVInstrDecoder

end MiptMips
