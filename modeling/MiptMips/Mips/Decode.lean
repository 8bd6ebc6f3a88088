import MiptMips.FuncSim.Operation

/-!
# MIPS versions, registers and instruction fields

An entry of the instruction tables names its operands by the field they come from; the decoder
cuts the fields out of the word.
-/

namespace MiptMips

section Version

inductive MipsVersion where
  | I | II | III | IV | V
  | v32
  | v64
  | mars
  | mars64
  deriving DecidableEq, Repr

/-- The width of the registers of a version. -/
def MipsVersion.width : MipsVersion → ℕ
  | I | II | v32 | mars => 32
  | III | IV | V | v64 | mars64 => 64

/-- The versions that have an instruction. -/
abbrev MipsVersionMask := List MipsVersion

def MipsVersionMask.isSupported (mask : MipsVersionMask) (version : MipsVersion) : Bool :=
  mask.contains version

def mips64 : MipsVersionMask := [.v64, .mars64]

def mips32 : MipsVersionMask := mips64 ++ [.v32, .mars]

def mipsV : MipsVersionMask := mips64 ++ [.V]

def mipsIV : MipsVersionMask := mipsV ++ [.IV]

def mipsIII : MipsVersionMask := mipsIV ++ [.III]

def mipsII : MipsVersionMask := mipsIII ++ mips32 ++ [.II]

def mipsI : MipsVersionMask := mipsII ++ [.I]

end Version

namespace MipsRegister

def maxReg : ℕ := 98

def fromCpuIndex (id : ℕ) : Register := .mips id

def fromCp0Index (id : ℕ) : Register := .mips (34 + id)

def fromCp1Index (id : ℕ) : Register := .mips (66 + id)

def zero : Register := .mips 0

def returnAddress : Register := .mips 31

def mipsHi : Register := .mips 32

def mipsLo : Register := .mips 33

def status : Register := fromCp0Index 12

def cause : Register := fromCp0Index 13

def epc : Register := fromCp0Index 14

def mipsFcsr : Register := fromCp1Index 31

end MipsRegister

inductive MipsReg where
  | rs | rt | rd
  | cp0Rd | sr | epc
  | fr | ft | fs | fd | fcsr
  | zero | ra
  | hi | lo
  deriving DecidableEq, Repr

namespace MipsInstrDecoder

/-- The field under a mask, moved down by the trailing zeroes of the mask. -/
def applyMask (bytes mask : BitVec 32) (shift : ℕ) : BitVec 32 := (bytes &&& mask) >>> shift

theorem toNat_applyMask_le (bytes mask : BitVec 32) (shift : ℕ) :
    (applyMask bytes mask shift).toNat ≤ mask.toNat / 2 ^ shift := by
  rw [applyMask, BitVec.toNat_ushiftRight, BitVec.toNat_and, Nat.shiftRight_eq_div_pow]
  exact Nat.div_le_div_right Nat.and_le_right

section Fields

variable (raw : BitVec 32)

def funct : BitVec 32 := applyMask raw 0x0000003f#32 0

def shamt : BitVec 32 := applyMask raw 0x000007c0#32 6

def rd : BitVec 32 := applyMask raw 0x0000f800#32 11

def rt : BitVec 32 := applyMask raw 0x001f0000#32 16

def rs : BitVec 32 := applyMask raw 0x03e00000#32 21

def opcode : BitVec 32 := applyMask raw 0xfc000000#32 26

def imm : BitVec 32 := applyMask raw 0x0000ffff#32 0

def jump : BitVec 32 := applyMask raw 0x03ffffff#32 0

def fd : BitVec 32 := applyMask raw 0x000007c0#32 6

def fs : BitVec 32 := applyMask raw 0x0000f800#32 11

def ft : BitVec 32 := applyMask raw 0x001f0000#32 16

def fmt : BitVec 32 := applyMask raw 0x03e00000#32 21

def getImmediateValue (type : Char) : BitVec 32 :=
  if type = 'N' then 0#32
  else if type = 'S' then shamt raw
  else if type = 'J' then jump raw
  else imm raw

def getRegister : MipsReg → Register
  | .zero => MipsRegister.zero
  | .hi => MipsRegister.mipsHi
  | .lo => MipsRegister.mipsLo
  | .ra => MipsRegister.returnAddress
  | .rs => MipsRegister.fromCpuIndex (rs raw).toNat
  | .rt => MipsRegister.fromCpuIndex (rt raw).toNat
  | .rd => MipsRegister.fromCpuIndex (rd raw).toNat
  | .cp0Rd => MipsRegister.fromCp0Index (rd raw).toNat
  | .sr => MipsRegister.status
  | .epc => MipsRegister.epc
  | .fd => MipsRegister.fromCp1Index (fd raw).toNat
  | .fs => MipsRegister.fromCp1Index (fs raw).toNat
  | .ft => MipsRegister.fromCp1Index (ft raw).toNat
  | .fr => MipsRegister.fromCp1Index (fmt raw).toNat
  | .fcsr => MipsRegister.mipsFcsr

end Fields

theorem getRegister_lt (raw : BitVec 32) (r : MipsReg) :
    (getRegister raw r).toRfIndex < MipsRegister.maxReg := by
  have hfield : ∀ {n : ℕ} {mask : BitVec 32} {shift : ℕ}, mask.toNat / 2 ^ shift ≤ n →
      (applyMask raw mask shift).toNat ≤ n := fun h => (toNat_applyMask_le _ _ _).trans h
  have hcpu : ∀ {id : ℕ}, id ≤ 33 →
      (MipsRegister.fromCpuIndex id).toRfIndex < MipsRegister.maxReg := fun h =>
    Nat.lt_of_le_of_lt h (by decide)
  have hcp0 : ∀ {id : ℕ}, id ≤ 31 →
      (MipsRegister.fromCp0Index id).toRfIndex < MipsRegister.maxReg := fun h => by
    show 34 + _ < 98
    omega
  have hcp1 : ∀ {id : ℕ}, id ≤ 31 →
      (MipsRegister.fromCp1Index id).toRfIndex < MipsRegister.maxReg := fun h => by
    show 66 + _ < 98
    omega
  cases r with
  | rs | rt | rd => exact hcpu (hfield (by decide))
  | cp0Rd => exact hcp0 (hfield (by decide))
  | sr | epc => exact hcp0 (by decide)
  | fr | ft | fs | fd => exact hcp1 (hfield (by decide))
  | fcsr => exact hcp1 (by decide)
  | zero | ra | hi | lo => exact hcpu (by decide)

/-- Shift amounts, jump targets and logical immediates are zero-extended. -/
def getImmediate (w : ℕ) (type : Char) (value : BitVec 32) : BitVec w :=
  if type = 'N' ∨ type = 'S' ∨ type = 'J' ∨ type = 'L' then value.setWidth w
  else signExtension 16 (value.setWidth w)

end MipsInstrDecoder

end MiptMips
