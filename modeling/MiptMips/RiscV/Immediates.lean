import MiptMips.Lib.BitLayout
import MiptMips.RiscV.Decode

/-!
# RISC-V immediates

Where the instruction set puts the bits of an immediate, format by format. Cutting the immediate
out of the word is gathering those bits, so an immediate that is placed into any word is decoded
again, with the sign or the zeroes that its format extends it by.
-/

namespace MiptMips

open Bits

namespace RiscVImmediate

/-- The bits of an immediate of the instruction set, the zeroes below its lowest bit included. -/
def width : RiscVImmediate → ℕ
  | .none => 0
  | .five | .C => 5
  | .six | .cI | .cS => 6
  | .seven | .cLw => 7
  | .cLwsp | .cSwsp | .cLd => 8
  | .cLdsp | .cSdsp | .cLq | .cB => 9
  | .cLqsp | .cSqsp | .cAddi4spn | .cAddi16sp => 10
  | .I | .S | .cJ => 12
  | .B => 13
  | .U => 20
  | .J => 21

def isSigned : RiscVImmediate → Bool
  | .I | .B | .S | .U | .J | .cI | .cJ | .cB | .cAddi16sp => true
  | _ => false

/-- The layouts of the instruction set: bits of the immediate, and the bit of the word they start
from. -/
def layout : RiscVImmediate → Layout
  | .I => [⟨11, 0, 20⟩]
  | .five => [⟨4, 0, 20⟩]
  | .six => [⟨5, 0, 20⟩]
  | .seven => [⟨6, 0, 20⟩]
  | .S => [⟨11, 5, 25⟩, ⟨4, 0, 7⟩]
  | .B => [⟨12, 12, 31⟩, ⟨10, 5, 25⟩, ⟨4, 1, 8⟩, ⟨11, 11, 7⟩]
  | .U => [⟨19, 0, 12⟩]
  | .J => [⟨20, 20, 31⟩, ⟨10, 1, 21⟩, ⟨11, 11, 20⟩, ⟨19, 12, 12⟩]
  | .C => [⟨4, 0, 15⟩]
  | .none => []
  | .cLwsp => [⟨5, 5, 12⟩, ⟨4, 2, 4⟩, ⟨7, 6, 2⟩]
  | .cLdsp => [⟨5, 5, 12⟩, ⟨4, 3, 5⟩, ⟨8, 6, 2⟩]
  | .cLqsp => [⟨5, 5, 12⟩, ⟨4, 4, 6⟩, ⟨9, 6, 2⟩]
  | .cSwsp => [⟨5, 2, 9⟩, ⟨7, 6, 7⟩]
  | .cSdsp => [⟨5, 3, 10⟩, ⟨8, 6, 7⟩]
  | .cSqsp => [⟨5, 4, 11⟩, ⟨9, 6, 7⟩]
  | .cLw => [⟨5, 3, 10⟩, ⟨2, 2, 6⟩, ⟨6, 6, 5⟩]
  | .cLd => [⟨5, 3, 10⟩, ⟨7, 6, 5⟩]
  | .cLq => [⟨5, 4, 11⟩, ⟨8, 8, 10⟩, ⟨7, 6, 5⟩]
  | .cI | .cS => [⟨5, 5, 12⟩, ⟨4, 0, 2⟩]
  | .cJ => [⟨11, 11, 12⟩, ⟨4, 4, 11⟩, ⟨9, 8, 9⟩, ⟨10, 10, 8⟩, ⟨6, 6, 7⟩, ⟨7, 7, 6⟩, ⟨3, 1, 3⟩,
      ⟨5, 5, 2⟩]
  | .cB => [⟨8, 8, 12⟩, ⟨4, 3, 10⟩, ⟨7, 6, 5⟩, ⟨2, 1, 3⟩, ⟨5, 5, 2⟩]
  | .cAddi4spn => [⟨5, 4, 11⟩, ⟨9, 6, 7⟩, ⟨2, 2, 6⟩, ⟨3, 3, 5⟩]
  | .cAddi16sp => [⟨9, 9, 12⟩, ⟨4, 4, 6⟩, ⟨6, 6, 5⟩, ⟨8, 7, 3⟩, ⟨5, 5, 2⟩]

theorem fits_layout (type : RiscVImmediate) : type.layout.Fits 32 32 := by
  cases type <;> decide +kernel

/-- An immediate put into a word by its format. -/
def encode (type : RiscVImmediate) (imm : BitVec type.width) (raw : BitVec 32) : BitVec 32 :=
  type.layout.place imm raw

/-- The immediates that a format can encode have zeroes where it has no bits. -/
def Encodable (type : RiscVImmediate) (imm : BitVec type.width) : Prop := type.layout.Covers imm

instance (type : RiscVImmediate) (imm : BitVec type.width) : Decidable (type.Encodable imm) :=
  inferInstanceAs (Decidable (type.layout.Covers imm))

/-- The formats that are extended by the width of their immediate. -/
def formats : List RiscVImmediate :=
  [.I, .S, .U, .cLwsp, .cLdsp, .cLqsp, .cSwsp, .cSdsp, .cSqsp, .cLw, .cLd, .cLq, .cI, .cS, .cJ, .cB,
    .cAddi4spn, .cAddi16sp]

end RiscVImmediate

namespace RiscVInstrDecoder

section Selects

variable {f : BitVec 32 → BitVec 32}

theorem selects_field (mask : BitVec 32) (shift : ℕ) : Selects (applyMask · mask shift) :=
  (Selects.id.and_const mask).ushiftRight shift

/-- Bits of a field, moved to their place. -/
theorem selects_part (hf : Selects f) (mask : BitVec 32) (shift up : ℕ) :
    Selects fun raw => applyMask (f raw) mask shift <<< up :=
  ((hf.and_const mask).ushiftRight shift).shiftLeft up

/-- A field is a mask and a shift, and an immediate joins parts of fields. -/
theorem selects_getImmediateValue (type : RiscVImmediate) :
    Selects fun raw => getImmediateValue raw type := by
  have hi : Selects iImm := selects_field _ _
  have hi₁ : Selects ciImm1 := selects_field _ _
  have hi₂ : Selects ciImm2 := selects_field _ _
  have hs : Selects cssImm := selects_field _ _
  have hw : Selects ciwImm := selects_field _ _
  have hl₁ : Selects clImm1 := selects_field _ _
  have hl₂ : Selects clImm2 := selects_field _ _
  have hj : Selects cjImm := selects_field _ _
  cases type with
  | none => exact Selects.const_zero
  | I => exact hi
  | five => exact hi.and_const _
  | six => exact hi.and_const _
  | seven => exact hi.and_const _
  | U => exact selects_field _ _
  | C => exact selects_field _ _
  | S => exact (selects_field _ _).join ((selects_field _ _).shiftLeft _)
  | B =>
    exact ((((selects_field _ _).shiftLeft _).join ((selects_field _ _).shiftLeft _)).join
      ((selects_field _ _).shiftLeft _)).join ((selects_field _ _).shiftLeft _)
  | J =>
    exact ((((selects_field _ _).shiftLeft _).join ((selects_field _ _).shiftLeft _)).join
      ((selects_field _ _).shiftLeft _)).join ((selects_field _ _).shiftLeft _)
  | cLwsp =>
    exact ((selects_part hi₁ _ _ _).join (selects_part hi₂ _ _ _)).join
      (selects_part hi₂ _ _ _)
  | cLdsp =>
    exact ((selects_part hi₁ _ _ _).join (selects_part hi₂ _ _ _)).join
      (selects_part hi₂ _ _ _)
  | cLqsp =>
    exact ((selects_part hi₁ _ _ _).join (selects_part hi₂ _ _ _)).join
      (selects_part hi₂ _ _ _)
  | cSwsp => exact (selects_part hs _ _ _).join (selects_part hs _ _ _)
  | cSdsp => exact (selects_part hs _ _ _).join (selects_part hs _ _ _)
  | cSqsp => exact (selects_part hs _ _ _).join (selects_part hs _ _ _)
  | cLw =>
    exact ((selects_part hl₂ _ _ _).join (selects_part hl₂ _ _ _)).join
      (selects_part hl₁ _ _ _)
  | cLd => exact (selects_part hl₁ _ _ _).join (selects_part hl₂ _ _ _)
  | cLq =>
    exact ((selects_part hl₁ _ _ _).join (selects_part hl₁ _ _ _)).join
      (selects_part hl₂ _ _ _)
  | cI => exact (selects_part hi₁ _ _ _).join ((hi₂.and_const _).ushiftRight _)
  | cS => exact (selects_part hi₁ _ _ _).join ((hi₂.and_const _).ushiftRight _)
  | cJ =>
    exact (((((((selects_part hj _ _ _).join (selects_part hj _ _ _)).join
      (selects_part hj _ _ _)).join (selects_part hj _ _ _)).join (selects_part hj _ _ _)).join
      (selects_part hj _ _ _)).join (selects_part hj _ _ _)).join (selects_part hj _ _ _)
  | cB =>
    exact ((((selects_part hl₁ _ _ _).join (selects_part hl₁ _ _ _)).join
      (selects_part hi₂ _ _ _)).join (selects_part hi₂ _ _ _)).join (selects_part hi₂ _ _ _)
  | cAddi4spn =>
    exact (((selects_part hw _ _ _).join (selects_part hw _ _ _)).join
      (selects_part hw _ _ _)).join (selects_part hw _ _ _)
  | cAddi16sp =>
    exact ((((selects_part hi₁ _ _ _).join (selects_part hi₂ _ _ _)).join
      (selects_part hi₂ _ _ _)).join (selects_part hi₂ _ _ _)).join (selects_part hi₂ _ _ _)

theorem getImmediateValue_eq (raw : BitVec 32) (type : RiscVImmediate) :
    getImmediateValue raw type = type.layout.gather 32 raw := by
  refine congrFun (Selects.ext (selects_getImmediateValue type) (Selects.gather type.layout) ?_) raw
  intro j hj
  rw [Layout.gather_twoPow type.fits_layout hj]
  revert j
  cases type <;> decide +kernel

end Selects

section RoundTrip

variable {w : ℕ} {type : RiscVImmediate} {imm : BitVec type.width}

theorem getImmediateValue_encode (himm : type.Encodable imm) (raw : BitVec 32) :
    getImmediateValue (type.encode imm raw) type = imm.setWidth 32 := by
  rw [getImmediateValue_eq]
  exact Layout.gather_place type.fits_layout himm raw

theorem width_le (type : RiscVImmediate) : type.width ≤ 32 := by cases type <;> decide

/-- How each format is extended. -/
theorem getImmediate_eq (htype : type ∈ RiscVImmediate.formats) (value : BitVec 32) :
    getImmediate w type value
      = if type.isSigned then signExtension type.width (value.setWidth w)
        else value.setWidth w := by
  cases type <;> first | rfl | exact absurd htype (by decide)

theorem width_pos (htype : type ∈ RiscVImmediate.formats) : 0 < type.width := by
  cases type <;> first | decide | exact absurd htype (by decide)

/-- Every format decodes what is encoded in it. -/
theorem getImmediate_encode (hw : w = 32 ∨ w = 64 ∨ w = 128)
    (htype : type ∈ RiscVImmediate.formats) (himm : type.Encodable imm) (raw : BitVec 32) :
    getImmediate w type (getImmediateValue (type.encode imm raw) type)
      = if type.isSigned then imm.signExtend w else imm.setWidth w := by
  have hle := width_le type
  have hwide : type.width ≤ w := by omega
  rw [getImmediateValue_encode himm, getImmediate_eq htype]
  split_ifs
  · exact signExtension_setWidth (width_pos htype) hle hwide imm
  · exact setWidth_setWidth_of_ge hle

/-- The lowest jump of a compressed instruction, put over a word of ones. -/
theorem getImmediate_encode_cJ :
    getImmediate 64 .cJ (getImmediateValue
      (RiscVImmediate.encode .cJ (BitVec.ofNat RiscVImmediate.cJ.width 0x800) 0xffffffff#32) .cJ)
        = 0xfffffffffffff800#64 :=
  getImmediate_encode (.inr (.inl rfl)) (by decide) (by decide) _

end RoundTrip

end RiscVInstrDecoder

end MiptMips
