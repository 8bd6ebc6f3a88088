import MiptMips.FuncSim.AluPrimitives
import MiptMips.Lib.SignExtended

/-!
# Division

The division of the host has no value for a zero divisor, nor for the one quotient that does not
fit. The routines of the source ask it only where it has one, and there they keep the law of a
division that rounds towards zero.
-/

namespace MiptMips

open Bits

variable {w : ℕ}

section Host

/-- The integer that a value stands for. -/
def valueOf (signed : Bool) (x : BitVec w) : ℤ := if signed then x.toInt else x.toNat

/-- The operands for which the language defines `/` and `%`. -/
def HostDefined (signed : Bool) (x y : BitVec w) : Prop :=
  y ≠ 0#w ∧ (signed → Representable w (x.toInt.tdiv y.toInt))

instance (signed : Bool) (x y : BitVec w) : Decidable (HostDefined signed x y) :=
  inferInstanceAs (Decidable (_ ∧ _))

def hostQuotient (signed : Bool) (x y : BitVec w) : Option (BitVec w) :=
  if HostDefined signed x y then
    some (BitVec.ofInt w ((valueOf signed x).tdiv (valueOf signed y)))
  else none

def hostRemainder (signed : Bool) (x y : BitVec w) : Option (BitVec w) :=
  if HostDefined signed x y then
    some (BitVec.ofInt w ((valueOf signed x).tmod (valueOf signed y)))
  else none

/-- `riscv_division`, with the division of the host. -/
def riscvDivisionOnHost (signed : Bool) (x y : BitVec w) : Option (BitVec w) :=
  if y = 0#w then some (allOnes w)
  else if isSignedDivisionOverflow signed x y then some (msbSet w)
  else hostQuotient signed x y

/-- `riscv_remainder`, with the division of the host. -/
def riscvRemainderOnHost (signed : Bool) (x y : BitVec w) : Option (BitVec w) :=
  if y = 0#w then some x
  else if isSignedDivisionOverflow signed x y then some 0#w
  else hostRemainder signed x y

/-- `mips_division`, with the division of the host. -/
def mipsDivisionOnHost (signed : Bool) (x y : BitVec w) : Option (BitVec w × BitVec w) :=
  if y = 0#w ∨ isSignedDivisionOverflow signed x y then some (0#w, 0#w)
  else do
    let quotient ← hostQuotient signed x y
    let remainder ← hostRemainder signed x y
    return (quotient, remainder)

end Host

section Guards

variable {signed : Bool} {x y : BitVec w}

theorem isSignedDivisionOverflow_iff :
    isSignedDivisionOverflow signed x y ↔ signed ∧ x = BitVec.intMin w ∧ y = -1#w := by
  rw [isSignedDivisionOverflow, allOnes_eq, msbSet_eq_twoPow, BitVec.neg_one_eq_allOnes]
  simp only [Bool.and_eq_true, beq_iff_eq, BitVec.intMin]
  tauto

/-- The quotient of the least value and minus one is the only one that does not fit. -/
theorem representable_tdiv_iff (hw : 0 < w) :
    Representable w (x.toInt.tdiv y.toInt) ↔ ¬ (x = BitVec.intMin w ∧ y = -1#w) := by
  constructor
  · rintro ⟨-, hlt⟩ ⟨rfl, rfl⟩
    rw [BitVec.toInt_intMin_of_pos hw, BitVec.neg_one_eq_allOnes, BitVec.toInt_allOnes, if_pos hw,
      Int.tdiv_neg, Int.tdiv_one, Int.neg_neg] at hlt
    exact lt_irrefl _ hlt
  · intro h
    rw [← BitVec.toInt_sdiv_of_ne_or_ne x y (not_and_or.1 h)]
    exact representable_toInt _

/-- The guards of the source leave just the operands that the host divides. -/
theorem hostDefined_iff (hw : 0 < w) :
    HostDefined signed x y ↔ y ≠ 0#w ∧ ¬ isSignedDivisionOverflow signed x y := by
  rw [HostDefined, representable_tdiv_iff hw, isSignedDivisionOverflow_iff]
  tauto

theorem sdiv_eq_ofInt (h : ¬ (x = BitVec.intMin w ∧ y = -1#w)) :
    x.sdiv y = BitVec.ofInt w (x.toInt.tdiv y.toInt) := by
  rw [← BitVec.toInt_sdiv_of_ne_or_ne x y (not_and_or.1 h), BitVec.ofInt_toInt]

theorem srem_eq_ofInt : x.srem y = BitVec.ofInt w (x.toInt.tmod y.toInt) := by
  rw [← BitVec.toInt_srem, BitVec.ofInt_toInt]

theorem hostQuotient_eq (hw : 0 < w) (hy : y ≠ 0#w) (h : ¬ isSignedDivisionOverflow signed x y) :
    hostQuotient signed x y = some (if signed then x.sdiv y else x / y) := by
  rw [hostQuotient, if_pos ((hostDefined_iff hw).2 ⟨hy, h⟩)]
  cases signed with
  | true =>
    rw [isSignedDivisionOverflow_iff] at h
    rw [if_pos rfl, sdiv_eq_ofInt fun hxy => h ⟨rfl, hxy⟩]
    rfl
  | false =>
    have hdiv : ((x.toNat : ℤ).tdiv y.toNat) = (x / y).toNat := rfl
    show some (BitVec.ofInt w ((x.toNat : ℤ).tdiv y.toNat)) = some (x / y)
    rw [hdiv, BitVec.ofInt_natCast, BitVec.ofNat_toNat, BitVec.setWidth_eq]

theorem hostRemainder_eq (hw : 0 < w) (hy : y ≠ 0#w) (h : ¬ isSignedDivisionOverflow signed x y) :
    hostRemainder signed x y = some (if signed then x.srem y else x % y) := by
  rw [hostRemainder, if_pos ((hostDefined_iff hw).2 ⟨hy, h⟩)]
  cases signed with
  | true =>
    rw [if_pos rfl, srem_eq_ofInt]
    rfl
  | false =>
    have hmod : ((x.toNat : ℤ).tmod y.toNat) = (x % y).toNat := rfl
    show some (BitVec.ofInt w ((x.toNat : ℤ).tmod y.toNat)) = some (x % y)
    rw [hmod, BitVec.ofInt_natCast, BitVec.ofNat_toNat, BitVec.setWidth_eq]

/-- No division of the host is without a value. -/
theorem riscvDivisionOnHost_eq (hw : 0 < w) :
    riscvDivisionOnHost signed x y = some (riscvDivision signed x y) := by
  unfold riscvDivisionOnHost riscvDivision
  split_ifs with hy h
  · rfl
  · rfl
  · rw [hostQuotient_eq hw hy h, if_pos ‹_›]
  · rw [hostQuotient_eq hw hy h, if_neg ‹_›]

theorem riscvRemainderOnHost_eq (hw : 0 < w) :
    riscvRemainderOnHost signed x y = some (riscvRemainder signed x y) := by
  unfold riscvRemainderOnHost riscvRemainder
  split_ifs with hy h
  · rfl
  · rfl
  · rw [hostRemainder_eq hw hy h, if_pos ‹_›]
  · rw [hostRemainder_eq hw hy h, if_neg ‹_›]

theorem mipsDivisionOnHost_eq (hw : 0 < w) :
    mipsDivisionOnHost signed x y = some (mipsDivision signed x y) := by
  unfold mipsDivisionOnHost mipsDivision
  split_ifs with h
  · rfl
  all_goals
    obtain ⟨hy, ho⟩ := not_or.1 h
    rw [hostQuotient_eq hw hy ho, hostRemainder_eq hw hy ho]
    simp_all

end Guards

section Law

/-- The quotient and the remainder of a division that rounds towards zero. -/
structure DivisionLaw (signed : Bool) (x y quotient remainder : BitVec w) : Prop where
  dividend : valueOf signed x
    = valueOf signed quotient * valueOf signed y + valueOf signed remainder
  small : |valueOf signed remainder| < |valueOf signed y|
  sign : valueOf signed remainder = 0
    ∨ (valueOf signed remainder).sign = (valueOf signed x).sign

variable {signed : Bool} {x y : BitVec w}

theorem truncated_law {a b : ℤ} (hb : b ≠ 0) :
    a = a.tdiv b * b + a.tmod b ∧ |a.tmod b| < |b|
      ∧ (a.tmod b = 0 ∨ (a.tmod b).sign = a.sign) := by
  have habs := Int.natAbs_tmod a b
  have hlt := Nat.mod_lt a.natAbs (Int.natAbs_pos.2 hb)
  refine ⟨?_, ?_, ?_⟩
  · rw [Int.mul_comm]
    exact (Int.mul_tdiv_add_tmod a b).symm
  · rw [Int.abs_eq_natAbs, Int.abs_eq_natAbs, habs]
    exact_mod_cast hlt
  · by_cases hdvd : b ∣ a
    · exact .inl (Int.tmod_eq_zero_of_dvd hdvd)
    · exact .inr (by rw [Int.sign_tmod, if_neg hdvd])

theorem valueOf_ne_zero (signed : Bool) (hy : y ≠ 0#w) : valueOf signed y ≠ 0 := by
  intro h
  apply hy
  cases signed with
  | true => exact BitVec.toInt_inj.1 (h.trans BitVec.toInt_zero.symm)
  | false => exact BitVec.toNat_inj.1 (by simpa [valueOf] using h)

theorem valueOf_division (hy : y ≠ 0#w) (h : ¬ isSignedDivisionOverflow signed x y) :
    valueOf signed (riscvDivision signed x y) = (valueOf signed x).tdiv (valueOf signed y) := by
  rw [riscvDivision, if_neg hy, if_neg h]
  cases signed with
  | true =>
    rw [isSignedDivisionOverflow_iff] at h
    exact BitVec.toInt_sdiv_of_ne_or_ne x y (not_and_or.1 fun hxy => h ⟨rfl, hxy⟩)
  | false => rfl

theorem valueOf_remainder (hy : y ≠ 0#w) (h : ¬ isSignedDivisionOverflow signed x y) :
    valueOf signed (riscvRemainder signed x y) = (valueOf signed x).tmod (valueOf signed y) := by
  rw [riscvRemainder, if_neg hy, if_neg h]
  cases signed with
  | true => exact BitVec.toInt_srem x y
  | false => rfl

/-- Where the host divides, its quotient and remainder keep the law. -/
theorem divisionLaw_of_defined (hw : 0 < w) (h : HostDefined signed x y) :
    DivisionLaw signed x y (riscvDivision signed x y) (riscvRemainder signed x y) := by
  obtain ⟨hy, ho⟩ := (hostDefined_iff hw).1 h
  have hlaw := truncated_law (a := valueOf signed x) (valueOf_ne_zero signed hy)
  rw [← valueOf_division hy ho, ← valueOf_remainder hy ho] at hlaw
  exact ⟨hlaw.1, hlaw.2.1, hlaw.2.2⟩

/-- The two instruction sets differ only where the host has no quotient. -/
theorem divisionLaw_mips (hw : 0 < w) (h : HostDefined signed x y) :
    DivisionLaw signed x y (mipsDivision signed x y).1 (mipsDivision signed x y).2 := by
  obtain ⟨hy, ho⟩ := (hostDefined_iff hw).1 h
  have hmips : mipsDivision signed x y = (riscvDivision signed x y, riscvRemainder signed x y) := by
    rw [mipsDivision, riscvDivision, riscvRemainder, if_neg (not_or.2 ⟨hy, ho⟩), if_neg hy,
      if_neg hy, if_neg ho, if_neg ho]
    cases signed <;> rfl
  rw [hmips]
  exact divisionLaw_of_defined hw h

end Law

end MiptMips
