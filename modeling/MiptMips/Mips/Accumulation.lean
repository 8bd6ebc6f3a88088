import Mathlib.Algebra.Order.Ring.Abs
import Mathlib.Algebra.Order.Ring.Int
import MiptMips.FuncSim.Division
import MiptMips.Mips.Instr

/-!
# The accumulator

A product is written to HI and LO in two halves, and an accumulating instruction adds or subtracts
each half on its own: the write of LO carries into HI before the write of HI.
-/

namespace MiptMips

namespace RF

section Halves

variable (rf : RF 32)

/-- The value of HI and LO together. -/
def accumulator : BitVec 64 := rf.get (.mips 32) ++ rf.get (.mips 33)

theorem toNat_append_halves (hi lo : BitVec 32) :
    (hi ++ lo).toNat = hi.toNat * 2 ^ 32 + lo.toNat := by
  rw [BitVec.toNat_append, ← Nat.shiftLeft_add_eq_or_of_lt lo.isLt, Nat.shiftLeft_eq]

theorem append_halves (v : BitVec 64) : (v >>> 32).setWidth 32 ++ v.setWidth 32 = v := by
  apply BitVec.eq_of_toNat_eq
  rw [toNat_append_halves, BitVec.toNat_setWidth, BitVec.toNat_setWidth, BitVec.toNat_ushiftRight,
    Nat.shiftRight_eq_div_pow]
  omega

/-- A sum of halves, with the carry out of the low one. -/
theorem append_add (hi lo hi' lo' : BitVec 32) :
    (hi + (if MAX_VAL32 - lo < lo' then 1#32 else 0#32) + hi') ++ (lo + lo')
      = (hi ++ lo) + (hi' ++ lo') := by
  have hcarry : MAX_VAL32 - lo < lo' ↔ 2 ^ 32 ≤ lo.toNat + lo'.toNat := by
    rw [BitVec.lt_def, MAX_VAL32, BitVec.toNat_sub]
    simp only [BitVec.toNat_ofNat]
    omega
  apply BitVec.eq_of_toNat_eq
  simp only [hcarry, toNat_append_halves, BitVec.toNat_add]
  split_ifs <;> simp only [BitVec.toNat_ofNat] <;> omega

/-- A difference of halves, with the borrow of the low one. -/
theorem append_sub (hi lo hi' lo' : BitVec 32) :
    (hi - (if lo < lo' then 1#32 else 0#32) - hi') ++ (lo - lo')
      = (hi ++ lo) - (hi' ++ lo') := by
  apply BitVec.eq_of_toNat_eq
  simp only [BitVec.lt_def, toNat_append_halves, BitVec.toNat_sub]
  split_ifs <;> simp only [BitVec.toNat_ofNat] <;> omega

end Halves

section Writes

variable {rf : RF 32}

theorem writeMasked_allOnes {num : Register} (h : rf.Valid num) (hz : num.isZero = false)
    (val : BitVec 32) : rf.writeMasked num val (allOnes 32) = .ok (rf.set num val) := by
  rw [writeMasked, if_pos h, allOnes_eq, applyMask_allOnes, write_ok h hz]

/-- The write of the low half, with the carry into the high one. -/
theorem writeAccumulated_lo (hhi : rf.Valid (.mips 32)) (hlo : rf.Valid (.mips 33))
    (val : BitVec 32) (accumulation : ℤ) : ∃ rf₁,
    rf.writeAccumulated (.mips 33) val (allOnes 32) accumulation = .ok rf₁
      ∧ rf₁.maxReg = rf.maxReg
      ∧ rf₁.get (.mips 33) = (rf.accumulate (.mips 33) val accumulation).1
      ∧ rf₁.get (.mips 32) = if (rf.accumulate (.mips 33) val accumulation).2
        then (rf.accumulate (.mips 32) 1#32 accumulation).1 else rf.get (.mips 32) := by
  unfold writeAccumulated
  rw [if_pos hlo]
  dsimp only
  rcases hc : (rf.accumulate (.mips 33) val accumulation).2 with _ | _
  · rw [if_neg (by decide), writeMasked_allOnes hlo rfl]
    exact ⟨_, rfl, rfl, rfl, rfl⟩
  · have hcarry : rf.carry mipsHi (allOnes 32) accumulation
        = .ok (rf.set mipsHi (rf.accumulate mipsHi 1#32 accumulation).1) := by
      exact (if_pos hhi).trans (writeMasked_allOnes hhi rfl _)
    have hset : (rf.set mipsHi (rf.accumulate mipsHi 1#32 accumulation).1).Valid (.mips 33) := hlo
    rw [if_pos (by decide), hcarry]
    exact ⟨_, writeMasked_allOnes hset rfl _, rfl, rfl, rfl⟩

/-- The write of the high half. -/
theorem writeAccumulated_hi (hhi : rf.Valid (.mips 32)) (val : BitVec 32) (accumulation : ℤ) :
    ∃ rf₁, rf.writeAccumulated (.mips 32) val (allOnes 32) accumulation = .ok rf₁
      ∧ rf₁.get (.mips 33) = rf.get (.mips 33)
      ∧ rf₁.get (.mips 32) = (rf.accumulate (.mips 32) val accumulation).1 := by
  unfold writeAccumulated
  rw [if_pos hhi]
  dsimp only
  rw [if_neg (by simp [Register.isMipsLo]), writeMasked_allOnes hhi rfl]
  exact ⟨_, rfl, rfl, rfl⟩

/-- What an accumulation makes of the old value and the new one. -/
def accumulated (accumulation : ℤ) (old value : BitVec 64) : BitVec 64 :=
  if accumulation = 1 then old + value else if accumulation = -1 then old - value else value

theorem accumulate_eq (num : Register) (val : BitVec 32) (accumulation : ℤ) :
    rf.accumulate num val accumulation
      = if accumulation = 1 then (rf.get num + val, decide (MAX_VAL32 - rf.get num < val))
        else if accumulation = -1 then (rf.get num - val, decide (rf.get num < val))
        else (val, false) := by
  simp [accumulate, addition, subtraction]

/-- Both writes together act on the 64-bit value. -/
theorem writeDst_accumulator (hhi : rf.Valid (.mips 32)) (hlo : rf.Valid (.mips 33))
    {instr : FuncInstr 32} (hdst0 : instr.dst0 = .mips 33) (hdst1 : instr.dst1 = .mips 32)
    (hmask : instr.mask = allOnes 32) : ∃ rf', rf.writeDst instr = .ok rf'
      ∧ rf'.accumulator = accumulated instr.getAccumulationType rf.accumulator
        (instr.vDst1 ++ instr.vDst0) := by
  obtain ⟨rf₁, h₁, hmax, hlo₁, hhi₁⟩ :=
    writeAccumulated_lo hhi hlo instr.vDst0 instr.getAccumulationType
  have hvalid : rf₁.Valid (.mips 32) := by rwa [Valid, hmax]
  obtain ⟨rf₂, h₂, hlo₂, hhi₂⟩ :=
    writeAccumulated_hi hvalid instr.vDst1 instr.getAccumulationType
  refine ⟨rf₂, ?_, ?_⟩
  · rw [writeDst, hdst0, hdst1, hmask, h₁]
    exact h₂
  · rw [accumulator, hhi₂, hlo₂, hlo₁, accumulate_eq, hhi₁, accumulate_eq, accumulate_eq]
    unfold accumulated accumulator
    generalize rf.get (.mips 32) = hi
    generalize rf.get (.mips 33) = lo
    by_cases ha : instr.getAccumulationType = 1
    · simp only [if_pos ha]
      rw [← append_add]
      by_cases hc : MAX_VAL32 - lo < instr.vDst0 <;> simp [hc]
    · by_cases hs : instr.getAccumulationType = -1
      · simp only [if_neg ha, if_pos hs]
        rw [← append_sub]
        by_cases hc : lo < instr.vDst0 <;> simp [hc]
      · simp only [if_neg ha, if_neg hs]

end Writes

end RF

section Product

variable (signed : Bool) (x y : BitVec 32)

/-- The two results of a multiplication are the halves of the exact product. -/
theorem append_multiplication :
    (mipsMultiplication signed x y).2 ++ (mipsMultiplication signed x y).1
      = BitVec.ofInt 64 (valueOf signed x * valueOf signed y) := by
  have hvalue : (mipsMultiplication signed x y).2 ++ (mipsMultiplication signed x y).1
      = if signed then x.signExtend 64 * y.signExtend 64 else x.setWidth 64 * y.setWidth 64 :=
    RF.append_halves _
  rw [hvalue]
  cases signed with
  | true =>
    rw [if_pos rfl]
    exact (BitVec.ofInt_mul _ _).symm
  | false =>
    have hcast : ∀ v : BitVec 32, BitVec.ofInt 64 (valueOf false v) = v.setWidth 64 := fun v =>
      (BitVec.ofInt_natCast 64 v.toNat).trans (BitVec.ofNat_toNat 64 v)
    rw [if_neg (by decide), BitVec.ofInt_mul, hcast, hcast]

/-- A product of two values of half the width does not wrap. -/
theorem valueOf_product :
    valueOf signed (BitVec.ofInt 64 (valueOf signed x * valueOf signed y))
      = valueOf signed x * valueOf signed y := by
  cases signed with
  | true =>
    have habs : ∀ v : BitVec 32, |v.toInt| ≤ 2 ^ 31 := fun v =>
      abs_le.2 ⟨BitVec.le_toInt v, (BitVec.toInt_lt (x := v)).le⟩
    have hmul : |x.toInt * y.toInt| ≤ 2 ^ 31 * 2 ^ 31 := by
      rw [abs_mul]
      exact mul_le_mul (habs x) (habs y) (abs_nonneg _) (by decide)
    obtain ⟨hlo, hhi⟩ := abs_le.1 hmul
    exact BitVec.toInt_ofInt_eq_self (by decide) (by show _ ≤ x.toInt * y.toInt; omega)
      (by show x.toInt * y.toInt < _; omega)
  | false =>
    have hlt : x.toNat * y.toNat < 2 ^ 32 * 2 ^ 32 := Nat.mul_lt_mul'' x.isLt y.isLt
    have hcast : valueOf false x * valueOf false y = (x.toNat * y.toNat : ℕ) := by
      push_cast
      rfl
    rw [hcast, BitVec.ofInt_natCast]
    show ((BitVec.ofNat 64 (x.toNat * y.toNat)).toNat : ℤ) = _
    rw [BitVec.toNat_ofNat, Nat.mod_eq_of_lt (by omega)]

end Product

namespace Mips

/-- The instructions that write HI and LO with a product. -/
inductive Accumulating where
  | mult | multu | madd | maddu | msub | msubu
  deriving DecidableEq, Repr

namespace Accumulating

def mnemonic : Accumulating → String
  | mult => "mult"
  | multu => "multu"
  | madd => "madd"
  | maddu => "maddu"
  | msub => "msub"
  | msubu => "msubu"

def signed : Accumulating → Bool
  | mult | madd | msub => true
  | multu | maddu | msubu => false

/-- What the instruction makes of HI and LO. -/
def Law (m : Accumulating) (x y : BitVec 32) (old new : BitVec 64) : Prop :=
  let product := valueOf m.signed x * valueOf m.signed y
  match m with
  | mult | multu => valueOf m.signed new = product
  | madd | maddu => new = old + BitVec.ofInt 64 product
  | msub | msubu => new = old - BitVec.ofInt 64 product

def operation : Accumulating → OperationType
  | mult | multu => .outDivmult
  | madd | maddu => .outRAccum
  | msub | msubu => .outRSubtr

def accumulation : Accumulating → ℤ
  | mult | multu => 0
  | madd | maddu => 1
  | msub | msubu => -1

end Accumulating

open MipsTable in
theorem accumulating_entries : ∀ e ∈ entries, ∀ m : Accumulating, e.name = m.mnemonic →
    e.function = .multiplication 32 m.signed ∧ e.operation = m.operation
      ∧ e.dst = [.lo, .hi] := by
  intro e he m
  revert e
  cases m <;> decide +kernel

/-- For every accumulator and every pair of operands: after the write-back, HI and LO together are
the product, or the old value with the product added or subtracted. -/
theorem accumulation_exact (version : MipsVersion) (endian : Endian) (bytes : BitVec 32) (PC : Addr)
    (m : Accumulating) (hname : (MipsTable.getTableEntry bytes).name = m.mnemonic)
    (hsup : (MipsTable.getTableEntry bytes).versions.isSupported version) (rf : RF 32)
    (hrf : rf.maxReg = MipsRegister.maxReg) (x y : BitVec 32) :
    let instr := { createInstr version endian bytes PC 32 with vSrc0 := x, vSrc1 := y }
    ∃ rf', rf.writeDst instr.execute = .ok rf' ∧ m.Law x y rf.accumulator rf'.accumulator := by
  obtain ⟨hfun, hop, hdst⟩ := accumulating_entries _ (MipsTable.getTableEntry_mem bytes) m hname
  have hmask := (createInstr_fresh version endian bytes PC (w := 32)).mask
  have hdsts := dst_createInstr (w := 32) version endian bytes PC
  have hhi : rf.Valid (.mips 32) := RF.valid_of_maxReg hrf (by decide)
  have hlo : rf.Valid (.mips 33) := RF.valid_of_maxReg hrf (by decide)
  intro instr
  have hexec : instr.executor = .multiplication 32 m.signed := by
    show (createInstr version endian bytes PC 32).executor = _
    rw [executor_createInstr, if_pos hsup, hfun]
  have hdst0 : instr.dst0 = .mips 33 := hdsts.1.trans (by rw [hdst]; rfl)
  have hdst1 : instr.dst1 = .mips 32 := hdsts.2.trans (by rw [hdst]; rfl)
  have hoper : instr.operation = m.operation :=
    (operation_createInstr version endian bytes PC).trans hop
  have hrun : instr.execute
      = { Alu.setBoth instr (mipsMultiplication m.signed x y) with complete := true } := by
    rw [FuncInstr.execute, hexec, Executor.run, BitVec.setWidth_eq, BitVec.setWidth_eq]
  have hdst0' : instr.execute.dst0 = .mips 33 := by rw [hrun]; exact hdst0
  have hdst1' : instr.execute.dst1 = .mips 32 := by rw [hrun]; exact hdst1
  have hmask' : instr.execute.mask = allOnes 32 := by rw [hrun]; exact hmask
  have hvalue : instr.execute.vDst1 ++ instr.execute.vDst0
      = BitVec.ofInt 64 (valueOf m.signed x * valueOf m.signed y) := by
    rw [← append_multiplication, hrun]
    simp [Alu.setBoth]
  have htype : instr.execute.getAccumulationType = m.accumulation := by
    have hoper' : instr.execute.operation = m.operation := by rw [hrun]; exact hoper
    rw [FuncInstr.getAccumulationType, hoper']
    cases m <;> rfl
  obtain ⟨rf', hwrite, hacc⟩ := RF.writeDst_accumulator hhi hlo hdst0' hdst1' hmask'
  refine ⟨rf', hwrite, ?_⟩
  rw [htype, hvalue] at hacc
  rw [hacc]
  cases m with
  | mult => exact valueOf_product true x y
  | multu => exact valueOf_product false x y
  | madd => rfl
  | maddu => rfl
  | msub => rfl
  | msubu => rfl

/-- A subtraction that borrows from HI. -/
theorem accumulation_exact_borrow : ∃ rf',
    (RF.zeroed 32 MipsRegister.maxReg).writeDst
        { createInstr .v32 .little 0x712a0005#32 0x1000#64 32 with
          vSrc0 := 2#32, vSrc1 := 3#32 }.execute = .ok rf'
      ∧ Accumulating.msubu.Law 2#32 3#32 (RF.zeroed 32 MipsRegister.maxReg).accumulator
        rf'.accumulator :=
  accumulation_exact .v32 .little 0x712a0005#32 0x1000#64 .msubu (by decide) (by decide)
    (RF.zeroed 32 MipsRegister.maxReg) rfl 2#32 3#32

end Mips

end MiptMips
