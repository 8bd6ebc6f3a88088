import MiptMips.FuncSim.Operation
import MiptMips.Infra.Exception

/-!
# The register file

The array is read and written through checked accesses: an index past its end throws. A write can
be masked, and a write of an accumulating instruction adds the new value to the old one in 32 bits
and carries from the low half of the accumulator into the high one.
-/

namespace MiptMips

/-- The register file: `maxReg` registers of `w` bits. -/
structure RF (w : ℕ) where
  maxReg : ℕ
  array : ℕ → BitVec w

namespace RF

variable {w : ℕ}

/-- All registers hold zero. -/
def zeroed (w maxReg : ℕ) : RF w := ⟨maxReg, fun _ => 0#w⟩

def set (rf : RF w) (num : Register) (val : BitVec w) : RF w :=
  { rf with array := fun i => if i = num.toRfIndex then val else rf.array i }

def get (rf : RF w) (num : Register) : BitVec w := rf.array num.toRfIndex

section Access

variable (rf : RF w)

def Valid (num : Register) : Prop := num.toRfIndex < rf.maxReg

instance (num : Register) : Decidable (rf.Valid num) := inferInstanceAs (Decidable (_ < _))

/-- `array.at`. -/
def getValue (num : Register) : Except SimException (BitVec w) :=
  if rf.Valid num then .ok (rf.get num) else .error .outOfRange

def read (num : Register) : Except SimException (BitVec w) := rf.getValue num

def write (num : Register) (val : BitVec w) : Except SimException (RF w) :=
  if num.isZero then .ok rf
  else if rf.Valid num then .ok (rf.set num val) else .error .outOfRange

def applyMask (num : Register) (val mask : BitVec w) : BitVec w :=
  (rf.get num &&& ~~~mask) ||| (val &&& mask)

def writeMasked (num : Register) (val mask : BitVec w) : Except SimException (RF w) :=
  if rf.Valid num then rf.write num (rf.applyMask num val mask) else .error .outOfRange

end Access

section Accumulation

/-- The sum in 32 bits, and whether it wrapped. -/
def addition (x y : BitVec 32) : BitVec w × Bool :=
  ((x + y).setWidth w, decide (MAX_VAL32 - x < y))

def subtraction (x y : BitVec 32) : BitVec w × Bool :=
  ((x - y).setWidth w, decide (x < y))

variable (rf : RF w)

def accumulate (num : Register) (val : BitVec w) (accumulation : ℤ) : BitVec w × Bool :=
  if accumulation = 1 then addition ((rf.get num).setWidth 32) (val.setWidth 32)
  else if accumulation = -1 then subtraction ((rf.get num).setWidth 32) (val.setWidth 32)
  else (val, false)

def carry (mipsHi : Register) (mask : BitVec w) (accumulation : ℤ) : Except SimException (RF w) :=
  if rf.Valid mipsHi then
    rf.writeMasked mipsHi (rf.accumulate mipsHi 1#w accumulation).1 mask
  else .error .outOfRange

def mipsHi : Register := .mips 32

def writeAccumulated (num : Register) (val mask : BitVec w) (accumulation : ℤ) :
    Except SimException (RF w) :=
  if rf.Valid num then
    let (newVal, doCarry) := rf.accumulate num val accumulation
    if num.isMipsLo && doCarry then do
      let rf ← rf.carry mipsHi mask accumulation
      rf.writeMasked num newVal mask
    else rf.writeMasked num newVal mask
  else .error .outOfRange

end Accumulation

section Instr

variable (rf : RF w) (instr : FuncInstr w)

def readSources : Except SimException (FuncInstr w) := do
  let vSrc0 ← rf.read instr.src0
  let vSrc1 ← rf.read instr.src1
  return { instr with vSrc0 := vSrc0, vSrc1 := vSrc1 }

def writeDst : Except SimException (RF w) := do
  let rf ← rf.writeAccumulated instr.dst0 instr.vDst0 instr.mask instr.getAccumulationType
  rf.writeAccumulated instr.dst1 instr.vDst1 (allOnes w) instr.getAccumulationType

end Instr

section Written

variable {rf rf' : RF w} {num : Register} {val mask : BitVec w}

@[simp]
theorem applyMask_allOnes (num : Register) (val : BitVec w) :
    rf.applyMask num val (BitVec.allOnes w) = val := by
  simp [applyMask]

theorem valid_of_maxReg {n : ℕ} (hmax : rf.maxReg = n) (h : num.toRfIndex < n) : rf.Valid num := by
  rwa [Valid, hmax]

theorem read_ok (h : rf.Valid num) : rf.read num = .ok (rf.get num) := if_pos h

theorem write_ok (h : rf.Valid num) (hz : num.isZero = false) :
    rf.write num val = .ok (rf.set num val) := by
  unfold write
  rw [if_neg (by simp [hz]), if_pos h]

theorem eq_set_of_write (hz : num.isZero = false) (h : rf.write num val = .ok rf') :
    rf' = rf.set num val := by
  unfold write at h
  rw [if_neg (by simp [hz])] at h
  split_ifs at h
  exact (Except.ok.inj h).symm

theorem writeMasked_ok (h : rf.Valid num) (val mask : BitVec w) : ∃ rf',
    rf.writeAccumulated num val mask 0 = .ok rf' ∧ rf'.maxReg = rf.maxReg := by
  unfold writeAccumulated
  rw [if_pos h]
  simp only [accumulate, Int.reduceEq, if_false, Bool.and_false, Bool.false_eq_true]
  unfold writeMasked write
  rw [if_pos h]
  split_ifs
  · exact ⟨rf, rfl, rfl⟩
  · exact ⟨_, rfl, rfl⟩

/-- A write to the zero register changes nothing. -/
theorem writeAccumulated_of_isZero (hz : num.isZero) (accumulation : ℤ) :
    rf.writeAccumulated num val mask accumulation
      = if rf.Valid num then .ok rf else .error .outOfRange := by
  have hlo : num.isMipsLo = false := by
    rcases num with n | n
    · have hn : n = 0 := by simpa [Register.isZero, Register.toRfIndex] using hz
      rw [hn]
      rfl
    · rfl
  unfold writeAccumulated writeMasked write
  simp only [hlo, hz, Bool.false_and, Bool.false_eq_true, if_false, if_true]
  by_cases hv : rf.Valid num <;> simp [hv]

theorem valid_of_writeAccumulated {accumulation : ℤ}
    (h : rf.writeAccumulated num val mask accumulation = .ok rf') : rf.Valid num := by
  unfold writeAccumulated at h
  split_ifs at h with hv
  exact hv

theorem get_set (d : Register) :
    (rf.set num val).get d = if d.toRfIndex = num.toRfIndex then val else rf.get d := rfl

/-- A masked write changes the register it names, unless that is the zero register. -/
theorem get_writeMasked (h : rf.writeMasked num val mask = .ok rf') (d : Register) :
    rf'.get d = if num.isZero = false ∧ d.toRfIndex = num.toRfIndex
      then rf.applyMask num val mask else rf.get d := by
  unfold writeMasked at h
  split_ifs at h with hv
  unfold write at h
  split_ifs at h with hz
  · cases h
    simp [hz]
  · cases h
    simp [hz, get_set]

theorem writeAccumulated_zero (h : rf.writeAccumulated num val mask 0 = .ok rf') :
    rf.writeMasked num val mask = .ok rf' := by
  unfold writeAccumulated at h
  split_ifs at h with hv
  simpa [accumulate] using h

/-- An accumulating write of the low half: the register ends with the accumulated value. -/
theorem get_writeAccumulated_lo {accumulation : ℤ}
    (h : rf.writeAccumulated num val (allOnes w) accumulation = .ok rf') (hz : num.isZero = false) :
    rf'.get num = (rf.accumulate num val accumulation).1 := by
  unfold writeAccumulated at h
  split_ifs at h with hv
  dsimp only at h
  split_ifs at h
  · rcases hc : rf.carry mipsHi (allOnes w) accumulation with e | rf₁
    · rw [hc] at h
      cases h
    · rw [hc] at h
      simpa [hz] using get_writeMasked h num
  · simpa [hz] using get_writeMasked h num

/-- A write to a register other than the low half of the accumulator leaves the others alone. -/
theorem get_writeAccumulated_ne {accumulation : ℤ} {d : Register}
    (h : rf.writeAccumulated num val mask accumulation = .ok rf') (hlo : num.isMipsLo = false)
    (hd : d.toRfIndex ≠ num.toRfIndex) : rf'.get d = rf.get d := by
  unfold writeAccumulated at h
  split_ifs at h with hv
  simp only [hlo, Bool.false_and, Bool.false_eq_true, if_false] at h
  simpa [hd] using get_writeMasked h d

theorem writeDst_ok {instr : FuncInstr w} (h : rf.writeDst instr = .ok rf') : ∃ rf₁,
    rf.writeAccumulated instr.dst0 instr.vDst0 instr.mask instr.getAccumulationType = .ok rf₁
      ∧ rf₁.writeAccumulated instr.dst1 instr.vDst1 (allOnes w) instr.getAccumulationType
        = .ok rf' := by
  unfold writeDst at h
  rcases h₁ : rf.writeAccumulated instr.dst0 instr.vDst0 instr.mask instr.getAccumulationType
    with e | rf₁
  · rw [h₁] at h
    cases h
  · rw [h₁] at h
    exact ⟨rf₁, rfl, h⟩

/-- Without an accumulator, results for registers of the file are written. -/
theorem writeDst_total {instr : FuncInstr w} (h₀ : rf.Valid instr.dst0) (h₁ : rf.Valid instr.dst1)
    (hacc : instr.getAccumulationType = 0) :
    ∃ rf', rf.writeDst instr = .ok rf' ∧ rf'.maxReg = rf.maxReg := by
  obtain ⟨rf₁, hw₁, hmax₁⟩ := writeMasked_ok h₀ instr.vDst0 instr.mask
  have hv : rf₁.Valid instr.dst1 := by rwa [Valid, hmax₁]
  obtain ⟨rf₂, hw₂, hmax₂⟩ := writeMasked_ok hv instr.vDst1 (allOnes w)
  refine ⟨rf₂, ?_, hmax₂.trans hmax₁⟩
  rw [writeDst, hacc, hw₁]
  exact hw₂

/-- What is written depends on the results, but for those of the zero register, and on the mask. -/
theorem writeDst_congr {f g : FuncInstr w} (hdst0 : f.dst0 = g.dst0) (hdst1 : f.dst1 = g.dst1)
    (hop : f.operation = g.operation)
    (h₀ : f.dst0.isZero ∨ f.vDst0 = g.vDst0 ∧ f.mask = g.mask)
    (h₁ : f.dst1.isZero ∨ f.vDst1 = g.vDst1) : rf.writeDst f = rf.writeDst g := by
  have hacc : f.getAccumulationType = g.getAccumulationType := by
    unfold FuncInstr.getAccumulationType
    rw [hop]
  have hfirst : rf.writeAccumulated f.dst0 f.vDst0 f.mask f.getAccumulationType
      = rf.writeAccumulated g.dst0 g.vDst0 g.mask g.getAccumulationType := by
    rw [← hdst0, ← hacc]
    rcases h₀ with hz | ⟨hv, hm⟩
    · rw [writeAccumulated_of_isZero hz, writeAccumulated_of_isZero hz]
    · rw [hv, hm]
  unfold writeDst
  rw [hfirst, ← hdst1, ← hacc]
  rcases h₁ with hz | hv
  · simp only [writeAccumulated_of_isZero hz]
  · rw [hv]

/-- The registers after the results of an instruction that does not accumulate are written. -/
theorem get_writeDst {instr : FuncInstr w} (h : rf.writeDst instr = .ok rf')
    (hacc : instr.getAccumulationType = 0) (d : Register) :
    rf'.get d = if instr.dst1.isZero = false ∧ d.toRfIndex = instr.dst1.toRfIndex then instr.vDst1
      else if instr.dst0.isZero = false ∧ d.toRfIndex = instr.dst0.toRfIndex
        then rf.applyMask instr.dst0 instr.vDst0 instr.mask else rf.get d := by
  obtain ⟨rf₁, h₀, h₁⟩ := writeDst_ok h
  rw [hacc] at h₀ h₁
  rw [get_writeMasked (writeAccumulated_zero h₁) d, get_writeMasked (writeAccumulated_zero h₀) d,
    allOnes_eq, applyMask_allOnes]

/-- A write leaves a register alone that is neither its own nor the one that takes the carry. -/
theorem get_writeAccumulated_of_ne {accumulation : ℤ} {d : Register}
    (h : rf.writeAccumulated num val mask accumulation = .ok rf')
    (hd : d.toRfIndex ≠ num.toRfIndex) (hhi : d.toRfIndex ≠ mipsHi.toRfIndex) :
    rf'.get d = rf.get d := by
  unfold writeAccumulated at h
  split_ifs at h with hv
  dsimp only at h
  split_ifs at h
  · unfold carry at h
    split_ifs at h
    · rcases hc : rf.writeMasked mipsHi (rf.accumulate mipsHi 1#w accumulation).1 mask with e | rf₁
      · rw [hc] at h
        cases h
      · rw [hc] at h
        exact (by simpa [hd] using get_writeMasked h d : rf'.get d = rf₁.get d).trans
          (by simpa [hhi] using get_writeMasked hc d)
    · cases h
  · simpa [hd] using get_writeMasked h d

/-- The registers that an instruction does not write; if it accumulates, it names both halves of
the accumulator. -/
theorem get_writeDst_of_ne {instr : FuncInstr w} (h : rf.writeDst instr = .ok rf')
    (hacc : instr.getAccumulationType ≠ 0 → instr.dst0 = .mips 33 ∧ instr.dst1 = .mips 32)
    {d : Register} (h₀ : instr.dst0.isZero = false → d.toRfIndex ≠ instr.dst0.toRfIndex)
    (h₁ : instr.dst1.isZero = false → d.toRfIndex ≠ instr.dst1.toRfIndex) :
    rf'.get d = rf.get d := by
  by_cases ha : instr.getAccumulationType = 0
  · rw [get_writeDst h ha, if_neg fun hn => h₁ hn.1 hn.2, if_neg fun hn => h₀ hn.1 hn.2]
  · obtain ⟨hd₀, hd₁⟩ := hacc ha
    obtain ⟨rf₁, hw₀, hw₁⟩ := writeDst_ok h
    rw [hd₀] at h₀ hw₀
    rw [hd₁] at h₁ hw₁
    rw [get_writeAccumulated_ne hw₁ rfl (h₁ rfl)]
    exact get_writeAccumulated_of_ne hw₀ (h₀ rfl) (h₁ rfl)

/-- Adding to or subtracting from the accumulator something that is not a multiple of `2 ^ 32`
changes its low half. -/
theorem accumulate_ne (hw : 32 ≤ w) {accumulation : ℤ} (hacc : accumulation = 1 ∨ accumulation = -1)
    (hval : val.setWidth 32 ≠ 0#32) : (rf.accumulate num val accumulation).1 ≠ rf.get num := by
  intro h
  rcases hacc with rfl | rfl
  · have h' := congrArg (BitVec.setWidth 32) h
    simp only [accumulate, if_true, addition, BitVec.setWidth_setWidth_of_le _ hw,
      BitVec.setWidth_eq] at h'
    exact hval (BitVec.add_right_eq_self.1 h')
  · have h' := congrArg (BitVec.setWidth 32) h
    have hne : ¬ (-1 : ℤ) = 1 := by decide
    simp only [accumulate, if_neg hne, if_true, subtraction, BitVec.setWidth_setWidth_of_le _ hw,
      BitVec.setWidth_eq] at h'
    rw [BitVec.sub_eq_iff_eq_add] at h'
    exact hval (BitVec.self_eq_add_right.1 h')

end Written

end RF

end MiptMips
