import MiptMips.Mips.Narrow

/-!
# Narrow register files

Cutting all registers of a 64-bit file to their low halves gives a 32-bit file. Reading and
writing commute with it, also under masks and when the write accumulates.
-/

namespace MiptMips

namespace RF

def narrow (rf : RF 64) : RF 32 := ⟨rf.maxReg, fun i => (rf.array i).setWidth 32⟩

variable {rf : RF 64} {num : Register} {val mask : BitVec 64}

theorem get_narrow (num : Register) : rf.narrow.get num = (rf.get num).setWidth 32 := rfl

theorem set_narrow : (rf.set num val).narrow = rf.narrow.set num (val.setWidth 32) := by
  unfold narrow set
  congr 1
  funext i
  dsimp only
  split_ifs <;> rfl

theorem applyMask_narrow :
    rf.narrow.applyMask num (val.setWidth 32) (mask.setWidth 32)
      = (rf.applyMask num val mask).setWidth 32 := by
  rw [applyMask, applyMask, get_narrow, BitVec.setWidth_or, BitVec.setWidth_and,
    BitVec.setWidth_and, BitVec.setWidth_not (by decide)]

theorem writeMasked_narrow :
    rf.narrow.writeMasked num (val.setWidth 32) (mask.setWidth 32)
      = (rf.writeMasked num val mask).map narrow := by
  have hv : rf.narrow.Valid num ↔ rf.Valid num := Iff.rfl
  unfold writeMasked write
  rw [applyMask_narrow]
  simp only [hv]
  split_ifs
  · rfl
  · exact congrArg Except.ok set_narrow.symm
  · rfl

theorem accumulate_narrow (accumulation : ℤ) :
    rf.narrow.accumulate num (val.setWidth 32) accumulation
      = ((rf.accumulate num val accumulation).1.setWidth 32,
        (rf.accumulate num val accumulation).2) := by
  unfold accumulate
  split_ifs <;> simp [addition, subtraction, get_narrow]

theorem carry_narrow (hi : Register) (accumulation : ℤ) :
    rf.narrow.carry hi (mask.setWidth 32) accumulation
      = (rf.carry hi mask accumulation).map narrow := by
  have hv : rf.narrow.Valid hi ↔ rf.Valid hi := Iff.rfl
  have hone : (1#64).setWidth 32 = 1#32 := by decide
  have ha := @accumulate_narrow rf hi (1#64) accumulation
  rw [hone] at ha
  unfold carry
  simp only [hv]
  split_ifs
  · rw [ha, ← writeMasked_narrow]
  · rfl

theorem writeAccumulated_narrow (accumulation : ℤ) :
    rf.narrow.writeAccumulated num (val.setWidth 32) (mask.setWidth 32) accumulation
      = (rf.writeAccumulated num val mask accumulation).map narrow := by
  have hv : rf.narrow.Valid num ↔ rf.Valid num := Iff.rfl
  unfold writeAccumulated
  simp only [hv, accumulate_narrow]
  split_ifs
  · rw [carry_narrow]
    rcases rf.carry mipsHi mask accumulation with e | rf₁
    · rfl
    · exact writeMasked_narrow
  · exact writeMasked_narrow
  · rfl

theorem writeDst_narrow (g : FuncInstr 64) :
    rf.narrow.writeDst g.narrow = (rf.writeDst g).map narrow := by
  have hones : (allOnes 64).setWidth 32 = allOnes 32 := by decide
  have h₀ : rf.narrow.writeAccumulated g.dst0 (g.vDst0.setWidth 32) (g.mask.setWidth 32)
      g.getAccumulationType = _ := writeAccumulated_narrow g.getAccumulationType
  unfold writeDst
  rw [← hones]
  show (rf.narrow.writeAccumulated g.dst0 (g.vDst0.setWidth 32) (g.mask.setWidth 32)
    g.getAccumulationType >>= _) = _
  rw [h₀]
  rcases rf.writeAccumulated g.dst0 g.vDst0 g.mask g.getAccumulationType with e | rf₁
  · rfl
  · exact writeAccumulated_narrow g.getAccumulationType

end RF

end MiptMips
