import MiptMips.FuncSim.Permutations
import MiptMips.RiscV.Units

/-!
# The permutation instructions

The laws of the networks, for the instructions that run them on registers of 32 and 64 bits.
-/

namespace MiptMips

open Alu

namespace RiscV

variable {w : ℕ}

section Laws

/-- Each bit comes from the index that differs by the amount. -/
def ReverseLaw (x : BitVec w) (s : ℕ) (result : BitVec w) : Prop :=
  ∀ i < w, result.getLsbD i = x.getLsbD (i ^^^ s)

/-- Each bit is the disjunction over all indices that differ in a part of the amount. -/
def CombineLaw (x : BitVec w) (s : ℕ) (result : BitVec w) : Prop :=
  ∀ i < w, result.getLsbD i ↔ ∃ t, SubsetBits t s ∧ x.getLsbD (i ^^^ t)

end Laws

section Instructions

variable (instr : FuncInstr w)

theorem width_eq (hw : w = 32 ∨ w = 64) : w = 2 ^ logBitwidth w := by
  rcases hw with rfl | rfl <;> rfl

theorem shamtVSrc2_eq_mod_width (hw : w = 32 ∨ w = 64) :
    shamtVSrc2 instr w = instr.vSrc1.toNat % w := by
  rw [shamtVSrc2, and_bitmask]
  simp only [BitVec.toNat_setWidth]
  rcases hw with rfl | rfl <;> simp only [logBitwidth] <;> omega

theorem shamtImm_eq (hw : w = 32 ∨ w = 64) : shamtImm instr = instr.vImm.toNat := by
  have hle : w ≤ 64 := by omega
  rw [shamtImm, BitVec.toNat_setWidth_of_le hle]

theorem resultOf_grev : resultOf "grev" instr
    = some (genReverse instr.vSrc0 (shamtVSrc2 instr w)) := by
  rw [resultOf_of_unit .grev instr rfl]
  simp [Executor.run, setDst]

theorem resultOf_gorc : resultOf "gorc" instr
    = some (genOrCombine instr.vSrc0 (shamtVSrc2 instr w)) := by
  rw [resultOf_of_unit (.gorc w) instr rfl]
  simp [Executor.run, setDst]

theorem resultOf_gorci : resultOf "gorci" instr
    = some (genOrCombine instr.vSrc0 (shamtImm instr)) := by
  rw [resultOf_of_unit .gorci instr rfl]
  simp [Executor.run, setDst]

theorem resultOf_shfl : resultOf "shfl" instr = some (shuffle instr.vSrc0 instr.vSrc1) := by
  rw [resultOf_of_unit .riscvShfl instr rfl]
  simp [Executor.run, setDst]

theorem resultOf_unshfl : resultOf "unshfl" instr = some (unshuffle instr.vSrc0 instr.vSrc1) := by
  rw [resultOf_of_unit .riscvUnshfl instr rfl]
  simp [Executor.run, setDst]

/-- For every value and amount: the bit laws, and a second run of each instruction. -/
theorem reverse_combine_laws (hw : w = 32 ∨ w = 64) : ∃ grev gorc gorci : BitVec w,
    resultOf "grev" instr = some grev ∧ resultOf "gorc" instr = some gorc
      ∧ resultOf "gorci" instr = some gorci
      ∧ ReverseLaw instr.vSrc0 (instr.vSrc1.toNat % w) grev
      ∧ CombineLaw instr.vSrc0 (instr.vSrc1.toNat % w) gorc
      ∧ CombineLaw instr.vSrc0 (instr.vImm.toNat % w) gorci
      ∧ resultOf "grev" { instr with vSrc0 := grev } = some instr.vSrc0
      ∧ resultOf "gorc" { instr with vSrc0 := gorc } = some gorc
      ∧ resultOf "gorci" { instr with vSrc0 := gorci } = some gorci := by
  have hpow := width_eq hw
  have hs := shamtVSrc2_eq_mod_width instr hw
  refine ⟨_, _, _, resultOf_grev instr, resultOf_gorc instr, resultOf_gorci instr,
    fun i hi => ?_, fun i hi => ?_, fun i hi => ?_, ?_, ?_, ?_⟩
  · rw [getLsbD_genReverse hpow _ _ hi, hs, Nat.mod_mod]
  · rw [getLsbD_genOrCombine hpow _ _ hi, hs, Nat.mod_mod]
  · rw [getLsbD_genOrCombine hpow _ _ hi, shamtImm_eq instr hw]
  · rw [resultOf_grev]
    exact congrArg some (genReverse_genReverse hpow _ _)
  · rw [resultOf_gorc]
    exact congrArg some (genOrCombine_genOrCombine hpow _ _)
  · rw [resultOf_gorci]
    exact congrArg some (genOrCombine_genOrCombine hpow _ _)

/-- A byte swap, and the combination of each byte. -/
theorem reverse_combine_laws_bytes : ∃ grev gorc gorci : BitVec 32,
    resultOf "grev" (withOperands 0x12345678#32 24#32) = some grev
      ∧ resultOf "gorc" (withOperands 0x12345678#32 24#32) = some gorc
      ∧ resultOf "gorci" (withOperands 0x12345678#32 24#32) = some gorci
      ∧ ReverseLaw 0x12345678#32 24 grev ∧ CombineLaw 0x12345678#32 24 gorc := by
  obtain ⟨r, c, ci, hr, hc, hci, hrev, hcomb, -⟩ :=
    reverse_combine_laws (withOperands 0x12345678#32 24#32) (.inl rfl)
  exact ⟨r, c, ci, hr, hc, hci, hrev, hcomb⟩

/-- The shuffles undo each other under every control value, of which only the low bits count, and
move bits only. -/
theorem shuffle_inverse (hw : w = 32 ∨ w = 64) : ∃ shfl unshfl : BitVec w,
    resultOf "shfl" instr = some shfl ∧ resultOf "unshfl" instr = some unshfl
      ∧ resultOf "unshfl" { instr with vSrc0 := shfl } = some instr.vSrc0
      ∧ resultOf "shfl" { instr with vSrc0 := unshfl } = some instr.vSrc0
      ∧ popcount shfl = popcount instr.vSrc0 ∧ popcount unshfl = popcount instr.vSrc0
      ∧ ∀ control, (∀ i < logBitwidth w - 1, control.getLsbD i = instr.vSrc1.getLsbD i) →
        resultOf "shfl" { instr with vSrc1 := control } = some shfl
          ∧ resultOf "unshfl" { instr with vSrc1 := control } = some unshfl := by
  have hpow := width_eq hw
  refine ⟨_, _, resultOf_shfl instr, resultOf_unshfl instr, ?_, ?_, popcount_shuffle _ _ hpow,
    popcount_unshuffle _ _ hpow, fun control hcontrol => ⟨?_, ?_⟩⟩
  · rw [resultOf_unshfl]
    exact congrArg some (unshuffle_shuffle _ _ hpow)
  · rw [resultOf_shfl]
    exact congrArg some (shuffle_unshuffle _ _ hpow)
  · rw [resultOf_shfl, (shuffle_congr hcontrol _).1]
  · rw [resultOf_unshfl, (shuffle_congr hcontrol _).2]

/-- A perfect shuffle of 64 bits, with a control word whose upper bits are set. -/
theorem shuffle_inverse_perfect : ∃ shfl unshfl : BitVec 64,
    resultOf "shfl" (withOperands 0xff00ff00#64 0xffffffffffffffff#64) = some shfl
      ∧ resultOf "unshfl" (withOperands 0xff00ff00#64 0xffffffffffffffff#64) = some unshfl
      ∧ resultOf "unshfl" (withOperands shfl 0xffffffffffffffff#64) = some 0xff00ff00#64
      ∧ popcount shfl = popcount 0xff00ff00#64 := by
  obtain ⟨s, u, hs, hu, hus, -, hp, -⟩ :=
    shuffle_inverse (withOperands 0xff00ff00#64 0xffffffffffffffff#64) (.inr rfl)
  exact ⟨s, u, hs, hu, hus, hp⟩

end Instructions

end RiscV

end MiptMips
