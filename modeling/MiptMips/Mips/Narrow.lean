import MiptMips.Lib.SignExtended
import MiptMips.Mips.Instr

/-!
# The low halves of 64-bit instructions

An instruction on 64-bit registers is narrowed by cutting its values to their low 32 bits. The
units of the 32-bit instruction set commute with narrowing as long as the operands whose upper half
they look at are sign-extended: comparisons, tests for overflow, addresses and jump targets. The
others give the same low half whatever the upper halves are (`narrow_run`).
-/

namespace MiptMips

open Bits

section Narrow

def FuncInstr.narrow (g : FuncInstr 64) : FuncInstr 32 where
  operation := g.operation
  trap := g.trap
  memAddr := g.memAddr
  memSize := g.memSize
  delayedSlots := g.delayedSlots
  isTakenBranch := g.isTakenBranch
  PC := g.PC
  newPC := g.newPC
  target := g.target
  sequenceId := g.sequenceId
  vSrc0 := g.vSrc0.setWidth 32
  vSrc1 := g.vSrc1.setWidth 32
  vDst0 := g.vDst0.setWidth 32
  vDst1 := g.vDst1.setWidth 32
  vImm := g.vImm.setWidth 32
  mask := g.mask.setWidth 32
  executor := g.executor
  complete := g.complete
  memoryComplete := g.memoryComplete
  src0 := g.src0
  src1 := g.src1
  dst0 := g.dst0
  dst1 := g.dst1
  raw := g.raw
  endian := g.endian

/-- Predicates on two registers. -/
def Predicate.isBinary : Predicate → Bool
  | eq | ne | geu | ltu | ge | lt => true
  | _ => false

namespace Executor

/-- The units that compute an address of memory. -/
def isAddress : Executor → Bool
  | loadAddr | storeAddr | loadAddrAligned | loadAddrRight32 | loadAddrLeft32
  | storeAddrAligned | storeAddrRight32 | storeAddrLeft32 => true
  | _ => false

def isImmediateShift : Executor → Bool
  | sll _ | srl _ | sra _ => true
  | _ => false

/-- The units that look at the upper half of their first operand. -/
def readsUpper0 : Executor → Bool
  | set _ | branch _ | branchAndLink _ | trap _ => true
  | additionOverflow _ | additionOverflowImm _ | subtractionOverflow _ => true
  | jump .jr | jumpAndLink .jr | eret => true
  | e => e.isAddress

/-- The units that look at the upper half of their second operand. -/
def readsUpper1 : Executor → Bool
  | set p | branch p | branchAndLink p | trap p => p.isBinary
  | additionOverflow _ | subtractionOverflow _ | movn | movz => true
  | _ => false

/-- The units of the 32-bit instruction set. -/
def isMips32 : Executor → Bool
  | doNothing | move | set _ | movn | movz | andv | orv | xorv | nor | andi | ori | xori => true
  | addition T | subtraction T | additionImm T | additionOverflow T | additionOverflowImm T
  | subtractionOverflow T | sll T | srl T | sra T | sllv T | srlv T | srav T | clo T | clz T
  | multiplication T _ | division T _ => T == 32
  | upperImmediate N => N == 16
  | branch _ | branchAndLink _ | jump .j | jump .jr | jumpAndLink .j | jumpAndLink .jr | eret => true
  | breakpoint | syscall | trap _ => true
  | e => e.isAddress

end Executor

/-- The operands whose upper halves are looked at are sign-extended. -/
structure SignSafe (e : Executor) (g : FuncInstr 64) : Prop where
  src0 : e.readsUpper0 → SignExtended 32 g.vSrc0
  src1 : e.readsUpper1 → SignExtended 32 g.vSrc1

/-- An instruction of a program whose code and data lie below `2 ^ 31`. -/
structure BelowLimit (f : FuncInstr 32) : Prop where
  code : f.newPC.toNat < 2 ^ 31
  data : f.executor.isAddress → 0 ≤ f.vSrc0.toInt + f.vImm.toInt
    ∧ f.vSrc0.toInt + f.vImm.toInt < 2 ^ 31

end Narrow

section Values

variable {x y : BitVec 64}

/-- Extension of the sign of the low half leaves the low half alone. -/
theorem setWidth_signExtension (x : BitVec 64) :
    (signExtension 32 x).setWidth 32 = x.setWidth 32 := by
  rw [sign_extension_eq (by decide) (by decide), SignExtended.setWidth_signExtend (by decide)]

theorem signExtension_self (v : BitVec 32) : signExtension 32 v = v := by simp [signExtension]

/-- An address that does not wrap is the same in both widths. -/
theorem address_eq (hx : SignExtended 32 x) (hy : SignExtended 32 y)
    (h₀ : 0 ≤ (x.setWidth 32).toInt + (y.setWidth 32).toInt)
    (h₁ : (x.setWidth 32).toInt + (y.setWidth 32).toInt < 2 ^ 31) :
    x + y = (x.setWidth 32 + y.setWidth 32).setWidth 64 := by
  apply BitVec.eq_of_toNat_eq
  have hxy := BitVec.toInt_add x y
  have hs := BitVec.toInt_add (x.setWidth 32) (y.setWidth 32)
  rw [← hx.toInt_setWidth (by decide), ← hy.toInt_setWidth (by decide)] at hxy
  have hb := BitVec.toInt_eq_toNat_cond (x + y)
  have hb' := BitVec.toInt_eq_toNat_cond (x.setWidth 32 + y.setWidth 32)
  have hlt := (x + y).isLt
  have hlt' := (x.setWidth 32 + y.setWidth 32).isLt
  rw [Int.bmod_eq_of_le (by omega) (by omega)] at hxy hs
  rw [BitVec.toNat_setWidth]
  split_ifs at hb hb' <;> omega

theorem isNegative_eq {w : ℕ} (hw : 0 < w) (v : BitVec w) : isNegative v = v.msb := by
  have hne : BitVec.twoPow w (w - 1) ≠ 0#w := fun h => by
    have := congrArg BitVec.toNat h
    rw [BitVec.toNat_twoPow_of_lt (by omega)] at this
    simp at this
  rw [isNegative, msbSet_eq_twoPow, BitVec.and_twoPow, BitVec.msb_eq_getLsbD_last]
  cases v.getLsbD (w - 1) <;> simp [hne]

theorem msb_setWidth (hx : SignExtended 32 x) : (x.setWidth 32).msb = x.msb := by
  rw [BitVec.msb_eq_toInt, BitVec.msb_eq_toInt, hx.toInt_setWidth (by decide)]

theorem isNegative_setWidth (hx : SignExtended 32 x) :
    isNegative (x.setWidth 32) = isNegative x := by
  rw [isNegative_eq (by decide), isNegative_eq (by decide), msb_setWidth hx]

theorem beq_setWidth (hx : SignExtended 32 x) (hy : SignExtended 32 y) :
    (x.setWidth 32 == y.setWidth 32) = (x == y) := by
  rw [Bool.eq_iff_iff, beq_iff_eq, beq_iff_eq, hx.setWidth_inj hy]

theorem beq_zero_setWidth (hx : SignExtended 32 x) : (x.setWidth 32 == 0#32) = (x == 0#64) :=
  beq_setWidth hx (.zero 32 64)

theorem isPositive_setWidth (hx : SignExtended 32 x) :
    isPositive (x.setWidth 32) = isPositive x := by
  rw [isPositive, isPositive, isNegative_setWidth hx, bne, bne, beq_zero_setWidth hx]

theorem testAdditionOverflow_setWidth (hx : SignExtended 32 x) (hy : SignExtended 32 y) :
    testAdditionOverflow 32 (x.setWidth 32) (y.setWidth 32) = testAdditionOverflow 32 x y := by
  simp only [testAdditionOverflow, isNegative_setWidth, isPositive_setWidth, hx, hy,
    BitVec.setWidth_eq]

theorem testSubtractionOverflow_setWidth (hx : SignExtended 32 x) (hy : SignExtended 32 y) :
    testSubtractionOverflow 32 (x.setWidth 32) (y.setWidth 32) = testSubtractionOverflow 32 x y := by
  simp only [testSubtractionOverflow, isNegative_setWidth, isPositive_setWidth, hx, hy,
    BitVec.setWidth_eq]

end Values

section Units

open Alu

variable {e : Executor} {g : FuncInstr 64}

theorem holds_narrow {p : Predicate} (himm : SignExtended 32 g.vImm)
    (h₀ : SignExtended 32 g.vSrc0) (h₁ : p.isBinary → SignExtended 32 g.vSrc1) :
    holds g.narrow p = holds g p := by
  have hz := SignExtended.zero 32 64
  have hle : (32 : ℕ) ≤ 64 := by decide
  have hzero : (0#64).setWidth 32 = 0#32 := by decide
  cases p with
  | lez =>
    have h := h₀.sle_setWidth hle hz
    rw [hzero] at h
    exact h
  | gez =>
    have h := hz.sle_setWidth hle h₀
    rw [hzero] at h
    exact h
  | ltz =>
    have h := h₀.slt_setWidth hle hz
    rw [hzero] at h
    exact h
  | gtz =>
    have h := hz.slt_setWidth hle h₀
    rw [hzero] at h
    exact h
  | eq => exact beq_setWidth h₀ (h₁ rfl)
  | ne => exact congrArg (!·) (beq_setWidth h₀ (h₁ rfl))
  | geu => exact (h₁ rfl).ule_setWidth hle h₀
  | ltu => exact h₀.ult_setWidth hle (h₁ rfl)
  | ge => exact (h₁ rfl).sle_setWidth hle h₀
  | lt => exact h₀.slt_setWidth hle (h₁ rfl)
  | eqi => exact beq_setWidth h₀ himm
  | nei => exact congrArg (!·) (beq_setWidth h₀ himm)
  | lti => exact h₀.slt_setWidth hle himm
  | gei => exact himm.sle_setWidth hle h₀
  | ltiu => exact h₀.ult_setWidth hle himm
  | geiu => exact himm.ule_setWidth hle h₀

theorem narrow_setDst {T T' : ℕ} {v : BitVec T} {v' : BitVec T'}
    (h : (v.setWidth 64).setWidth 32 = v'.setWidth 32) :
    (setDst g v).narrow = setDst g.narrow v' := by
  simp [FuncInstr.narrow, setDst, h]

theorem narrow_setDst_self (v : BitVec 32) : (setDst g v).narrow = setDst g.narrow v :=
  narrow_setDst (by simp)

theorem narrow_setBoth (v : BitVec 32 × BitVec 32) :
    (setBoth g v).narrow = setBoth g.narrow v := by
  simp [FuncInstr.narrow, setBoth]

theorem narrow_overflowOr (res : BitVec 32 × Bool) :
    (overflowOr g res).narrow = overflowOr g.narrow res := by
  unfold overflowOr
  split_ifs
  · rfl
  · exact narrow_setDst_self _

theorem narrow_moveUnless (c : Bool) : (moveUnless g c).narrow = moveUnless g.narrow c := by
  unfold moveUnless move
  split_ifs
  · simp [FuncInstr.narrow, setDst]
  · exact narrow_setDst (by simp [FuncInstr.narrow])

theorem narrow_checkHaltTrap : (checkHaltTrap g).narrow = checkHaltTrap g.narrow := by
  unfold checkHaltTrap
  split_ifs with h₁ h₂ h₂
  · rfl
  · exact absurd h₁ h₂
  · exact absurd h₂ h₁
  · rfl

theorem narrow_jumpTo (target : Addr) : (jumpTo g target).narrow = jumpTo g.narrow target :=
  narrow_checkHaltTrap

theorem narrow_branch {p : Predicate} (h : holds g.narrow p = holds g p) :
    (branch g p).narrow = branch g.narrow p := by
  unfold branch
  rw [h]
  split_ifs
  · exact narrow_checkHaltTrap
  · rfl

theorem narrow_link : (link g).narrow = link g.narrow :=
  narrow_setDst (by simp [FuncInstr.narrow])

theorem setWidth_eq_self (hx : SignExtended 32 g.vSrc0)
    (h : (g.vSrc0.setWidth 32).toNat < 2 ^ 31) : g.vSrc0 = (g.vSrc0.setWidth 32).setWidth 64 := by
  have hmsb : (g.vSrc0.setWidth 32).msb = false := by
    rw [BitVec.msb_eq_decide]
    exact decide_eq_false (by omega)
  have ht := hx.toNat_eq (by decide)
  rw [hmsb] at ht
  apply BitVec.eq_of_toNat_eq
  rw [BitVec.toNat_setWidth]
  simp only [Bool.false_eq_true, if_false, Nat.add_zero] at ht
  omega

/-- A target below the limit is the same in both widths. -/
theorem narrow_jumpTo_src (h₀ : SignExtended 32 g.vSrc0)
    (hpc : (jumpTo g.narrow (g.narrow.vSrc0.setWidth 64)).newPC.toNat < 2 ^ 31) :
    (jumpTo g (g.vSrc0.setWidth 64)).narrow
      = jumpTo g.narrow (g.narrow.vSrc0.setWidth 64) := by
  rw [jumpTo, newPC_checkHaltTrap] at hpc
  have hlt : (g.vSrc0.setWidth 32).toNat < 2 ^ 31 := by
    simp only [FuncInstr.narrow, BitVec.toNat_setWidth] at hpc ⊢
    omega
  have he : g.vSrc0.setWidth 64 = g.narrow.vSrc0.setWidth 64 := by
    rw [BitVec.setWidth_eq]
    exact setWidth_eq_self h₀ hlt
  rw [he]
  exact narrow_jumpTo _

theorem narrow_jr (h₀ : SignExtended 32 g.vSrc0) (htrap : (jr g.narrow).trap = .noTrap)
    (hpc : (jr g.narrow).newPC.toNat < 2 ^ 31) : (jr g).narrow = jr g.narrow := by
  have ha : g.narrow.vSrc0.toNat % 4 = 0 := aligned_of_jr htrap
  have ha' : g.vSrc0.toNat % 4 = 0 := by
    simp only [FuncInstr.narrow, BitVec.toNat_setWidth] at ha
    omega
  rw [jr_of_aligned (by decide) ha] at hpc ⊢
  rw [jr_of_aligned (by decide) ha']
  exact narrow_jumpTo_src h₀ hpc

theorem setWidth_bitmask (n : ℕ) : (bitmask 64 n).setWidth 32 = bitmask 32 n := by
  apply BitVec.eq_of_getLsbD_eq
  intro i hi
  have : i < 64 := by omega
  simp [hi, this]

section Address

variable (h₀ : SignExtended 32 g.vSrc0) (himm : SignExtended 32 g.vImm)
  (hlow : 0 ≤ g.narrow.vSrc0.toInt + g.narrow.vImm.toInt
    ∧ g.narrow.vSrc0.toInt + g.narrow.vImm.toInt < 2 ^ 31)

include h₀ himm hlow

theorem narrow_addr : (addr g).narrow = addr g.narrow := by
  have h := address_eq h₀ himm hlow.1 hlow.2
  unfold addr
  rw [BitVec.setWidth_eq, h]
  rfl

theorem narrow_storeAddr : (storeAddr g).narrow = storeAddr g.narrow := by
  unfold storeAddr
  rw [← narrow_addr h₀ himm hlow]
  simp [FuncInstr.narrow, addr, setWidth_bitmask]

theorem narrow_loadAddrAligned : (loadAddrAligned g).narrow = loadAddrAligned g.narrow := by
  unfold loadAddrAligned loadAddr
  rw [← narrow_addr h₀ himm hlow]
  show (if _ then _ else _ : FuncInstr 64).narrow = if misaligned (addr g) then _ else _
  split_ifs <;> rfl

theorem narrow_storeAddrAligned : (storeAddrAligned g).narrow = storeAddrAligned g.narrow := by
  unfold storeAddrAligned
  rw [← narrow_storeAddr h₀ himm hlow]
  show (if _ then _ else _ : FuncInstr 64).narrow = if misaligned (storeAddr g) then _ else _
  split_ifs <;> rfl

theorem narrow_loadAddrRight32 : (loadAddrRight32 g).narrow = loadAddrRight32 g.narrow := by
  unfold loadAddrRight32 loadAddr
  rw [← narrow_addr h₀ himm hlow]
  simp [FuncInstr.narrow, rightMask]

theorem narrow_loadAddrLeft32 : (loadAddrLeft32 g).narrow = loadAddrLeft32 g.narrow := by
  unfold loadAddrLeft32 loadAddr
  rw [← narrow_addr h₀ himm hlow]
  simp [FuncInstr.narrow, leftMask, setWidth_bitmask]

theorem narrow_storeAddrRight32 : (storeAddrRight32 g).narrow = storeAddrRight32 g.narrow := by
  unfold storeAddrRight32
  rw [← narrow_storeAddr h₀ himm hlow]
  simp [FuncInstr.narrow, rightMask]

theorem narrow_storeAddrLeft32 : (storeAddrLeft32 g).narrow = storeAddrLeft32 g.narrow := by
  unfold storeAddrLeft32
  rw [← narrow_storeAddr h₀ himm hlow]
  simp [FuncInstr.narrow, leftMask, setWidth_bitmask]

end Address

section Shift

theorem shamtVSrc2_narrow : shamtVSrc2 g.narrow 32 = shamtVSrc2 g 32 := by
  unfold shamtVSrc2
  congr 1
  apply BitVec.eq_of_getLsbD_eq
  intro i hi
  by_cases h : i < 5
  · have : i < 32 := by omega
    simp only [FuncInstr.narrow, logBitwidth, BitVec.getLsbD_and, BitVec.getLsbD_setWidth,
      getLsbD_bitmask, h, hi, this, decide_true, Bool.true_and, Bool.and_true]
  · simp only [logBitwidth, BitVec.getLsbD_and, getLsbD_bitmask, h, decide_false, Bool.and_false]

theorem shamtImm_narrow (h : g.vImm.toNat < 32) : shamtImm g.narrow = shamtImm g := by
  simp only [shamtImm, FuncInstr.narrow, BitVec.toNat_setWidth]
  omega

theorem lowPart_eq {w : ℕ} (f : FuncInstr w) (T : ℕ) :
    lowPart f T = (f.vSrc0.setWidth T).setWidth w := by
  apply BitVec.eq_of_getLsbD_eq
  intro i hi
  rw [lowPart, allOnes_eq, BitVec.getLsbD_and, BitVec.getLsbD_setWidth, BitVec.getLsbD_allOnes,
    BitVec.getLsbD_setWidth, BitVec.getLsbD_setWidth]
  simp [hi, Bool.and_comm]

theorem setWidth_shl (n : ℕ) :
    (signExtension 32 (lowPart g 32 <<< n)).setWidth 32
      = signExtension 32 (lowPart g.narrow 32 <<< n) := by
  rw [setWidth_signExtension, signExtension_self, lowPart_eq, lowPart_eq,
    BitVec.setWidth_shiftLeft_of_le (by decide), BitVec.setWidth_setWidth_of_le _ (by decide),
    BitVec.setWidth_eq, BitVec.setWidth_eq, BitVec.setWidth_eq]
  rfl

theorem setWidth_shr (n : ℕ) :
    (signExtension 32 (lowPart g 32 >>> n)).setWidth 32
      = signExtension 32 (lowPart g.narrow 32 >>> n) := by
  rw [setWidth_signExtension, signExtension_self, lowPart_eq, lowPart_eq, BitVec.setWidth_eq,
    BitVec.setWidth_eq]
  apply BitVec.eq_of_getLsbD_eq
  intro i hi
  simp only [FuncInstr.narrow, BitVec.getLsbD_setWidth, BitVec.getLsbD_ushiftRight, hi]
  by_cases h : n + i < 32
  · have : n + i < 64 := by omega
    simp [h, this]
  · simp [h]

theorem setWidth_sra (n : ℕ) :
    (arithmeticRs (signExtension 32 g.vSrc0) n).setWidth 32
      = arithmeticRs (signExtension 32 g.narrow.vSrc0) n := by
  have h64 : (64 : ℕ) ≠ 128 := by decide
  have h32 : (32 : ℕ) ≠ 128 := by decide
  rw [arithmeticRs, if_pos h64, arithmeticRs, if_pos h32, signExtension_self,
    sign_extension_eq (by decide) (by decide)]
  show _ = (g.vSrc0.setWidth 32).sshiftRight n
  generalize g.vSrc0.setWidth 32 = x
  apply BitVec.eq_of_getLsbD_eq
  intro i hi
  have hi₁ : ¬ 32 ≤ i := by omega
  have hi₂ : ¬ 64 ≤ i := by omega
  rw [BitVec.getLsbD_setWidth, BitVec.getLsbD_sshiftRight, BitVec.getLsbD_sshiftRight,
    BitVec.getLsbD_signExtend, BitVec.msb_signExtend]
  by_cases h : n + i < 32
  · have : n + i < 64 := by omega
    simp only [hi, hi₁, hi₂, h, this, decide_true, decide_false, Bool.not_false, Bool.true_and,
      if_true]
  · by_cases h' : n + i < 64 <;> simp [hi, hi₁, hi₂, h, h']

theorem setWidth_ofNat (n : ℕ) : (BitVec.ofNat 64 n).setWidth 32 = BitVec.ofNat 32 n :=
  BitVec.setWidth_ofNat_of_le (by decide) n

end Shift

theorem narrow_eret (h₀ : SignExtended 32 g.vSrc0)
    (hpc : (Alu.eret g.narrow).newPC.toNat < 2 ^ 31) :
    (Alu.eret g).narrow = Alu.eret g.narrow := by
  have h := narrow_jumpTo_src h₀ hpc
  have hd : ∀ {w : ℕ} (f : FuncInstr w) (target : Addr), (jumpTo f target).vDst0 = f.vDst0
      ∧ (jumpTo f target).vSrc1 = f.vSrc1 := by
    intro w f target
    unfold jumpTo checkHaltTrap
    split_ifs <;> exact ⟨rfl, rfl⟩
  unfold Alu.eret
  dsimp only
  rw [← h]
  simp [FuncInstr.narrow, hd]

/-- The units of the 32-bit instruction set give the same on the low halves of their operands. -/
theorem narrow_run (he : e.isMips32) (hs : SignSafe e g) (himm : SignExtended 32 g.vImm)
    (hshift : e.isImmediateShift → g.vImm.toNat < 32) (htrap : (e.run g.narrow).trap = .noTrap)
    (hcode : (e.run g.narrow).newPC.toNat < 2 ^ 31)
    (hdata : e.isAddress → 0 ≤ g.narrow.vSrc0.toInt + g.narrow.vImm.toInt
      ∧ g.narrow.vSrc0.toInt + g.narrow.vImm.toInt < 2 ^ 31) :
    (e.run g).narrow = e.run g.narrow := by
  have h32 : ∀ {T : ℕ}, (T == 32) = true → T = 32 := by simp
  have hw : (32 : ℕ) ≤ 64 := by decide
  cases e with
  | doNothing => rfl
  | move => exact narrow_setDst (by simp [FuncInstr.narrow])
  | set p =>
    have hp := holds_narrow (p := p) himm (hs.src0 rfl) hs.src1
    refine narrow_setDst ?_
    rw [hp]
    split_ifs <;> rfl
  | loadAddr => exact narrow_addr (hs.src0 rfl) himm (hdata rfl)
  | storeAddr => exact narrow_storeAddr (hs.src0 rfl) himm (hdata rfl)
  | loadAddrAligned => exact narrow_loadAddrAligned (hs.src0 rfl) himm (hdata rfl)
  | loadAddrRight32 => exact narrow_loadAddrRight32 (hs.src0 rfl) himm (hdata rfl)
  | loadAddrLeft32 => exact narrow_loadAddrLeft32 (hs.src0 rfl) himm (hdata rfl)
  | storeAddrAligned => exact narrow_storeAddrAligned (hs.src0 rfl) himm (hdata rfl)
  | storeAddrRight32 => exact narrow_storeAddrRight32 (hs.src0 rfl) himm (hdata rfl)
  | storeAddrLeft32 => exact narrow_storeAddrLeft32 (hs.src0 rfl) himm (hdata rfl)
  | addition T =>
    obtain rfl := h32 he
    exact narrow_setDst (by simp [FuncInstr.narrow])
  | subtraction T =>
    obtain rfl := h32 he
    exact narrow_setDst (by simp [FuncInstr.narrow])
  | additionImm T =>
    obtain rfl := h32 he
    exact narrow_setDst (by simp [FuncInstr.narrow])
  | additionOverflow T =>
    obtain rfl := h32 he
    have h := testAdditionOverflow_setWidth (hs.src0 rfl) (hs.src1 rfl)
    exact (narrow_overflowOr _).trans (congrArg (overflowOr g.narrow) h.symm)
  | additionOverflowImm T =>
    obtain rfl := h32 he
    have h := testAdditionOverflow_setWidth (hs.src0 rfl) himm
    exact (narrow_overflowOr _).trans (congrArg (overflowOr g.narrow) h.symm)
  | subtractionOverflow T =>
    obtain rfl := h32 he
    have h := testSubtractionOverflow_setWidth (hs.src0 rfl) (hs.src1 rfl)
    exact (narrow_overflowOr _).trans (congrArg (overflowOr g.narrow) h.symm)
  | sll T =>
    obtain rfl := h32 he
    refine narrow_setDst ?_
    rw [shamtImm_narrow (hshift rfl), BitVec.setWidth_eq, BitVec.setWidth_eq, setWidth_shl]
  | srl T =>
    obtain rfl := h32 he
    refine narrow_setDst ?_
    rw [shamtImm_narrow (hshift rfl), BitVec.setWidth_eq, BitVec.setWidth_eq, setWidth_shr]
  | sra T =>
    obtain rfl := h32 he
    refine narrow_setDst ?_
    rw [shamtImm_narrow (hshift rfl), BitVec.setWidth_eq, BitVec.setWidth_eq, setWidth_sra]
  | sllv T =>
    obtain rfl := h32 he
    refine narrow_setDst ?_
    rw [shamtVSrc2_narrow, BitVec.setWidth_eq, BitVec.setWidth_eq, setWidth_shl]
  | srlv T =>
    obtain rfl := h32 he
    refine narrow_setDst ?_
    rw [shamtVSrc2_narrow, BitVec.setWidth_eq, BitVec.setWidth_eq, setWidth_shr]
  | srav T =>
    obtain rfl := h32 he
    refine narrow_setDst ?_
    rw [shamtVSrc2_narrow, BitVec.setWidth_eq, BitVec.setWidth_eq, setWidth_sra]
  | upperImmediate N =>
    refine narrow_setDst ?_
    rw [BitVec.setWidth_eq, BitVec.setWidth_eq, BitVec.setWidth_shiftLeft_of_le hw]
    rfl
  | clo T =>
    obtain rfl := h32 he
    refine narrow_setDst ?_
    rw [BitVec.setWidth_eq, BitVec.setWidth_eq, setWidth_ofNat]
    simp only [FuncInstr.narrow, BitVec.setWidth_eq]
  | clz T =>
    obtain rfl := h32 he
    refine narrow_setDst ?_
    rw [BitVec.setWidth_eq, BitVec.setWidth_eq, setWidth_ofNat]
    simp only [FuncInstr.narrow, BitVec.setWidth_eq]
  | andv => exact narrow_setDst (by simp [FuncInstr.narrow])
  | orv => exact narrow_setDst (by simp [FuncInstr.narrow])
  | xorv => exact narrow_setDst (by simp [FuncInstr.narrow])
  | nor => exact narrow_setDst (by simp [FuncInstr.narrow])
  | andi => exact narrow_setDst (by simp [FuncInstr.narrow])
  | ori => exact narrow_setDst (by simp [FuncInstr.narrow])
  | xori => exact narrow_setDst (by simp [FuncInstr.narrow])
  | movn =>
    have h := beq_zero_setWidth (hs.src1 rfl)
    exact (narrow_moveUnless _).trans (congrArg (moveUnless g.narrow) h.symm)
  | movz =>
    have h := congrArg (!·) (beq_zero_setWidth (hs.src1 rfl))
    exact (narrow_moveUnless _).trans (congrArg (moveUnless g.narrow) h.symm)
  | branch p => exact narrow_branch (holds_narrow himm (hs.src0 rfl) hs.src1)
  | branchAndLink p =>
    have h : (Alu.branch (link g) p).narrow = Alu.branch (link g).narrow p :=
      narrow_branch (holds_narrow himm (hs.src0 rfl) hs.src1)
    rw [narrow_link] at h
    exact h
  | jump kind =>
    cases kind with
    | j => exact narrow_jumpTo _
    | jr => exact narrow_jr (hs.src0 rfl) htrap hcode
    | riscvJr => cases he
  | jumpAndLink kind =>
    cases kind with
    | j =>
      have h : (jumpTo (link g) g.target).narrow = jumpTo (link g).narrow g.target :=
        narrow_jumpTo _
      rw [narrow_link] at h
      exact h
    | jr =>
      have h₀ : SignExtended 32 (link g).vSrc0 := hs.src0 rfl
      have h := narrow_link (g := g)
      have ht : (jr (link g).narrow).trap = .noTrap := by
        rw [h]
        exact htrap
      have hc : (jr (link g).narrow).newPC.toNat < 2 ^ 31 := by
        rw [h]
        exact hcode
      exact (narrow_jr h₀ ht hc).trans (congrArg jr h)
    | riscvJr => cases he
  | eret => exact narrow_eret (hs.src0 rfl) hcode
  | breakpoint => rfl
  | syscall => rfl
  | trap p =>
    have hp := holds_narrow (p := p) himm (hs.src0 rfl) hs.src1
    unfold Executor.run
    dsimp only
    rw [hp]
    split_ifs <;> rfl
  | multiplication T signed =>
    obtain rfl := h32 he
    refine (narrow_setBoth _).trans ?_
    simp only [Executor.run, FuncInstr.narrow, BitVec.setWidth_eq]
  | division T signed =>
    obtain rfl := h32 he
    refine (narrow_setBoth _).trans ?_
    simp only [Executor.run, FuncInstr.narrow, BitVec.setWidth_eq]
  | _ => cases he

end Units

end MiptMips
