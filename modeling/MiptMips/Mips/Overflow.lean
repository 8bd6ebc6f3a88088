import MiptMips.Mips.Instr
import MiptMips.Mips.Narrow

/-!
# Traps on overflow

The overflow tests look at the signs of the operands and of the wrapped result, where zero has no
sign. So they miss the sum of the least value with itself, which wraps to zero, and the difference
of zero and the least value; all other traps are exact.
-/

namespace MiptMips

open Bits Alu

section Tests

variable {w T : ℕ}

theorem isNegative_iff (hw : 0 < w) (v : BitVec w) : isNegative v ↔ v.toInt < 0 := by
  rw [isNegative_eq hw, BitVec.msb_eq_toInt, decide_eq_true_iff]

theorem isPositive_iff (hw : 0 < w) (v : BitVec w) : isPositive v ↔ 0 < v.toInt := by
  have h0 : v = 0#w ↔ v.toInt = 0 := by rw [← BitVec.toInt_inj, BitVec.toInt_zero]
  have hn := isNegative_iff hw v
  simp only [isPositive, Bool.and_eq_true, Bool.not_eq_true', bne_iff_ne, ne_eq, h0,
    ← Bool.not_eq_true, hn]
  omega

/-- A sum or difference of two values wraps at most once. -/
theorem bmod_eq_of_near {M : ℕ} {s : ℤ} (hlo : -(2 * M) ≤ s) (hhi : s < 2 * M) :
    s.bmod (2 * M) = if s < -M then s + 2 * M else if s < M then s else s - 2 * M := by
  split_ifs with h h'
  · rw [← Int.add_bmod_right, Int.bmod_eq_of_le] <;> push_cast <;> omega
  · rw [Int.bmod_eq_of_le] <;> omega
  · rw [← Int.sub_bmod_right, Int.bmod_eq_of_le] <;> push_cast <;> omega

variable {x y : BitVec w}

theorem signed_range (hT : 0 < T) (hw : T ≤ w) (hx : SignExtended T x) :
    ∃ M : ℕ, 2 ^ T = 2 * M ∧ (M : ℤ) = 2 ^ (T - 1) ∧ -(M : ℤ) ≤ x.toInt ∧ x.toInt < M := by
  have hlo := BitVec.le_toInt (x.setWidth T)
  have hhi := BitVec.toInt_lt (x := x.setWidth T)
  rw [hx.toInt_setWidth hw] at hlo hhi
  refine ⟨2 ^ (T - 1), ?_, by push_cast; rfl, ?_, ?_⟩
  · rw [← Nat.pow_succ']
    congr 1
    omega
  · push_cast
    exact hlo
  · push_cast
    exact hhi

theorem signed_ranges (hT : 0 < T) (hw : T ≤ w) (hx : SignExtended T x) (hy : SignExtended T y) :
    ∃ M : ℕ, 2 ^ T = 2 * M ∧ (M : ℤ) = 2 ^ (T - 1) ∧ (-(M : ℤ) ≤ x.toInt ∧ x.toInt < M) ∧
      (-(M : ℤ) ≤ y.toInt ∧ y.toInt < M) := by
  obtain ⟨M, hpow, hhalf, hxM⟩ := signed_range hT hw hx
  obtain ⟨M', hpow', -, hyM⟩ := signed_range hT hw hy
  obtain rfl : M = M' := by omega
  exact ⟨M, hpow, hhalf, hxM, hyM⟩

theorem toInt_addition (hw : T ≤ w) (hx : SignExtended T x) (hy : SignExtended T y) :
    (testAdditionOverflow T x y).1.toInt = (x.toInt + y.toInt).bmod (2 ^ T) := by
  unfold testAdditionOverflow
  rw [BitVec.toInt_add, hx.toInt_setWidth hw, hy.toInt_setWidth hw]

theorem toInt_subtraction (hw : T ≤ w) (hx : SignExtended T x) (hy : SignExtended T y) :
    (testSubtractionOverflow T x y).1.toInt = (x.toInt - y.toInt).bmod (2 ^ T) := by
  unfold testSubtractionOverflow
  rw [BitVec.toInt_sub, hx.toInt_setWidth hw, hy.toInt_setWidth hw]

/-- A result and a flag that say exactly whether an integer fits. -/
def Exactly (res : BitVec T × Bool) (n : ℤ) : Prop :=
  (res.2 ↔ ¬ Representable T n) ∧ (¬ res.2 → res.1.toInt = n)

/-- The wrapped sum loses its sign only when it is zero. -/
theorem exactly_addition_iff (hT : 0 < T) (hw : T ≤ w) (hx : SignExtended T x)
    (hy : SignExtended T y) : Exactly (testAdditionOverflow T x y) (x.toInt + y.toInt)
      ↔ ¬ (x.toInt = -2 ^ (T - 1) ∧ y.toInt = -2 ^ (T - 1)) := by
  have hw0 : 0 < w := by omega
  have hres := toInt_addition hw hx hy
  obtain ⟨M, hpow, hhalf, ⟨hxlo, hxhi⟩, hylo, hyhi⟩ := signed_ranges hT hw hx hy
  rw [hpow, bmod_eq_of_near (by omega) (by omega)] at hres
  have hflag : (testAdditionOverflow T x y).2 ↔
      (0 < x.toInt ∧ 0 < y.toInt ∧ (testAdditionOverflow T x y).1.toInt < 0)
        ∨ (x.toInt < 0 ∧ y.toInt < 0 ∧ 0 < (testAdditionOverflow T x y).1.toInt) := by
    simp only [testAdditionOverflow, Bool.or_eq_true, Bool.and_eq_true, isNegative_iff hw0,
      isPositive_iff hw0, isNegative_iff hT, isPositive_iff hT, and_assoc]
  rw [Exactly, hflag, hres, Representable, ← hhalf]
  split_ifs <;> omega

/-- Zero minus the least value is the least value again, and zero has no sign. -/
theorem exactly_subtraction_iff (hT : 0 < T) (hw : T ≤ w) (hx : SignExtended T x)
    (hy : SignExtended T y) : Exactly (testSubtractionOverflow T x y) (x.toInt - y.toInt)
      ↔ ¬ (x.toInt = 0 ∧ y.toInt = -2 ^ (T - 1)) := by
  have hw0 : 0 < w := by omega
  have hres := toInt_subtraction hw hx hy
  obtain ⟨M, hpow, hhalf, ⟨hxlo, hxhi⟩, hylo, hyhi⟩ := signed_ranges hT hw hx hy
  rw [hpow, bmod_eq_of_near (by omega) (by omega)] at hres
  have hflag : (testSubtractionOverflow T x y).2 ↔
      (0 < x.toInt ∧ y.toInt < 0 ∧ (testSubtractionOverflow T x y).1.toInt < 0)
        ∨ (x.toInt < 0 ∧ 0 < y.toInt ∧ 0 < (testSubtractionOverflow T x y).1.toInt) := by
    simp only [testSubtractionOverflow, Bool.or_eq_true, Bool.and_eq_true, isNegative_iff hw0,
      isPositive_iff hw0, isNegative_iff hT, isPositive_iff hT, and_assoc]
  rw [Exactly, hflag, hres, Representable, ← hhalf]
  split_ifs <;> omega

end Tests

namespace Mips

variable {w : ℕ}

/-- The instructions that trap on overflow. -/
inductive Overflowing where
  | add | addi | sub | dadd | daddi | dsub
  deriving DecidableEq, Repr

namespace Overflowing

def mnemonic : Overflowing → String
  | add => "add"
  | addi => "addi"
  | sub => "sub"
  | dadd => "dadd"
  | daddi => "daddi"
  | dsub => "dsub"

def width : Overflowing → ℕ
  | add | addi | sub => 32
  | dadd | daddi | dsub => 64

def takesImmediate : Overflowing → Bool
  | addi | daddi => true
  | _ => false

/-- What the instruction is to compute, over the integers. -/
def exact (a b : ℤ) : Overflowing → ℤ
  | sub | dsub => a - b
  | _ => a + b

/-- The operands whose overflow the tests miss. -/
def Missed (a b : ℤ) (m : Overflowing) : Prop :=
  match m with
  | add | dadd => a = -2 ^ (m.width - 1) ∧ b = -2 ^ (m.width - 1)
  | sub | dsub => a = 0 ∧ b = -2 ^ (m.width - 1)
  | addi | daddi => False

def executor : Overflowing → Executor
  | add => .additionOverflow 32
  | addi => .additionOverflowImm 32
  | sub => .subtractionOverflow 32
  | dadd => .additionOverflow 64
  | daddi => .additionOverflowImm 64
  | dsub => .subtractionOverflow 64

def second (m : Overflowing) (instr : FuncInstr w) : BitVec w :=
  if m.takesImmediate then instr.vImm else instr.vSrc1

instance (a b : ℤ) (m : Overflowing) : Decidable (m.Missed a b) := by
  unfold Missed
  cases m <;> exact inferInstance

/-- A trap exactly when the result does not fit, and otherwise the result. -/
def Holds (m : Overflowing) (instr : FuncInstr w) : Prop :=
  let result := m.exact instr.vSrc0.toInt (m.second instr).toInt
  (instr.execute.trap = .integerOverflow ↔ ¬ Representable m.width result) ∧
    (instr.execute.trap ≠ .integerOverflow →
      (instr.execute.vDst0.setWidth m.width).toInt = result)

instance (m : Overflowing) (instr : FuncInstr w) : Decidable (m.Holds instr) :=
  inferInstanceAs (Decidable (_ ∧ _))

end Overflowing

section Entries

open MipsTable

theorem overflowing_entries : ∀ e ∈ entries, ∀ m : Overflowing, e.name = m.mnemonic →
    e.function = m.executor ∧ e.immType = if m.takesImmediate then 'I' else 'N' := by
  intro e he m
  revert e
  cases m <;> decide +kernel

end Entries

section Instr

variable {version : MipsVersion} {endian : Endian} {bytes : BitVec 32} {PC : Addr}
  {m : Overflowing} {src0 src1 : BitVec w}

theorem Overflowing.width_pos (m : Overflowing) : 16 < m.width := by cases m <;> decide

theorem immediate_bounds (hw : 16 ≤ w) (value : BitVec 32) :
    -2 ^ 15 ≤ (MipsInstrDecoder.getImmediate w 'I' value).toInt
      ∧ (MipsInstrDecoder.getImmediate w 'I' value).toInt < 2 ^ 15 := by
  have himm : MipsInstrDecoder.getImmediate w 'I' value
      = ((value.setWidth w).setWidth 16).signExtend w := sign_extension_eq (by decide) hw _
  rw [himm, BitVec.toInt_signExtend_of_le hw]
  exact ⟨BitVec.le_toInt _, BitVec.toInt_lt⟩

/-- A small immediate is sign-extended and is not the least value. -/
theorem immediate_small {T : ℕ} (hT : 16 < T) (hw : T ≤ w) {imm : BitVec w}
    (h : -2 ^ 15 ≤ imm.toInt ∧ imm.toInt < 2 ^ 15) :
    SignExtended T imm ∧ imm.toInt ≠ -2 ^ (T - 1) := by
  have hpow : (2 : ℤ) ^ 16 ≤ 2 ^ (T - 1) := by
    exact_mod_cast Nat.pow_le_pow_right (by decide : 0 < 2) (by omega : 16 ≤ T - 1)
  refine ⟨(signExtended_iff (by omega) hw imm).2 ⟨?_, ?_⟩, ?_⟩ <;> omega

theorem overflowOr_trap_iff {T : ℕ} {f : FuncInstr w} {res : BitVec T × Bool}
    (hf : f.trap = .noTrap) : (overflowOr f res).trap = .integerOverflow ↔ res.2 := by
  unfold overflowOr
  split_ifs with h <;> simp [setDst, h, hf]

/-- An instruction is exact when its test is. -/
theorem overflowOr_holds_iff {T : ℕ} (hw : T ≤ w) {f : FuncInstr w} {res : BitVec T × Bool} {n : ℤ}
    (hf : f.trap = .noTrap) :
    ((overflowOr f res).trap = .integerOverflow ↔ ¬ Representable T n) ∧
      ((overflowOr f res).trap ≠ .integerOverflow →
        ((overflowOr f res).vDst0.setWidth T).toInt = n) ↔ Exactly res n := by
  rw [Exactly, ne_eq, overflowOr_trap_iff hf]
  refine and_congr_right fun _ => imp_congr_right fun h => ?_
  unfold overflowOr
  rw [if_neg h, setDst, setWidth_setWidth_of_ge hw, BitVec.setWidth_eq]

/-- For every pair of operands: the trap is exact, but for the sums and differences that the tests
miss. -/
theorem overflow_holds_iff (version : MipsVersion) (endian : Endian) (bytes : BitVec 32)
    (PC : Addr) (m : Overflowing) (hname : (MipsTable.getTableEntry bytes).name = m.mnemonic)
    (hsup : (MipsTable.getTableEntry bytes).versions.isSupported version) (hw : m.width ≤ w)
    (src0 src1 : BitVec w) (h0 : SignExtended m.width src0)
    (h1 : m.takesImmediate = false → SignExtended m.width src1) :
    m.Holds { createInstr version endian bytes PC w with vSrc0 := src0, vSrc1 := src1 }
      ↔ ¬ m.Missed src0.toInt src1.toInt := by
  obtain ⟨hfun, himm⟩ := overflowing_entries _ (MipsTable.getTableEntry_mem bytes) m hname
  have hfresh := (createInstr_fresh version endian bytes PC (w := w)).trap
  have hm := m.width_pos
  set f : FuncInstr w := { createInstr version endian bytes PC w with
    vSrc0 := src0, vSrc1 := src1 } with hf
  have htrap : f.trap = .noTrap := hfresh
  have hexec : f.executor = m.executor := by
    rw [← hfun]
    exact (executor_createInstr version endian bytes PC).trans (if_pos hsup)
  have hvimm : m.takesImmediate → -2 ^ 15 ≤ f.vImm.toInt ∧ f.vImm.toInt < 2 ^ 15 := by
    intro ht
    have hvalue : f.vImm = _ := vImm_createInstr version endian bytes PC
    rw [hvalue, himm, if_pos ht]
    exact immediate_bounds (by omega) _
  have hrun : f.execute = { m.executor.run f with complete := true } := by
    rw [FuncInstr.execute, hexec]
  unfold Overflowing.Holds
  rw [hrun]
  cases m with
  | add =>
    exact (overflowOr_holds_iff hw htrap).trans (exactly_addition_iff (by decide) hw h0 (h1 rfl))
  | dadd =>
    exact (overflowOr_holds_iff hw htrap).trans (exactly_addition_iff (by decide) hw h0 (h1 rfl))
  | sub =>
    exact (overflowOr_holds_iff hw htrap).trans (exactly_subtraction_iff (by decide) hw h0 (h1 rfl))
  | dsub =>
    exact (overflowOr_holds_iff hw htrap).trans (exactly_subtraction_iff (by decide) hw h0 (h1 rfl))
  | addi =>
    obtain ⟨hse, hne⟩ := immediate_small hm hw (hvimm rfl)
    refine (overflowOr_holds_iff hw htrap).trans
      ((exactly_addition_iff (by decide) hw h0 hse).trans ?_)
    exact ⟨fun _ h => h, fun _ h => hne h.2⟩
  | daddi =>
    obtain ⟨hse, hne⟩ := immediate_small hm hw (hvimm rfl)
    refine (overflowOr_holds_iff hw htrap).trans
      ((exactly_addition_iff (by decide) hw h0 hse).trans ?_)
    exact ⟨fun _ h => h, fun _ h => hne h.2⟩

/-- `add` on 32 bits and `dsub` on 64 bits, on operands that overflow. -/
theorem overflow_holds_iff_max :
    Overflowing.add.Holds { createInstr .v32 .little 0x014b4820#32 0x1000#64 32 with
        vSrc0 := 0x7fffffff#32, vSrc1 := 1#32 }
      ∧ Overflowing.dsub.Holds { createInstr .v64 .little 0x014b482e#32 0x1000#64 64 with
        vSrc0 := 0x8000000000000000#64, vSrc1 := 1#64 } :=
  ⟨(overflow_holds_iff .v32 .little 0x014b4820#32 0x1000#64 .add (by decide) (by decide) le_rfl
      0x7fffffff#32 1#32 rfl (fun _ => rfl)).2 (by decide),
    (overflow_holds_iff .v64 .little 0x014b482e#32 0x1000#64 .dsub (by decide) (by decide) le_rfl
      0x8000000000000000#64 1#64 rfl (fun _ => rfl)).2 (by decide)⟩

/-- The sum of the least value with itself, and zero minus the least value, do not trap. -/
theorem overflow_missed :
    ¬ Overflowing.add.Holds { createInstr .v32 .little 0x014b4820#32 0x1000#64 32 with
        vSrc0 := 0x80000000#32, vSrc1 := 0x80000000#32 }
      ∧ ¬ Overflowing.sub.Holds { createInstr .v32 .little 0x014b4822#32 0x1000#64 32 with
        vSrc0 := 0#32, vSrc1 := 0x80000000#32 } := by decide +kernel

end Instr

end Mips

end MiptMips
