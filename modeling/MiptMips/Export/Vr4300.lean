import MiptMips.Lib.Steps
import MiptMips.Mips.Instr

/-!
# Interrupts of the vr4300 wrapper

Bit 10 of the cause register is the line of the enabled interrupts: it is recomputed whenever an
interrupt is signalled or cleared, or the mask register is written. A plain write is not looked at.
It may change which interrupts are pending and leave the line as it was, and it takes the data bits
outside of its own mask as well.
-/

namespace MiptMips

open Machines

inductive MiRegister where
  | initMode | version | intr | intrMask
  deriving DecidableEq, Repr

structure Vr4300 where
  miRegs : MiRegister → BitVec 32
  rf : RF 64

namespace Vr4300

section Model

def miRegsBaseAddress : BitVec 64 := 0x04300000#64

def miIntrSp : BitVec 32 := 0x01#32

def miIntrSi : BitVec 32 := 0x02#32

def miIntrAi : BitVec 32 := 0x04#32

def miIntrVi : BitVec 32 := 0x08#32

def miIntrPi : BitVec 32 := 0x10#32

def miIntrDp : BitVec 32 := 0x20#32

def causeMask : BitVec 64 := 0x400#64

/-- The register at an address; the array has four elements. -/
def miRegister (address : BitVec 32) : Except SimException MiRegister :=
  match ((address.setWidth 64 - miRegsBaseAddress) / 4#64).toNat with
  | 0 => .ok .initMode
  | 1 => .ok .version
  | 2 => .ok .intr
  | 3 => .ok .intrMask
  | _ => .error .outOfRange

/-- The simulator after its construction and `init`. -/
def init : Vr4300 where
  miRegs
    | .version => 0x01010101#32
    | .initMode => 0x80#32
    | _ => 0#32
  rf := .zeroed 64 MipsRegister.maxReg

variable (s : Vr4300)

def setMi (reg : MiRegister) (value : BitVec 32) : Vr4300 :=
  { s with miRegs := fun r => if r = reg then value else s.miRegs r }

def readCauseRegister : Except SimException (BitVec 64) :=
  Mips.readCpuRegister s.rf MipsRegister.cause

def writeCauseRegister (value : BitVec 64) : Except SimException Vr4300 := do
  let rf ← Mips.writeCpuRegister s.rf MipsRegister.cause value
  return { s with rf }

def applyMaskToCause (mask : BitVec 64) : Except SimException Vr4300 := do
  let cause ← s.readCauseRegister
  s.writeCauseRegister (cause ||| mask)

def resetMaskToCause (mask : BitVec 64) : Except SimException Vr4300 := do
  let cause ← s.readCauseRegister
  s.writeCauseRegister (cause &&& ~~~mask)

def checkForInterrupts : Except SimException Vr4300 :=
  if s.miRegs .intr &&& s.miRegs .intrMask ≠ 0#32 then s.applyMaskToCause causeMask
  else s.resetMaskToCause causeMask

def clearRcpInterrupt (mask : BitVec 32) : Except SimException Vr4300 :=
  (s.setMi .intr (s.miRegs .intr &&& ~~~mask)).checkForInterrupts

def signalRcpInterrupt (mask : BitVec 32) : Except SimException Vr4300 :=
  (s.setMi .intr (s.miRegs .intr ||| mask)).checkForInterrupts

/-- A bit of the word clears a flag, and another one sets it. -/
def clearOrSet (word clear set flag value : BitVec 32) : BitVec 32 :=
  if word &&& clear ≠ 0#32 then value &&& ~~~flag
  else if word &&& set ≠ 0#32 then value ||| flag
  else value

def writeMiInitModeReg (word : BitVec 32) : Except SimException Vr4300 := do
  let result := word &&& 0x3ff#32
  let result := clearOrSet word 0x0080#32 0x0100#32 0x0100#32 result
  let result := clearOrSet word 0x0200#32 0x0400#32 0x0080#32 result
  let s ← if word &&& 0x0800#32 ≠ 0#32 then
      (s.setMi .intr (s.miRegs .intr &&& ~~~miIntrDp)).checkForInterrupts
    else .ok s
  let result := clearOrSet word 0x1000#32 0x2000#32 0x0200#32 result
  return s.setMi .initMode result

def writeMiIntrMaskReg (word : BitVec 32) : Except SimException Vr4300 :=
  let mask := s.miRegs .intrMask
  let mask := clearOrSet word 0x0001#32 0x0002#32 miIntrSp mask
  let mask := clearOrSet word 0x0004#32 0x0008#32 miIntrSi mask
  let mask := clearOrSet word 0x0010#32 0x0020#32 miIntrAi mask
  let mask := clearOrSet word 0x0040#32 0x0080#32 miIntrVi mask
  let mask := clearOrSet word 0x0100#32 0x0200#32 miIntrPi mask
  let mask := clearOrSet word 0x0400#32 0x0800#32 miIntrDp mask
  (s.setMi .intrMask mask).checkForInterrupts

def writeMiRegs (address word dqm : BitVec 32) : Except SimException Vr4300 := do
  match ← miRegister address with
  | .initMode => s.writeMiInitModeReg word
  | .intrMask => s.writeMiIntrMaskReg word
  | reg => return s.setMi reg ((s.miRegs reg &&& ~~~dqm) ||| word)

inductive Operation where
  | signal (mask : BitVec 32)
  | clear (mask : BitVec 32)
  | write (address word dqm : BitVec 32)

def step : Operation → Except SimException Vr4300
  | .signal mask => s.signalRcpInterrupt mask
  | .clear mask => s.clearRcpInterrupt mask
  | .write address word dqm => s.writeMiRegs address word dqm

end Model

section Spec

def cause (s : Vr4300) : BitVec 64 := s.rf.get MipsRegister.cause

/-- The interrupts that are pending and enabled. -/
def enabled (s : Vr4300) : BitVec 32 := s.miRegs .intr &&& s.miRegs .intrMask

/-- The line is set exactly when an enabled interrupt is pending. -/
def LineExact (s : Vr4300) : Prop := s.cause &&& causeMask ≠ 0#64 ↔ s.enabled ≠ 0#32

instance (s : Vr4300) : Decidable s.LineExact := inferInstanceAs (Decidable (_ ↔ _))

/-- A masked write of a plain register changes only bits of its mask. -/
def MaskExact (s t : Vr4300) : Operation → Prop
  | .write address _ dqm => ∀ reg, miRegister address = .ok reg → reg = .version ∨ reg = .intr →
    t.miRegs reg &&& ~~~dqm = s.miRegs reg &&& ~~~dqm ∧ ∀ r ≠ reg, t.miRegs r = s.miRegs r
  | _ => True

/-- All addresses are of registers. -/
def Operation.IsValid : Operation → Prop
  | .write address _ _ => ∃ reg, miRegister address = .ok reg
  | _ => True

/-- The line is exact in every state of a run, and no masked write changes more than its mask. -/
def Correct : Vr4300 → List Operation → Prop
  | s, [] => s.LineExact
  | s, op :: ops => s.LineExact ∧ ∃ t, s.step op = .ok t ∧ MaskExact s t op ∧ Correct t ops

/-- A plain write has no data outside of its mask that is not there already. One of the pending
interrupts keeps an enabled one, or writes one, exactly when there was one. -/
def Harmless (s : Vr4300) : Operation → Prop
  | .write address word dqm =>
    (miRegister address = .ok .version → word &&& ~~~dqm &&& ~~~s.miRegs .version = 0#32)
    ∧ (miRegister address = .ok .intr → word &&& ~~~dqm &&& ~~~s.miRegs .intr = 0#32
      ∧ (s.enabled &&& ~~~dqm ≠ 0#32 ∨ word &&& s.miRegs .intrMask ≠ 0#32
        ↔ s.enabled ≠ 0#32))
  | _ => True

def AllHarmless : Vr4300 → List Operation → Prop
  | _, [] => True
  | s, op :: ops => s.Harmless op ∧ ∃ t, s.step op = .ok t ∧ AllHarmless t ops

end Spec

section Check

variable {s : Vr4300}

/-- The register file of the simulator has its cause register. -/
def HasCause (s : Vr4300) : Prop := s.rf.Valid MipsRegister.cause

theorem writeCauseRegister_ok (h : s.HasCause) (value : BitVec 64) : s.writeCauseRegister value
    = .ok { s with rf := s.rf.set MipsRegister.cause value } := by
  unfold writeCauseRegister Mips.writeCpuRegister
  rw [RF.write_ok h (by decide), BitVec.setWidth_eq]
  rfl

theorem readCauseRegister_ok (h : s.HasCause) : s.readCauseRegister = .ok s.cause := by
  unfold readCauseRegister Mips.readCpuRegister
  rw [RF.read_ok h]
  show Except.ok ((s.rf.get MipsRegister.cause).setWidth 64) = _
  rw [BitVec.setWidth_eq]
  rfl

/-- The simulator with a value in its cause register. -/
def setCause (s : Vr4300) (value : BitVec 64) : Vr4300 :=
  { s with rf := s.rf.set MipsRegister.cause value }

@[simp]
theorem cause_setCause (value : BitVec 64) : (s.setCause value).cause = value := by
  simp [cause, setCause, RF.get_set]

theorem applyMaskToCause_ok (h : s.HasCause) (mask : BitVec 64) :
    s.applyMaskToCause mask = .ok (s.setCause (s.cause ||| mask)) := by
  rw [applyMaskToCause, bind_eq_ok]
  exact ⟨_, readCauseRegister_ok h, writeCauseRegister_ok h _⟩

theorem resetMaskToCause_ok (h : s.HasCause) (mask : BitVec 64) :
    s.resetMaskToCause mask = .ok (s.setCause (s.cause &&& ~~~mask)) := by
  rw [resetMaskToCause, bind_eq_ok]
  exact ⟨_, readCauseRegister_ok h, writeCauseRegister_ok h _⟩

/-- The recomputed line is exact, and nothing else changes. -/
theorem checkForInterrupts_spec (h : s.HasCause) : ∃ t, s.checkForInterrupts = .ok t
    ∧ t.miRegs = s.miRegs ∧ t.HasCause ∧ t.LineExact := by
  unfold checkForInterrupts
  split_ifs with he
  · refine ⟨_, applyMaskToCause_ok h _, rfl, h, iff_of_true ?_ he⟩
    rw [cause_setCause]
    intro hz
    have hbit := congrArg (BitVec.getLsbD · 10) hz
    simp [causeMask] at hbit
  · refine ⟨_, resetMaskToCause_ok h _, rfl, h, iff_of_false ?_ he⟩
    rw [cause_setCause, not_not, BitVec.and_assoc, BitVec.not_and_self]
    exact BitVec.and_zero

end Check

section Step

variable {s : Vr4300} {op : Operation}

theorem or_masked_iff (old word dqm : BitVec 32) :
    ((old &&& ~~~dqm) ||| word) &&& ~~~dqm = old &&& ~~~dqm ↔ word &&& ~~~dqm &&& ~~~old = 0#32 := by
  constructor <;> intro h <;> apply BitVec.eq_of_getLsbD_eq <;> intro i hi
  all_goals
    have hbit := congrArg (BitVec.getLsbD · i) h
    simp only [BitVec.getLsbD_and, BitVec.getLsbD_or, BitVec.getLsbD_not, BitVec.getLsbD_zero, hi,
      decide_true, Bool.true_and] at hbit ⊢
    revert hbit
    generalize old.getLsbD i = a, word.getLsbD i = b, dqm.getLsbD i = c
    revert a b c
    decide

@[simp]
theorem miRegs_setMi_self (reg : MiRegister) (value : BitVec 32) :
    (s.setMi reg value).miRegs reg = value := if_pos rfl

theorem miRegs_setMi_of_ne {r reg : MiRegister} (h : r ≠ reg) (value : BitVec 32) :
    (s.setMi reg value).miRegs r = s.miRegs r := if_neg h

/-- The data of a plain write that is outside of its mask is there already. -/
theorem maskExact_setMi {address word dqm : BitVec 32} {reg : MiRegister}
    (hreg : miRegister address = .ok reg) (hplain : reg = .version ∨ reg = .intr) :
    MaskExact s (s.setMi reg ((s.miRegs reg &&& ~~~dqm) ||| word)) (.write address word dqm)
      ↔ word &&& ~~~dqm &&& ~~~s.miRegs reg = 0#32 := by
  simp only [MaskExact, hreg, Except.ok.injEq, forall_eq', hplain, forall_const, miRegs_setMi_self,
    or_masked_iff]
  exact and_iff_left fun r hr => miRegs_setMi_of_ne hr _

/-- What is enabled after a plain write: what the mask keeps, and what the word has. -/
theorem enabled_or_iff (old word dqm mask : BitVec 32) :
    ((old &&& ~~~dqm) ||| word) &&& mask ≠ 0#32
      ↔ (old &&& mask) &&& ~~~dqm ≠ 0#32 ∨ word &&& mask ≠ 0#32 := by
  have hsplit : ((old &&& ~~~dqm) ||| word) &&& mask
      = ((old &&& mask) &&& ~~~dqm) ||| (word &&& mask) := by
    apply BitVec.eq_of_getLsbD_eq
    intro i hi
    simp only [BitVec.getLsbD_and, BitVec.getLsbD_or]
    rcases old.getLsbD i <;> rcases word.getLsbD i <;> rcases mask.getLsbD i <;> simp
  rw [hsplit, Ne, BitVec.or_eq_zero_iff, not_and_or]

theorem checked_step {u : Vr4300} (h : u.HasCause) :
    ∃ t, u.checkForInterrupts = .ok t ∧ t.HasCause ∧ t.LineExact :=
  let ⟨t, ht, _, hcause, hline⟩ := checkForInterrupts_spec h
  ⟨t, ht, hcause, hline⟩

/-- The mode and the version do not take part in the line. -/
theorem lineExact_setInitMode (value : BitVec 32) :
    (s.setMi .initMode value).LineExact ↔ s.LineExact := Iff.rfl

theorem lineExact_setVersion (value : BitVec 32) :
    (s.setMi .version value).LineExact ↔ s.LineExact := Iff.rfl

theorem writeMiIntrMaskReg_spec (h : s.HasCause) (word : BitVec 32) :
    ∃ t, s.writeMiIntrMaskReg word = .ok t ∧ t.HasCause ∧ t.LineExact :=
  checked_step (u := s.setMi .intrMask _) h

theorem writeMiInitModeReg_spec (h : s.HasCause) (hline : s.LineExact) (word : BitVec 32) :
    ∃ t, s.writeMiInitModeReg word = .ok t ∧ t.HasCause ∧ t.LineExact := by
  unfold writeMiInitModeReg
  split_ifs with hdp
  · rcases checked_step (u := s.setMi .intr (s.miRegs .intr &&& ~~~miIntrDp)) h with ⟨t, ht, hc, hl⟩
    refine ⟨_, by rw [ht]; rfl, ?_, ?_⟩
    · exact hc
    · exact (lineExact_setInitMode _).2 hl
  · exact ⟨_, rfl, h, (lineExact_setInitMode _).2 hline⟩

/-- A plain write leaves the line, so it is exact afterwards exactly if the write does not change
whether an enabled interrupt is pending. -/
theorem lineExact_setIntr (hline : s.LineExact) (value : BitVec 32) :
    (s.setMi .intr value).LineExact
      ↔ (value &&& s.miRegs .intrMask ≠ 0#32 ↔ s.enabled ≠ 0#32) := by
  have hsame : (s.setMi .intr value).LineExact
      ↔ (s.cause &&& causeMask ≠ 0#64 ↔ value &&& s.miRegs .intrMask ≠ 0#32) := Iff.rfl
  rw [hsame, iff_congr hline Iff.rfl]
  exact ⟨Iff.symm, Iff.symm⟩

/-- One operation: it succeeds, and it is as it should be exactly if it is harmless. -/
theorem step_spec (h : s.HasCause) (hline : s.LineExact) (hop : op.IsValid) :
    ∃ t, s.step op = .ok t ∧ t.HasCause ∧ (t.LineExact ∧ MaskExact s t op ↔ s.Harmless op) := by
  cases op with
  | signal mask =>
    rcases checked_step (u := s.setMi .intr (s.miRegs .intr ||| mask)) h with ⟨t, ht, hc, hl⟩
    exact ⟨t, ht, hc, iff_of_true ⟨hl, trivial⟩ trivial⟩
  | clear mask =>
    rcases checked_step (u := s.setMi .intr (s.miRegs .intr &&& ~~~mask)) h with ⟨t, ht, hc, hl⟩
    exact ⟨t, ht, hc, iff_of_true ⟨hl, trivial⟩ trivial⟩
  | write address word dqm =>
    rcases hop with ⟨reg, hreg⟩
    cases reg with
    | initMode =>
      rcases writeMiInitModeReg_spec h hline word with ⟨t, ht, hc, hl⟩
      refine ⟨t, by rw [step, writeMiRegs, hreg]; exact ht, hc, iff_of_true ⟨hl, ?_⟩ ?_⟩
      · simp [MaskExact, hreg]
      · simp [Harmless, hreg]
    | intrMask =>
      rcases writeMiIntrMaskReg_spec h word with ⟨t, ht, hc, hl⟩
      refine ⟨t, by rw [step, writeMiRegs, hreg]; exact ht, hc, iff_of_true ⟨hl, ?_⟩ ?_⟩
      · simp [MaskExact, hreg]
      · simp [Harmless, hreg]
    | version =>
      refine ⟨_, by rw [step, writeMiRegs, hreg]; rfl, ?_, ?_⟩
      · exact h
      rw [maskExact_setMi hreg (.inl rfl), lineExact_setVersion, and_iff_right hline]
      simp [Harmless, hreg]
    | intr =>
      refine ⟨_, by rw [step, writeMiRegs, hreg]; rfl, ?_, ?_⟩
      · exact h
      rw [maskExact_setMi hreg (.inr rfl), lineExact_setIntr hline, enabled_or_iff, and_comm]
      simp [Harmless, hreg, enabled]

end Step

section Run

theorem Correct.lineExact : ∀ {s : Vr4300} {ops : List Operation}, Correct s ops → s.LineExact
  | _, [], h => h
  | _, _ :: _, h => h.1

theorem correct_iff : ∀ {s : Vr4300} {ops : List Operation}, s.HasCause → s.LineExact →
    (∀ op ∈ ops, op.IsValid) → (Correct s ops ↔ AllHarmless s ops)
  | _, [], _, hline, _ => iff_of_true hline trivial
  | s, op :: ops, h, hline, hops => by
    rcases step_spec h hline (hops op (.head _)) with ⟨t, ht, hc, hexact⟩
    have hrest : t.LineExact → (Correct t ops ↔ AllHarmless t ops) := fun hl =>
      correct_iff hc hl fun x hx => hops x (.tail _ hx)
    simp only [Correct, AllHarmless, ht, Except.ok.injEq, exists_eq_left', and_iff_right hline]
    constructor
    · rintro ⟨hmask, hcorrect⟩
      have hl := hcorrect.lineExact
      exact ⟨hexact.1 ⟨hl, hmask⟩, (hrest hl).1 hcorrect⟩
    · rintro ⟨hharmless, hall⟩
      rcases hexact.2 hharmless with ⟨hl, hmask⟩
      exact ⟨hmask, (hrest hl).2 hall⟩

/-- From `init`, the line is exact throughout a run and all masked writes keep to their masks if
and only if all its plain writes are harmless. -/
theorem interruptLine_iff (ops : List Operation) (hops : ∀ op ∈ ops, op.IsValid) :
    Correct init ops ↔ AllHarmless init ops :=
  correct_iff (by unfold HasCause; decide) (by decide) hops

/-- An interrupt is signalled and a write to the mask register enables it. -/
theorem interruptLine_iff_signal :
    Correct init [.signal 0x2#32, .write 0x0430000c#32 0x8#32 0xffffffff#32]
      ↔ AllHarmless init [.signal 0x2#32, .write 0x0430000c#32 0x8#32 0xffffffff#32] :=
  interruptLine_iff _
    (List.forall_mem_cons.2 ⟨trivial, List.forall_mem_singleton.2 ⟨.intrMask, rfl⟩⟩)

/-- An enabled interrupt that is written into the register has no line. -/
theorem not_interruptLine :
    ¬∀ ops : List Operation, (∀ op ∈ ops, op.IsValid) → Correct init ops := by
  intro h
  have hcorrect := h [.write 0x0430000c#32 0x2#32 0xffffffff#32,
    .write 0x04300008#32 0x1#32 0xffffffff#32]
    (List.forall_mem_cons.2 ⟨⟨.intrMask, rfl⟩, List.forall_mem_singleton.2 ⟨.intr, rfl⟩⟩)
  rcases hcorrect with ⟨_, t, ht, _, _, u, hu, _, hline⟩
  rcases Except.ok.inj (ht.symm.trans rfl) with rfl
  rcases Except.ok.inj (hu.symm.trans rfl) with rfl
  exact absurd hline.lineExact (by decide)

end Run

end Vr4300

end MiptMips
