import MiptMips.Simulator.PreciseFaults
import MiptMips.Pipeline.Straight

/-!
# Delay slots

A machine with delay slots is usually described by two addresses, the one of the next instruction
and the one of the instruction after it. The simulator keeps an array of addresses and a number of
pending slots, and moves the array as it goes. As long as no control transfer stands in a delay
slot, the array holds the two addresses (`FuncSim.flow`), and a run visits the addresses that the
machine with two addresses visits (`pcs_eq_reference`).

Likely branches are branches like the others: their slot is executed whether or not they are taken
(`likely_executes_slot`).
-/

namespace MiptMips

open Machines

variable {w : ℕ}

section Units

namespace Executor

/-- Whether a unit leaves the flow: a branch when its condition holds, a jump always. -/
def takes (e : Executor) (f : FuncInstr w) : Bool :=
  match e with
  | branch p | branchAndLink p => Alu.holds f p
  | jump _ | jumpAndLink _ | eret => true
  | _ => false

/-- Where a unit goes that leaves the flow. -/
def goal (e : Executor) (f : FuncInstr w) : Addr :=
  match e with
  | jump .jr | jumpAndLink .jr | eret => f.vSrc0.setWidth 64
  | jump .riscvJr | jumpAndLink .riscvJr => (f.vSrc0 + f.vImm).setWidth 64
  | _ => f.target

end Executor

open Alu

variable {e : Executor} {f g : FuncInstr w}

theorem newPC_jump (hw : 2 ≤ w) (kind : Jump) (h : (jump f kind).trap = .noTrap) :
    (jump f kind).newPC = (Executor.jump kind).goal f := by
  cases kind with
  | j => simp [jump, jumpTo, Executor.goal]
  | jr =>
    rw [jump, jr_of_aligned hw (aligned_of_jr h)]
    simp [jumpTo, Executor.goal]
  | riscvJr => simp [jump, jumpTo, Executor.goal]

theorem newPC_branch (p : Predicate) :
    (branch f p).newPC = if holds f p then f.target else f.newPC := by
  unfold branch
  split_ifs <;> simp

/-- A unit that ends without a trap goes to its goal or goes on. -/
theorem newPC_run (hw : 2 ≤ w) (h : (e.run f).trap = .noTrap) :
    (e.run f).newPC = if e.takes f then e.goal f else f.newPC := by
  cases e with
  | branch p => exact newPC_branch p
  | branchAndLink p =>
    have hp : holds (link f) p = holds f p := by cases p <;> rfl
    rw [show (Executor.branchAndLink p).run f = branch (link f) p from rfl, newPC_branch, hp]
    rfl
  | jump kind => exact newPC_jump hw kind h
  | jumpAndLink kind =>
    have hk := newPC_jump (f := link f) hw kind h
    rw [show (Executor.jumpAndLink kind).run f = jump (link f) kind from rfl, hk]
    cases kind <;> rfl
  | eret => simp [Executor.run, eret, jumpTo, Executor.takes, Executor.goal]
  | _ => exact (flow_of_not_changesFlow rfl).2

theorem takes_eq_false (h : e.changesFlow = false) : e.takes f = false := by
  cases e <;> first | rfl | cases h

/-- Executing changes nothing that the flow depends on. -/
theorem Executed.flow (h : Executed f g) (e : Executor) :
    e.takes g = e.takes f ∧ e.goal g = e.goal f := by
  obtain ⟨_, _, _, _, _, _, _, rfl⟩ := h
  constructor <;> cases e <;> rfl

end Units

section Sequencing

namespace FuncInstr

variable (instr : FuncInstr w)

/-- On an instruction set with delay slots, all control transfers but `eret` have one. -/
def hasDelaySlot (slots : Bool) : Bool :=
  slots && instr.isJump && instr.executor != .eret

def isTakenJump : Bool := instr.executor.takes instr

def jumpGoal : Addr := instr.executor.goal instr

end FuncInstr

/-- The machine with two addresses. -/
structure Flow where
  pc : Addr
  npc : Addr

namespace Flow

/-- Where an instruction takes it. -/
def next (slots : Bool) (flow : Flow) (instr : FuncInstr w) : Flow :=
  if instr.isJump = false then ⟨flow.npc, flow.npc + 4#64⟩
  else if instr.hasDelaySlot slots then
    ⟨flow.npc, if instr.isTakenJump then instr.jumpGoal else flow.pc + 8#64⟩
  else
    let target := if instr.isTakenJump then instr.jumpGoal else flow.pc + 4#64
    ⟨target, target + 4#64⟩

/-- The addresses it visits. -/
def pcs (slots : Bool) : Flow → List (FuncInstr w) → List Addr
  | _, [] => []
  | flow, instr :: instrs => flow.pc :: pcs slots (flow.next slots instr) instrs

end Flow

/-- No control transfer stands in a delay slot, given whether the first instruction does. -/
def SlotsFree (slots : Bool) : Bool → List (FuncInstr w) → Prop
  | _, [] => True
  | inSlot, instr :: instrs =>
    (inSlot → instr.isJump = false) ∧ SlotsFree slots (instr.hasDelaySlot slots) instrs

/-- The instruction sets, whether they have delay slots, and the words of them that are not
compressed. -/
inductive Sequenced : {w : ℕ} → ISA w → Bool → (BitVec 32 → Prop) → Prop
  | mips (version : MipsVersion) :
    Sequenced (Mips.isa version) (version != .mars && version != .mars64) fun _ => True
  | riscv (opcodes : RiscVOpcodes) {w : ℕ} (hw : w = 32 ∨ w = 64 ∨ w = 128) :
    Sequenced (RiscV.isa opcodes w) false
      fun bytes => (RiscV.findEntry opcodes w bytes).subset ≠ 'C'

variable {isa : ISA w} {slots : Bool} {uncompressed : BitVec 32 → Prop}

theorem Sequenced.isSupported (h : Sequenced isa slots uncompressed) : IsSupported isa := by
  cases h with
  | mips version => exact .mips version
  | riscv opcodes hw => exact .riscv opcodes hw

/-- What decoding says of the flow. -/
structure FlowDecoded (slots : Bool) (instr : FuncInstr w) : Prop where
  newPC : instr.newPC = instr.PC + 4#64 + BitVec.ofNat 64 (4 * instr.delayedSlots)
  delayedSlots : instr.executor ≠ .unknownInstruction →
    instr.delayedSlots = if instr.hasDelaySlot slots then 1 else 0
  other : instr.isJump = false → instr.executor.changesFlow = false

end Sequencing

section Tables

open MipsTable

/-- Only `eret` reads the address it goes to from the exception program counter. -/
theorem flow_entries : ∀ e ∈ entries,
    (e.operation ≠ .outJJump → e.operation ≠ .outBranch → e.operation ≠ .outBranchLikely →
      e.operation ≠ .outRJump → e.function.changesFlow = false)
      ∧ (e.operation = .outJJump ∨ e.operation = .outBranch ∨ e.operation = .outBranchLikely
        ∨ e.operation = .outRJump → (e.src.head? = some .epc ↔ e.function = .eret)) := by
  decide +kernel

theorem isJump_eq_true {instr : FuncInstr w} (h : instr.isJump) :
    instr.operation = .outJJump ∨ instr.operation = .outBranch
      ∨ instr.operation = .outBranchLikely ∨ instr.operation = .outRJump := by
  simpa [FuncInstr.isJump, FuncInstr.isDirectJump, FuncInstr.isBranch, FuncInstr.isCommonBranch,
    FuncInstr.isLikelyBranch, FuncInstr.isIndirectJump, or_assoc] using h

theorem isJump_of_operation {f g : FuncInstr w} (h : f.operation = g.operation) :
    f.isJump = g.isJump := by
  simp [FuncInstr.isJump, FuncInstr.isDirectJump, FuncInstr.isBranch, FuncInstr.isCommonBranch,
    FuncInstr.isLikelyBranch, FuncInstr.isIndirectJump, h]

/-- The slots of a MIPS instruction, and the address after them. -/
theorem slots_createInstr (version : MipsVersion) (endian : Endian) (bytes : BitVec 32)
    (PC : Addr) {instr : FuncInstr w} (hi : instr = Mips.createInstr version endian bytes PC w) :
    instr.newPC = PC + 4#64 + BitVec.ofNat 64 (instr.delayedSlots * 4)
      ∧ instr.delayedSlots = if instr.isJump && version != .mars && version != .mars64
        && (getTableEntry bytes).src.head? != some .epc then 1 else 0 := by
  unfold Mips.createInstr at hi
  obtain ⟨target, ht⟩ := Mips.initTarget_eq
    { Mips.init version (getTableEntry bytes)
        ({ PC := PC, newPC := PC + 4#64, raw := bytes, endian := endian
           executor := .unknownInstruction
           src0 := Mips.operand bytes (getTableEntry bytes).src 0
           src1 := Mips.operand bytes (getTableEntry bytes).src 1
           dst0 := Mips.operand bytes (getTableEntry bytes).dst 0
           dst1 := Mips.operand bytes (getTableEntry bytes).dst 1 } : FuncInstr w) with
      vImm := MipsInstrDecoder.getImmediate w (getTableEntry bytes).immType
        (MipsInstrDecoder.getImmediateValue bytes (getTableEntry bytes).immType) }
  rw [ht] at hi
  rw [hi]
  exact ⟨rfl, rfl⟩

theorem flowDecoded_mips (version : MipsVersion) (endian : Endian) (bytes : BitVec 32)
    (PC : Addr) : FlowDecoded (version != .mars && version != .mars64)
      (Mips.createInstr version endian bytes PC w) := by
  obtain ⟨hnew, hslots⟩ := slots_createInstr (w := w) version endian bytes PC rfl
  obtain ⟨hother, hepc⟩ := flow_entries _ (getTableEntry_mem bytes)
  have hop := Mips.operation_createInstr (w := w) version endian bytes PC
  have hex := Mips.executor_createInstr (w := w) version endian bytes PC
  constructor
  · rw [hnew, Mips.PC_createInstr, Nat.mul_comm]
  · intro hu
    have hfun : (Mips.createInstr version endian bytes PC w).executor
        = (getTableEntry bytes).function := by
      rw [hex] at hu ⊢
      split_ifs at hu ⊢
      · rfl
      · exact absurd rfl hu
    rw [hslots, FuncInstr.hasDelaySlot, hfun]
    by_cases hj : (Mips.createInstr version endian bytes PC w).isJump = true
    · have := hepc (hop ▸ isJump_eq_true hj)
      by_cases he : (getTableEntry bytes).function = .eret
      · simp [he, this.2 he]
      · have hne : (getTableEntry bytes).src.head? ≠ some .epc := fun h => he (this.1 h)
        simp [hj, he, hne]
    · simp [hj]
  · intro hj
    obtain ⟨h₁, h₂, h₃, h₄⟩ := isJump_eq_false hj
    rw [hop] at h₁ h₂ h₃ h₄
    rw [hex]
    split_ifs
    · exact hother h₁ h₂ h₃ h₄
    · rfl

theorem flowDecoded_riscv {opcodes : RiscVOpcodes} {bytes : BitVec 32}
    (hc : (RiscV.findEntry opcodes w bytes).subset ≠ 'C') (PC : Addr) :
    FlowDecoded false (RiscV.createInstr opcodes w bytes PC) := by
  have h := straightDecoded_riscv hc PC
  constructor
  · rw [h.newPC, h.delayedSlots]
    simp
  · intro _
    rw [h.delayedSlots]
    rfl
  · exact h.other

theorem delayedSlots_riscv (opcodes : RiscVOpcodes) (bytes : BitVec 32) (PC : Addr) :
    (RiscV.createInstr opcodes w bytes PC).delayedSlots = 0 := by
  obtain ⟨target, newPC, vImm, hi⟩ := RiscV.createInstr_entry (w := w) opcodes bytes PC
  rw [hi]

end Tables

namespace FuncSim

variable {M : Type} [FuncMemory M] {isa : ISA w} {slots : Bool}
  {uncompressed : BitVec 32 → Prop} {s t : FuncSim w M} {instr : FuncInstr w}

section Step

/-- The two addresses that the array of addresses stands for. -/
def flow (s : FuncSim w M) : Flow :=
  ⟨s.getPC, if s.delayedSlots = 0 then s.getPC + 4#64 else s.pc 1⟩

/-- At most one slot is ever pending. -/
theorem delayedSlots_createInstr_le (hisa : IsSupported isa) (bytes : BitVec 32) (endian : Endian)
    (PC : Addr) : (isa.createInstr bytes endian PC).delayedSlots ≤ 1 := by
  cases hisa with
  | mips version =>
    obtain ⟨-, hslots⟩ := slots_createInstr (w := version.width) version endian bytes PC rfl
    refine le_of_eq_of_le hslots ?_
    split_ifs <;> decide
  | riscv opcodes hw => exact le_of_eq_of_le (delayedSlots_riscv opcodes bytes PC) (by decide)

theorem movePC_le {pc pc' : ℕ → Addr} {pending pending' slots : ℕ} {newPC : Addr}
    (h : movePC pc pending slots newPC = .ok (pc', pending')) (hp : pending ≤ 1)
    (hs : slots ≤ 1) : pending' ≤ 1 := by
  unfold movePC at h
  split_ifs at h <;> cases h <;> omega

/-- An access to memory leaves all that the flow depends on. -/
theorem loadStore_frame {m m' : M} {f : FuncInstr w}
    (h : FuncMemory.loadStore m f = .ok (instr, m')) :
    ∃ vDst0 complete, instr = { f with vDst0 := vDst0, memoryComplete := complete } := by
  rcases loadStore_cases h with ⟨-, rfl, -⟩ | ⟨-, rfl, -⟩ | ⟨-, -, rfl, -⟩
  · exact ⟨_, _, rfl⟩
  · exact ⟨_, _, rfl⟩
  · exact ⟨_, _, rfl⟩

/-- What a step retires is what it fetched, executed. -/
theorem retired_of_step (hs : s.Reachable isa) (h : s.step isa = .ok (instr, t)) :
    ∃ vDst0 complete, instr
      = { (s.current isa).execute with vDst0 := vDst0, memoryComplete := complete } := by
  obtain ⟨e⟩ := step_cases h
  have hc := ((fetchOperands_iff hs.coherent).1 e.fetched).2.1
  obtain ⟨v, c, hi⟩ := loadStore_frame e.accessed
  rw [hc] at hi
  exact ⟨v, c, hi⟩

theorem movePC_of_step (h : s.step isa = .ok (instr, t)) :
    movePC s.pc s.delayedSlots instr.delayedSlots instr.newPC = .ok (t.pc, t.delayedSlots) := by
  obtain ⟨e⟩ := step_cases h
  obtain ⟨pc, pending, hm, hu⟩ := updatePC_eq e.updated
  obtain ⟨n, hn⟩ := updateAndCheckNopCounter_eq e.checked
  rw [hn, hu]
  exact hm

omit [FuncMemory M] in
theorem driverStep_frame {trap : Trap} (h : s.driverStep isa instr = .ok (trap, t)) :
    t.delayedSlots = s.delayedSlots ∨ t.delayedSlots = 0 := by
  obtain ⟨result, -, h⟩ := bind_eq_ok.1 h
  simp only [pure, Except.pure, Except.ok.injEq, Prod.mk.injEq] at h
  obtain ⟨-, rfl⟩ := h
  split
  · exact .inr rfl
  · exact .inl rfl

theorem Reachable.delayedSlots_le (hisa : IsSupported isa) (h : s.Reachable isa) :
    s.delayedSlots ≤ 1 := by
  induction h with
  | create endian capacity mem => exact Nat.zero_le 1
  | @step s t instr hs hstep ih =>
    obtain ⟨v, c, hi⟩ := retired_of_step hs hstep
    have hslots : instr.delayedSlots = (s.current isa).delayedSlots := by
      obtain ⟨_, _, _, _, _, _, _, he⟩ := executed_run (s.current isa).executor (f := s.current isa)
      rw [hi]
      dsimp only
      rw [FuncInstr.execute, he]
    refine movePC_le (movePC_of_step hstep) ih ?_
    rw [hslots]
    exact delayedSlots_createInstr_le hisa _ _ _
  | driverStep _ hd ih =>
    rcases driverStep_frame hd with h | h <;> omega
  | setTarget _ _ _ _ => exact Nat.zero_le 1
  | host _ _ _ _ ih => exact ih

/-- The fields of a retired instruction that the flow is read from. -/
structure SameFlow (f instr : FuncInstr w) : Prop where
  PC : instr.PC = f.PC
  raw : instr.raw = f.raw
  operation : instr.operation = f.operation
  executor : instr.executor = f.executor
  delayedSlots : instr.delayedSlots = f.delayedSlots
  takes (e : Executor) : e.takes instr = e.takes f
  goal (e : Executor) : e.goal instr = e.goal f

theorem sameFlow_of_step (hs : s.Reachable isa) (h : s.step isa = .ok (instr, t)) :
    SameFlow (s.current isa) instr ∧ instr.trap = ((s.current isa).executor.run (s.current isa)).trap
      ∧ instr.newPC = ((s.current isa).executor.run (s.current isa)).newPC := by
  obtain ⟨v, c, hi⟩ := retired_of_step hs h
  generalize s.current isa = f at hi ⊢
  have he := executed_run f.executor (f := f)
  unfold FuncInstr.execute at hi
  generalize f.executor.run f = g at hi he ⊢
  obtain ⟨trap, memAddr, isTakenBranch, newPC, vDst0, vDst1, mask, rfl⟩ := he
  subst hi
  refine ⟨⟨rfl, rfl, rfl, rfl, rfl, fun e => ?_, fun e => ?_⟩, rfl, rfl⟩ <;> cases e <;> rfl

omit [FuncMemory M] in
theorem flow_eq (h : s.delayedSlots = 0) : s.flow = ⟨s.getPC, s.getPC + 4#64⟩ := by
  rw [flow, if_pos h]

/-- The array after an instruction without a slot: a slot that was pending is done. -/
theorem movePC_no_slot {pc pc' : ℕ → Addr} {pending pending' : ℕ} {newPC : Addr}
    (hp : pending ≤ 1) (h : movePC pc pending 0 newPC = .ok (pc', pending')) :
    pending' = 0 ∧ pc' 0 = if pending = 0 then newPC else pc 1 := by
  unfold movePC at h
  rcases Nat.le_one_iff_eq_zero_or_eq_one.1 hp with rfl | rfl <;> cases h <;> exact ⟨rfl, rfl⟩

/-- The array after an instruction with a slot. -/
theorem movePC_slot {pc pc' : ℕ → Addr} {pending' : ℕ} {newPC : Addr}
    (h : movePC pc 0 1 newPC = .ok (pc', pending')) :
    pending' = 1 ∧ pc' 0 = pc 0 + 4#64 ∧ pc' 1 = newPC := by
  cases h
  exact ⟨rfl, rfl, rfl⟩

theorem Sequenced.current (hseq : Sequenced isa slots uncompressed) (s : FuncSim w M)
    (hu : uncompressed (s.current isa).raw) : FlowDecoded slots (s.current isa) := by
  cases hseq with
  | mips version =>
    have h := flowDecoded_mips (w := version.width) version s.imem.endian
      (fetch s.imem.endian s.mem s.getPC) s.getPC
    exact ⟨h.newPC, h.delayedSlots, h.other⟩
  | riscv opcodes hw =>
    have hraw : (s.current (RiscV.isa opcodes w)).raw = fetch s.imem.endian s.mem s.getPC :=
      (RiscV.isa opcodes w).raw_createInstr _ s.imem.endian s.getPC
    rw [hraw] at hu
    have h := flowDecoded_riscv hu s.getPC
    exact ⟨h.newPC, h.delayedSlots, h.other⟩

/-- One step: the pending addresses move as those of the machine with two addresses do, as long as
no control transfer stands in a delay slot. -/
theorem flow_of_step (hseq : Sequenced isa slots uncompressed) (hs : s.Reachable isa)
    (h : s.step isa = .ok (instr, t)) (hu : uncompressed instr.raw) (htrap : instr.trap = .noTrap)
    (hfree : s.delayedSlots ≠ 0 → instr.isJump = false) :
    instr.PC = s.flow.pc ∧ t.flow = s.flow.next slots instr
      ∧ (t.delayedSlots ≠ 0 ↔ instr.hasDelaySlot slots) := by
  have hle := hs.delayedSlots_le hseq.isSupported
  have hmove := movePC_of_step h
  obtain ⟨hf, ht, hn⟩ := sameFlow_of_step hs h
  have hd := Sequenced.current hseq s (hf.raw ▸ hu)
  have hPC : (s.current isa).PC = s.getPC := isa.PC_createInstr _ _ _
  have hexec : (s.current isa).executor ≠ .unknownInstruction := by
    intro he
    rw [htrap, he] at ht
    cases ht
  have hjump : instr.isJump = (s.current isa).isJump := isJump_of_operation hf.operation
  have hslot : instr.hasDelaySlot slots = (s.current isa).hasDelaySlot slots := by
    rw [FuncInstr.hasDelaySlot, FuncInstr.hasDelaySlot, hjump, hf.executor]
  have hslots := hd.delayedSlots hexec
  rw [← hf.delayedSlots, ← hslot] at hslots
  have hnew : instr.newPC = if instr.isTakenJump then instr.jumpGoal
      else s.getPC + 4#64 + BitVec.ofNat 64 (4 * instr.delayedSlots) := by
    rw [hn, newPC_run (Nat.le_trans (by decide) hseq.isSupported.width) (ht ▸ htrap), hd.newPC, hPC,
      hf.delayedSlots, FuncInstr.isTakenJump, FuncInstr.jumpGoal, hf.executor, hf.takes, hf.goal]
  refine ⟨hf.PC.trans hPC, ?_⟩
  rcases hj : instr.isJump with _ | _
  · -- no control transfer: the machine goes on, and a pending slot is over
    have hno : instr.hasDelaySlot slots = false := by simp [FuncInstr.hasDelaySlot, hj]
    have htaken : instr.isTakenJump = false := by
      rw [FuncInstr.isTakenJump, hf.executor]
      exact takes_eq_false (hd.other (hjump ▸ hj))
    simp only [hno, Bool.false_eq_true, if_false] at hslots
    simp only [htaken, hslots, Bool.false_eq_true, if_false, Nat.mul_zero, BitVec.add_zero]
      at hnew
    rw [hslots] at hmove
    obtain ⟨hd', hp⟩ := movePC_no_slot hle hmove
    refine ⟨?_, by simp [hd', hno]⟩
    rw [flow_eq hd', getPC, hp, hnew]
    simp only [Flow.next, hj, if_true, flow]
  · have hd₀ : s.delayedSlots = 0 := by
      by_contra hne
      rw [hfree hne] at hj
      cases hj
    rcases hsl : instr.hasDelaySlot slots with _ | _
    · simp only [hsl, Bool.false_eq_true, if_false] at hslots
      rw [hslots] at hmove hnew
      obtain ⟨hd', hp⟩ := movePC_no_slot hle hmove
      refine ⟨?_, by simp [hd']⟩
      rw [flow_eq hd', getPC, hp, if_pos hd₀, hnew, flow_eq hd₀]
      simp [Flow.next, hj, hsl]
    · simp only [hsl, if_true] at hslots
      rw [hslots] at hmove hnew
      rw [hd₀] at hmove
      obtain ⟨hd', hp₀, hp₁⟩ := movePC_slot hmove
      refine ⟨?_, by simp [hd']⟩
      rw [flow, if_neg (by simp [hd']), getPC, hp₀, hp₁, hnew, flow_eq hd₀]
      simp [Flow.next, hj, hsl, BitVec.add_assoc, getPC]

end Step

section Run

variable {K : Type} {kernel : Kernel w M K} {s t : K × FuncSim w M} {instrs : List (FuncInstr w)}

/-- The body of the run loop, with the instruction it logs. -/
def loggedStep (isa : ISA w) (kernel : Kernel w M K) (s : K × FuncSim w M) :
    Except SimException (FuncInstr w × K × FuncSim w M) := do
  let (instr, sim) ← s.2.step isa
  let (k, handled, sim) ← sim.handleInstruction kernel s.1 instr
  let (_, sim) ← sim.driverStep isa handled
  return (instr, k, sim)

/-- A driver lets an instruction without a trap pass. -/
theorem handleTrap_noTrap (hisa : IsSupported isa) {rf : RF w} {f : FuncInstr w}
    {result : DriverResult w} (hf : f.trap = .noTrap) (h : isa.handleTrap rf f = .ok result) :
    result.pc = none ∧ result.trap = .noTrap := by
  cases hisa with
  | mips version =>
    change Mips.handleTrap rf f = _ at h
    rw [Mips.handleTrap, if_pos (.inl hf), hf] at h
    cases h
    exact ⟨rfl, rfl⟩
  | riscv opcodes hw =>
    change RiscV.handleTrap opcodes rf f = _ at h
    obtain ⟨rf', -, h⟩ := bind_eq_ok.1 h
    rw [if_pos (.inl hf), hf] at h
    cases h
    exact ⟨rfl, rfl⟩

theorem step_of_loggedStep (h : loggedStep isa kernel s = .ok (instr, t)) :
    ∃ u, s.2.step isa = .ok (instr, u) := by
  obtain ⟨⟨instr', u⟩, hu, h⟩ := bind_eq_ok.1 h
  obtain ⟨_, -, h⟩ := bind_eq_ok.1 h
  obtain ⟨_, -, h⟩ := bind_eq_ok.1 h
  cases h
  exact ⟨u, hu⟩

/-- All that the loop does with an instruction without a trap, after the step: a driver may write
its cause register. -/
theorem loggedStep_cases (hisa : IsSupported isa)
    (h : loggedStep isa kernel s = .ok (instr, t)) (htrap : instr.trap = .noTrap) :
    ∃ u rf, s.2.step isa = .ok (instr, u) ∧ t = (s.1, { u with rf := rf })
      ∧ runStep isa kernel s = .ok (.noTrap, t) := by
  unfold loggedStep at h
  obtain ⟨⟨instr', u⟩, hu, h⟩ := bind_eq_ok.1 h
  obtain ⟨⟨k, handled, v⟩, hk, h⟩ := bind_eq_ok.1 h
  obtain ⟨⟨trap, x⟩, hd, h⟩ := bind_eq_ok.1 h
  cases h
  have hk' := hk
  rw [handleInstruction, if_pos (by rw [htrap]; decide)] at hk
  cases hk
  obtain ⟨result, hr, he⟩ := bind_eq_ok.1 hd
  obtain ⟨hpc, htr⟩ := handleTrap_noTrap hisa htrap hr
  rw [hpc, htr] at he
  cases he
  refine ⟨u, result.rf, hu, rfl, ?_⟩
  unfold runStep
  simp only [hu, hk', hd, bind, Except.bind, pure, Except.pure]

/-- On every MIPS version and on RISC-V without compressed instructions, a run without traps in
which no control transfer stands in a delay slot visits the addresses that the machine with two
addresses visits, from any state a simulator gets into. -/
theorem pcs_eq_reference (hseq : Sequenced isa slots uncompressed)
    (hrun : Steps (loggedStep isa kernel) s instrs t) (hs : s.2.Reachable isa)
    (hwords : ∀ f ∈ instrs, uncompressed f.raw) (htrap : ∀ f ∈ instrs, f.trap = .noTrap)
    (hfree : SlotsFree slots (s.2.delayedSlots != 0) instrs) :
    instrs.map (·.PC) = s.2.flow.pcs slots instrs := by
  induction hrun with
  | nil s => rfl
  | @cons s u t instr instrs hstep hrest ih =>
    obtain ⟨v, rf, hv, hu, hloop⟩ := loggedStep_cases hseq.isSupported hstep (htrap _ (by simp))
    obtain ⟨hfirst, hrestFree⟩ := hfree
    obtain ⟨hPC, hflow, hpending⟩ := flow_of_step hseq hs hv (hwords _ (by simp))
      (htrap _ (by simp)) fun h => hfirst (by simpa using h)
    have hflow' : u.2.flow = s.2.flow.next slots instr := by
      rw [hu, ← hflow]
      rfl
    have hpending' : (u.2.delayedSlots != 0) = instr.hasDelaySlot slots := by
      rw [hu, Bool.eq_iff_iff, ← hpending]
      simp
    rw [List.map_cons, Flow.pcs, ← hPC, ← hflow']
    congr 1
    refine ih (hs.runStep hloop) (fun f hf => hwords f (by simp [hf]))
      (fun f hf => htrap f (by simp [hf])) ?_
    rw [hpending']
    exact hrestFree

/-- The branch `beq $zero, $zero, -2` at the address 8, the slot after it, and its target. -/
theorem pcs_eq_reference_beq : ∃ f g h t,
    Steps (loggedStep (Mips.isa .v32) (Kernel.dummy 32 PlainMemory))
      ((), simulatorWith (memoryWith 0xfe#8 0xff#8 0x00#8 0x10#8)) [f, g, h] t
      ∧ [f, g, h].map (·.PC) = [8#64, 12#64, 4#64]
      ∧ [f, g, h].map (·.PC) = (⟨8#64, 12#64⟩ : Flow).pcs true [f, g, h] := by
  have hrun : ∃ f g h t, Steps (loggedStep (Mips.isa .v32) (Kernel.dummy 32 PlainMemory))
      ((), simulatorWith (memoryWith 0xfe#8 0xff#8 0x00#8 0x10#8)) [f, g, h] t
      ∧ [f, g, h].map (·.PC) = [8#64, 12#64, 4#64]
      ∧ [f, g, h].map (·.trap) = [.noTrap, .noTrap, .noTrap]
      ∧ [g, h].map (·.isJump) = [false, false] :=
    ⟨_, _, _, _, .cons rfl (.cons rfl (.cons rfl (.nil _))), rfl, rfl, rfl⟩
  obtain ⟨f, g, h, t, hrun, hpcs, htraps, hjumps⟩ := hrun
  simp only [List.map_cons, List.map_nil, List.cons.injEq, and_true] at htraps hjumps
  refine ⟨f, g, h, t, hrun, hpcs, pcs_eq_reference (.mips .v32) hrun (reachable_simulatorWith _)
    (fun _ _ => trivial) ?_ ?_⟩
  · simpa using htraps
  · exact ⟨nofun, fun _ => hjumps.1, fun _ => hjumps.2, trivial⟩

end Run

section Likely

variable {K : Type} {version : MipsVersion} {kernel : Kernel version.width M K}
  {s t : K × FuncSim version.width M} {f g : FuncInstr version.width}

open MipsTable in
theorem likely_entries : ∀ e ∈ entries, e.operation = .outBranchLikely →
    e.function.isBranch ∨ e.function.changesFlow = false := by decide +kernel

theorem likely_unit {s u : FuncSim version.width M} (hs : s.Reachable (Mips.isa version))
    (h : s.step (Mips.isa version) = .ok (f, u)) (hl : f.isLikelyBranch) :
    f.executor.isBranch ∨ f.executor.changesFlow = false := by
  obtain ⟨hf, -, -⟩ := sameFlow_of_step hs h
  obtain ⟨target, newPC, slots, hi⟩ := Mips.createInstr_entry (w := version.width) version
    s.imem.endian (fetch s.imem.endian s.mem s.getPC) s.getPC
  have hm := MipsTable.getTableEntry_mem (fetch s.imem.endian s.mem s.getPC)
  generalize MipsTable.getTableEntry (fetch s.imem.endian s.mem s.getPC) = e at hi hm
  have hop : f.operation = e.operation := by
    rw [hf.operation]
    exact congrArg FuncInstr.operation hi
  have hex : f.executor
      = if e.versions.isSupported version then e.function else .unknownInstruction := by
    rw [hf.executor]
    exact congrArg FuncInstr.executor hi
  rw [hex]
  split_ifs
  · refine likely_entries e hm ?_
    rw [← hop]
    simpa [FuncInstr.isLikelyBranch] using hl
  · exact .inr rfl

/-- A branch that is taken goes to the target it was decoded with. -/
theorem jumpGoal_branch {w : ℕ} {f : FuncInstr w}
    (hb : f.executor.isBranch ∨ f.executor.changesFlow = false) (ht : f.isTakenJump) :
    f.jumpGoal = f.target := by
  rcases hb with hb | hb
  · rw [FuncInstr.jumpGoal]
    cases he : f.executor <;> rw [he] at hb <;> first | rfl | cases hb
  · rw [FuncInstr.isTakenJump, takes_eq_false hb] at ht
    cases ht

/-- A likely branch has its slot executed whatever its condition says: after it comes the
instruction at the next word, and after that one, if it neither traps nor has a slot, the target or
the word behind the slot. -/
theorem likely_executes_slot (hv : version ≠ .mars ∧ version ≠ .mars64)
    (hrun : Steps (loggedStep (Mips.isa version) kernel) s [f, g] t)
    (hs : s.2.Reachable (Mips.isa version)) (hslot : s.2.delayedSlots = 0)
    (hl : f.isLikelyBranch) (hf : f.trap = .noTrap) :
    f.PC = s.2.getPC ∧ g.PC = f.PC + 4#64
      ∧ (g.trap = .noTrap → g.delayedSlots = 0 →
        t.2.getPC = if f.isTakenJump then f.target else f.PC + 8#64) := by
  obtain _ | ⟨hstep, _ | ⟨hstep', hnil⟩⟩ := hrun
  cases hnil
  have hseq := Sequenced.mips version
  obtain ⟨u, rf, hu, rfl, hloop⟩ := loggedStep_cases hseq.isSupported hstep hf
  obtain ⟨hPC, hflow, hpending⟩ := flow_of_step hseq hs hu trivial hf fun h => absurd hslot h
  have hunit := likely_unit hs hu hl
  have hjump : f.isJump = true := by simp [FuncInstr.isJump, FuncInstr.isBranch, hl]
  have heret : f.executor ≠ .eret := by
    intro he
    rw [he] at hunit
    rcases hunit with h | h <;> cases h
  have hdelay : f.hasDelaySlot (version != .mars && version != .mars64) = true := by
    simp [FuncInstr.hasDelaySlot, hv, hjump, heret]
  -- the branch leaves one slot pending, and its own target behind it
  have hu' := hs.runStep hloop
  have hone : u.delayedSlots = 1 := by
    have h₁ := hpending.2 hdelay
    have h₂ := hu'.delayedSlots_le hseq.isSupported
    exact le_antisymm h₂ (Nat.one_le_iff_ne_zero.2 h₁)
  rw [flow_eq hslot, Flow.next, if_neg (by simp [hjump]), if_pos hdelay, flow, hone] at hflow
  obtain ⟨hnext, hafter⟩ := Flow.mk.inj hflow
  rw [flow_eq hslot] at hPC
  refine ⟨hPC, ?_, fun hg hg₀ => ?_⟩
  · obtain ⟨v, hv'⟩ := step_of_loggedStep hstep'
    obtain ⟨hfl, -, -⟩ := sameFlow_of_step hu' hv'
    have hgPC : g.PC = u.getPC := hfl.PC.trans ((Mips.isa version).PC_createInstr _ _ _)
    rw [hgPC, hnext, hPC]
  · -- the slot has no slot of its own, so what was pending is next
    obtain ⟨v, rf', hv', rfl, -⟩ := loggedStep_cases hseq.isSupported hstep' hg
    have hmove := movePC_of_step hv'
    rw [hg₀] at hmove
    obtain ⟨-, hp⟩ := movePC_no_slot (le_of_eq hone) hmove
    have htarget : (if f.isTakenJump then f.jumpGoal else s.2.getPC + 8#64)
        = if f.isTakenJump then f.target else f.PC + 8#64 := by
      split_ifs with ht
      · exact jumpGoal_branch hunit ht
      · rw [hPC]
    rw [← htarget, ← hafter]
    show v.pc 0 = _
    rw [hp, hone]
    rfl

/-- `bnel $zero, $zero, -2; addiu $t2, $zero, 1` at the address 8. -/
def likelyProgram : PlainMemory where
  addrBits := 4
  arena := List.replicate 8 0#8 ++ [0xfe#8, 0xff#8, 0x00#8, 0x54#8, 0x01#8, 0x00#8, 0x0a#8, 0x24#8]
  host _ := 0#8
  bits_lt := PlainMemory.four_bits_lt
  length_arena := rfl

theorem likely_run : ∃ f g t, Steps (loggedStep (Mips.isa .v32) (Kernel.dummy 32 PlainMemory))
    ((), simulatorWith likelyProgram) [f, g] t
      ∧ f.isLikelyBranch ∧ f.trap = .noTrap ∧ g.trap = .noTrap ∧ f.PC = 8#64
      ∧ f.isTakenJump = false ∧ g.delayedSlots = 0 ∧ g.PC = 12#64 ∧ t.2.rf.array 10 = 1#32 :=
  ⟨_, _, _, .cons rfl (.cons rfl (.nil _)), rfl, rfl, rfl, rfl, rfl, rfl, rfl, rfl⟩

theorem likely_executes_slot_bnel : ∃ f g t,
    Steps (loggedStep (Mips.isa .v32) (Kernel.dummy 32 PlainMemory))
      ((), simulatorWith likelyProgram) [f, g] t
      ∧ f.isLikelyBranch ∧ f.isTakenJump = false ∧ f.PC = 8#64 ∧ g.PC = f.PC + 4#64
      ∧ t.2.getPC = if f.isTakenJump then f.target else f.PC + 8#64 := by
  obtain ⟨f, g, t, hrun, hl, hf, hg, hPC, ht, hg₀, -, -⟩ := likely_run
  have hversion : MipsVersion.v32 ≠ .mars ∧ MipsVersion.v32 ≠ .mars64 := by decide
  obtain ⟨-, hgPC, hend⟩ := likely_executes_slot hversion hrun (reachable_simulatorWith _) rfl hl
    hf
  exact ⟨f, g, t, hrun, hl, ht, hPC, hgPC, hend hg hg₀⟩

/-- A likely branch that is not taken does not annul its slot: the addition in it is done. -/
theorem not_annulled : ∃ f g t,
    (simulatorWith likelyProgram).Reachable (Mips.isa .v32)
      ∧ Steps (loggedStep (Mips.isa .v32) (Kernel.dummy 32 PlainMemory))
        ((), simulatorWith likelyProgram) [f, g] t
      ∧ f.isLikelyBranch ∧ f.trap = .noTrap ∧ f.isTakenJump = false
      ∧ g.PC = f.PC + 4#64 ∧ g.PC ≠ f.PC + 8#64 ∧ t.2.rf.array 10 = 1#32 := by
  obtain ⟨f, g, t, hrun, hl, hf, -, hPC, ht, -, hg, hr⟩ := likely_run
  refine ⟨f, g, t, reachable_simulatorWith _, hrun, hl, hf, ht, ?_, ?_, hr⟩
  · rw [hg, hPC]
    rfl
  · rw [hg, hPC]
    decide

end Likely

end FuncSim

end MiptMips
