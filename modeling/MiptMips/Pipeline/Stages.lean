import MiptMips.FuncSim.Faults
import MiptMips.Modules.Backend

/-!
# What the stages do in a run

A run of Execute, Mem and Branch, with what comes in and the state in each cycle. What is executed
in a cycle takes one of four paths to Writeback, each of its own length; a flush on the way stops
it on all of them (`arrived_iff`).
-/

namespace MiptMips

open Machines

variable {w : ℕ}

section Path

/-- The ways from Execute to Writeback. -/
inductive ExecutionPath where
  | writeback | mem | branch | long
  deriving DecidableEq

/-- The cycles from Execute to Writeback. -/
def ExecutionPath.latency (longAluLatency : ℕ) : ExecutionPath → ℕ
  | writeback => 1
  | mem => 2
  | branch => 2
  | long => longAluLatency

/-- Execute asks in this order. -/
def FuncInstr.path (instr : FuncInstr w) : ExecutionPath :=
  if instr.isDivmult then .long
  else if instr.isJump then .branch
  else if instr.isLoad || instr.isStore || instr.isExplicitTrap then .mem
  else .writeback

theorem FuncInstr.path_congr {f g : FuncInstr w} (h : f.operation = g.operation) :
    f.path = g.path := by
  simp [path, isDivmult, isJump, isLoad, isStore, isExplicitTrap, isDirectJump, isBranch,
    isCommonBranch, isLikelyBranch, isIndirectJump, isUnsignedLoad, isSignedLoad, isPartialLoad,
    getAccumulationType, h]

/-- The bypassing unit asks in another order, which makes no difference. -/
theorem getInstructionLatency_eq (unit : DataBypass) (instr : PerfInstr w) :
    unit.getInstructionLatency instr = instr.path.latency unit.longAluLatency := by
  unfold DataBypass.getInstructionLatency FuncInstr.path PerfInstr.isMemStageRequired
    PerfInstr.isBranchStageRequired PerfInstr.isLongArithmetic FuncInstr.isDivmult FuncInstr.isJump
    FuncInstr.isLoad FuncInstr.isStore FuncInstr.isExplicitTrap FuncInstr.isDirectJump
    FuncInstr.isBranch FuncInstr.isCommonBranch FuncInstr.isLikelyBranch FuncInstr.isIndirectJump
    FuncInstr.isUnsignedLoad FuncInstr.isSignedLoad FuncInstr.isPartialLoad
    FuncInstr.getAccumulationType
  cases instr.operation <;> rfl

theorem ExecutionPath.latency_pos {longAluLatency : ℕ} (h : 2 ≤ longAluLatency)
    (path : ExecutionPath) : 0 < path.latency longAluLatency := by
  cases path <;> simp only [latency] <;> omega

end Path

section Carried

/-- What an instruction keeps on its way. -/
structure Carried (x y : PerfInstr w) : Prop where
  operation : y.operation = x.operation
  PC : y.PC = x.PC
  sequenceId : y.sequenceId = x.sequenceId
  raw : y.raw = x.raw
  executor : y.executor = x.executor
  target : y.target = x.target
  src0 : y.src0 = x.src0
  src1 : y.src1 = x.src1
  dst0 : y.dst0 = x.dst0
  dst1 : y.dst1 = x.dst1
  bpData : y.bpData = x.bpData

namespace Carried

variable {x y z : PerfInstr w}

theorem refl (x : PerfInstr w) : Carried x x := ⟨rfl, rfl, rfl, rfl, rfl, rfl, rfl, rfl, rfl, rfl, rfl⟩

theorem trans (h : Carried x y) (h' : Carried y z) : Carried x z :=
  ⟨h'.operation.trans h.operation, h'.PC.trans h.PC, h'.sequenceId.trans h.sequenceId,
    h'.raw.trans h.raw, h'.executor.trans h.executor, h'.target.trans h.target,
    h'.src0.trans h.src0, h'.src1.trans h.src1, h'.dst0.trans h.dst0, h'.dst1.trans h.dst1,
    h'.bpData.trans h.bpData⟩

theorem path (h : Carried x y) : y.path = x.path := FuncInstr.path_congr h.operation

theorem setVSrc (x : PerfInstr w) (value : BitVec w) (index : Fin 2) :
    Carried x (x.withInstr (x.setVSrc value index)) := by
  unfold PerfInstr.withInstr FuncInstr.setVSrc
  split_ifs <;> exact ⟨rfl, rfl, rfl, rfl, rfl, rfl, rfl, rfl, rfl, rfl, rfl⟩

theorem execute (x : PerfInstr w) : Carried x (x.withInstr x.execute) := by
  obtain ⟨_, _, _, _, _, _, _, he⟩ := executed_run (f := x.toFuncInstr) x.executor
  unfold PerfInstr.withInstr FuncInstr.execute
  rw [he]
  exact ⟨rfl, rfl, rfl, rfl, rfl, rfl, rfl, rfl, rfl, rfl, rfl⟩

theorem readBypass (data : Execute.BypassData w) (commands : Fin 2 → Option BypassCommand)
    (x : PerfInstr w) (index : Fin 2) :
    Carried x (x.withInstr (Execute.readBypass data commands x.toFuncInstr index)) := by
  unfold Execute.readBypass
  split
  · exact setVSrc x _ index
  · exact refl x

theorem readOperands (data : Execute.BypassData w) (commands : Fin 2 → Option BypassCommand)
    (x : PerfInstr w) :
    Carried x (x.withInstr (Execute.readOperands data commands x.toFuncInstr)) :=
  (readBypass data commands x 0).trans (readBypass data commands (x.withInstr _) 1)

theorem loadStore {M : Type} [FuncMemory M] {mem mem' : M} {f : FuncInstr w}
    (h : FuncMemory.loadStore mem x.toFuncInstr = .ok (f, mem')) : Carried x (x.withInstr f) := by
  unfold FuncMemory.loadStore at h
  split_ifs at h
  · cases h
    exact ⟨rfl, rfl, rfl, rfl, rfl, rfl, rfl, rfl, rfl, rfl, rfl⟩
  · obtain ⟨m, -, h⟩ := bind_eq_ok.1 h
    cases h
    exact refl x
  · cases h
    exact refl x

end Carried

end Carried

/-- A run of the stages behind Decode. -/
structure BackendRun (w : ℕ) (M : Type) [FuncMemory M] where
  longAluLatency : ℕ
  length : ℕ
  backend : ℕ → Backend w
  flush : ℕ → Bool
  datapath : ℕ → Option (PerfInstr w)
  commands : ℕ → Fin 2 → Option BypassCommand
  fromWriteback : ℕ → List (InstructionOutput w)
  mem : ℕ → M
  memAfter : ℕ → M
  latency_ge : 2 ≤ longAluLatency
  start : backend 0 = .create w longAluLatency
  step : ∀ c < length, (backend c).clock (flush c) (datapath c) (commands c) (fromWriteback c)
    (mem c) = .ok (backend (c + 1), memAfter c)

namespace BackendRun

variable {M : Type} [FuncMemory M] (run : BackendRun w M)

/-- The instruction that Execute executes in a cycle, with its results. -/
def executed (c : ℕ) : Option (PerfInstr w) :=
  if run.flush c then none
  else (run.datapath c).map fun instr => instr.withInstr
    (Execute.readOperands ((run.backend c).bypassData (run.fromWriteback c)) (run.commands c)
      instr.toFuncInstr).execute

/-- The executed instruction, if it goes this way. -/
def executedOn (path : ExecutionPath) (c : ℕ) : Option (PerfInstr w) :=
  (run.executed c).filter fun instr => instr.path = path

/-- No flush between the two cycles. -/
def Quiet (c c' : ℕ) : Prop := ∀ v, c < v → v < c' → run.flush v = false

/-- What comes out of the long-latency unit in a cycle. -/
def longOut (c : ℕ) : Option (PerfInstr w) :=
  if run.flush c = false ∧ (run.backend c).execute.flushExpirationLatency - 1 = 0
  then (run.backend c).execute.longLatencyExecutionUnit.out else none

section Cycle

variable {c : ℕ}

theorem isLongArithmetic_iff (instr : PerfInstr w) :
    instr.isLongArithmetic = true ↔ instr.path = .long := by
  unfold PerfInstr.isLongArithmetic FuncInstr.path
  split_ifs <;> simp [*]

/-- What Execute writes for an instruction that does not go into the long-latency unit. -/
theorem dispatch_eq {instr : PerfInstr w} (h : instr.path ≠ .long) :
    Execute.dispatch instr
      = { mem := (some instr).filter fun instr => instr.path = .mem
          branch := (some instr).filter fun instr => instr.path = .branch
          writeback := ((some instr).filter fun instr => instr.path = .writeback).toList
          bypass := some instr.vDst } := by
  have hl : instr.isDivmult = false := by
    rcases hl : instr.isDivmult with _ | _
    · rfl
    · exact absurd ((isLongArithmetic_iff instr).1 hl) h
  unfold Execute.dispatch PerfInstr.isMemStageRequired
  split_ifs with hj hm
  · have hp : instr.path = .branch := by simp [FuncInstr.path, hl, hj]
    simp [hp, Option.filter_some]
  · have hp : instr.path = .mem := by simp [FuncInstr.path, hl, hj, hm]
    simp [hp, Option.filter_some]
  · have hp : instr.path = .writeback := by simp [FuncInstr.path, hl, hj, hm]
    simp [hp, Option.filter_some]

/-- All that a cycle does. -/
theorem cycle (hc : c < run.length) :
    ((run.backend (c + 1)).fromExecute, (run.backend (c + 1)).execute)
        = (run.backend c).execute.clock (run.flush c) (run.datapath c) (run.commands c)
          ((run.backend c).bypassData (run.fromWriteback c))
      ∧ Mem.clock (run.flush c) (run.backend c).fromExecute.mem (run.mem c)
        = .ok ((run.backend (c + 1)).fromMem, run.memAfter c)
      ∧ (run.backend (c + 1)).fromBranch
        = Branch.clock (run.flush c) (run.backend c).fromExecute.branch := by
  obtain ⟨⟨fromMem, mem⟩, hm, h⟩ := bind_eq_ok.1 (run.step c hc)
  simp only [pure, Except.pure, Except.ok.injEq, Prod.mk.injEq] at h
  obtain ⟨hb, rfl⟩ := h
  rw [← hb]
  exact ⟨rfl, hm, rfl⟩

/-- Execute's ports, by the path of what it executes. -/
theorem fromExecute_eq (hc : c < run.length) :
    (run.backend (c + 1)).fromExecute
      = { mem := run.executedOn .mem c
          branch := run.executedOn .branch c
          writeback := (run.longOut c).toList ++ (run.executedOn .writeback c).toList
          bypass := ((run.executed c).filter fun instr => instr.path ≠ .long).map (·.vDst)
          longArithmeticBypass := (run.longOut c).map (·.vDst) }
      ∧ (run.backend (c + 1)).execute
        = { (run.backend c).execute with
            flushExpirationLatency :=
              if run.flush c then (run.backend c).execute.lastExecutionStageLatency
              else (run.backend c).execute.flushExpirationLatency - 1
            longLatencyExecutionUnit :=
              (run.backend c).execute.longLatencyExecutionUnit.shift (run.executedOn .long c) } := by
  obtain ⟨he, -, -⟩ := run.cycle hc
  have h₁ := congrArg Prod.fst he
  have h₂ := congrArg Prod.snd he
  dsimp only at h₁ h₂
  rw [h₁, h₂]
  unfold executedOn executed longOut Execute.clock
  rcases hf : run.flush c with _ | _
  · rcases hd : run.datapath c with _ | instr
    · simp
    · simp only [Option.map_some, Bool.false_eq_true, if_false]
      generalize instr.withInstr (Execute.readOperands ((run.backend c).bypassData
        (run.fromWriteback c)) (run.commands c) instr.toFuncInstr).execute = executed
      by_cases hp : executed.path = .long
      · rw [if_pos ((isLongArithmetic_iff executed).2 hp)]
        simp [hp, Option.filter_some]
      · rw [if_neg (fun hl => hp ((isLongArithmetic_iff executed).1 hl)), dispatch_eq hp]
        simp [hp, Option.filter_some]
  · simp

theorem fromBranch_eq (hc : c < run.length) :
    (run.backend (c + 1)).fromBranch.datapath
      = if run.flush c then none else (run.backend c).fromExecute.branch := by
  obtain ⟨-, -, hb⟩ := run.cycle hc
  rw [hb]
  unfold Branch.clock
  rcases (run.backend c).fromExecute.branch with _ | instr <;> rcases run.flush c with _ | _ <;> rfl

/-- Mem has nothing to do, or its instruction accesses memory. -/
theorem fromMem_cases (hc : c < run.length) :
    ((run.flush c = true ∨ (run.backend c).fromExecute.mem = none)
        ∧ (run.backend (c + 1)).fromMem = {} ∧ run.memAfter c = run.mem c)
      ∨ ∃ x f, run.flush c = false ∧ (run.backend c).fromExecute.mem = some x
        ∧ FuncMemory.loadStore (run.mem c) x.toFuncInstr = .ok (f, run.memAfter c)
        ∧ (run.backend (c + 1)).fromMem = ⟨some (x.withInstr f), some f.vDst⟩ := by
  obtain ⟨-, hm, -⟩ := run.cycle hc
  unfold Mem.clock at hm
  rcases hf : run.flush c with _ | _
  · rcases hx : (run.backend c).fromExecute.mem with _ | x
    · simp only [hf, hx, Bool.false_eq_true, if_false, Except.ok.injEq, Prod.mk.injEq] at hm
      exact .inl ⟨.inr rfl, hm.1.symm, hm.2.symm⟩
    · simp only [hf, hx, Bool.false_eq_true, if_false] at hm
      obtain ⟨⟨f, mem⟩, hl, hm⟩ := bind_eq_ok.1 hm
      simp only [pure, Except.pure, Except.ok.injEq, Prod.mk.injEq] at hm
      obtain ⟨hm, rfl⟩ := hm
      exact .inr ⟨x, f, rfl, rfl, hl, hm.symm⟩
  · simp only [hf, if_true, Except.ok.injEq, Prod.mk.injEq] at hm
    exact .inl ⟨.inl rfl, hm.1.symm, hm.2.symm⟩

end Cycle

section LongLatency

variable {c : ℕ}

theorem item_longLatencyExecutionUnit (hc : c ≤ run.length) (r : ℕ) :
    (run.backend c).execute.longLatencyExecutionUnit.item r
      = if run.longAluLatency - 1 ≤ c + r ∧ r < run.longAluLatency - 1
        then run.executedOn .long (c + r - (run.longAluLatency - 1)) else none := by
  refine (DelayLine.item_history (fun c => (run.backend c).execute.longLatencyExecutionUnit)
    ?_ (fun c hc => ?_) c hc).2 r
  · rw [run.start]
    rfl
  · rw [(run.fromExecute_eq hc).2]

theorem lastExecutionStageLatency_eq : ∀ {c}, c ≤ run.length →
    (run.backend c).execute.lastExecutionStageLatency = run.longAluLatency - 1
  | 0, _ => by
    rw [run.start]
    rfl
  | c + 1, hc => by
    rw [(run.fromExecute_eq (by omega : c < run.length)).2]
    exact lastExecutionStageLatency_eq (by omega)

/-- The expiration counts down from the last flush. -/
theorem flushExpirationLatency_le_iff : ∀ {c m : ℕ}, c ≤ run.length →
    ((run.backend c).execute.flushExpirationLatency ≤ m
      ↔ ∀ v < c, run.flush v = true → v + run.longAluLatency ≤ c + m)
  | 0, m, _ => by
    rw [run.start]
    simp [Backend.create, Execute.create]
  | c + 1, m, hc => by
    have hlt : c < run.length := by omega
    have hge := run.latency_ge
    rw [(run.fromExecute_eq hlt).2]
    rcases hf : run.flush c with _ | _
    · have ih := flushExpirationLatency_le_iff (c := c) (m := m + 1) hlt.le
      simp only [Bool.false_eq_true, if_false]
      rw [Nat.sub_le_iff_le_add, ih]
      refine ⟨fun h v hv hfv => ?_, fun h v hv hfv => ?_⟩
      · rcases Nat.lt_or_eq_of_le (Nat.lt_succ_iff.1 hv) with hv | rfl
        · have := h v hv hfv
          omega
        · rw [hf] at hfv
          cases hfv
      · have := h v (by omega) hfv
        omega
    · simp only [if_true, run.lastExecutionStageLatency_eq hlt.le]
      refine ⟨fun h v hv _ => by omega, fun h => ?_⟩
      have := h c (by omega) hf
      omega

/-- What comes out of the long-latency unit went in when its latency began, and no flush came in
between. -/
theorem longOut_iff (hc : c ≤ run.length) {y : PerfInstr w} :
    run.longOut c = some y
      ↔ ∃ e, e + run.longAluLatency = c + 1 ∧ run.executedOn .long e = some y
        ∧ run.Quiet e (c + 1) := by
  have hge := run.latency_ge
  have hexp : (run.backend c).execute.flushExpirationLatency - 1 = 0
      ↔ ∀ v < c, run.flush v = true → v + run.longAluLatency ≤ c + 1 := by
    rw [← run.flushExpirationLatency_le_iff hc]
    omega
  have hitem := run.item_longLatencyExecutionUnit hc 0
  unfold longOut DelayLine.out
  rw [hitem]
  constructor
  · intro h
    split_ifs at h with hq hl
    refine ⟨c - (run.longAluLatency - 1), by omega, h, fun v hv hv' => ?_⟩
    rcases hf : run.flush v with _ | _
    · rfl
    · rcases Nat.lt_or_eq_of_le (Nat.lt_succ_iff.1 hv') with hv' | rfl
      · have := hexp.1 hq.2 v hv' hf
        omega
      · rw [hq.1] at hf
        cases hf
  · rintro ⟨e, he, hx, hq⟩
    have hc' : c + 0 - (run.longAluLatency - 1) = e := by omega
    have hv : ∀ v < c, run.flush v = true → v + run.longAluLatency ≤ c + 1 := by
      intro v hv hf
      rcases Nat.lt_or_ge e v with hev | hev
      · rw [hq v hev (by omega)] at hf
        cases hf
      · omega
    rw [if_pos ⟨hq c (by omega) (by omega), hexp.2 hv⟩, if_pos (by omega), hc', hx]

end LongLatency

section Arrival

variable {c : ℕ}

/-- What becomes of an executed instruction until it arrives. -/
def Result (c : ℕ) (x y : PerfInstr w) : Prop :=
  if x.path = .mem then
    ∃ f, FuncMemory.loadStore (run.mem (c + 1)) x.toFuncInstr = .ok (f, run.memAfter (c + 1))
      ∧ y = x.withInstr f
  else y = x

/-- What arrives on a path. -/
def arrivedOn : ExecutionPath → ℕ → Option (PerfInstr w)
  | .branch, c => (run.backend c).fromBranch.datapath
  | .mem, c => (run.backend c).fromMem.datapath
  | .long, 0 => none
  | .long, c + 1 => run.longOut c
  | .writeback, 0 => none
  | .writeback, c + 1 => run.executedOn .writeback c

theorem arrived_eq (hc : c ≤ run.length) :
    (run.backend c).arrived
      = (run.arrivedOn .branch c).toList ++ (run.arrivedOn .mem c).toList
        ++ ((run.arrivedOn .long c).toList ++ (run.arrivedOn .writeback c).toList) := by
  unfold Backend.arrived
  cases c with
  | zero =>
    rw [run.start]
    simp [arrivedOn, run.start, Backend.create]
  | succ c =>
    rw [(run.fromExecute_eq (by omega)).1]
    rfl

theorem executedOn_iff {path : ExecutionPath} {x : PerfInstr w} :
    run.executedOn path c = some x ↔ run.executed c = some x ∧ x.path = path := by
  simp [executedOn, Option.filter_eq_some_iff]

theorem fromExecute_zero : (run.backend 0).fromExecute = {} := by
  rw [run.start]
  rfl

theorem arrivedOn_branch_iff (hc : c ≤ run.length) {y : PerfInstr w} :
    run.arrivedOn .branch c = some y
      ↔ ∃ e, e + 2 = c ∧ run.executedOn .branch e = some y ∧ run.Quiet e c := by
  rcases c with _ | _ | c
  · simp [arrivedOn, run.start, Backend.create]
  · rw [arrivedOn, run.fromBranch_eq (by omega), run.fromExecute_zero]
    simp
  · rw [arrivedOn, run.fromBranch_eq (by omega), (run.fromExecute_eq (by omega)).1]
    constructor
    · intro h
      split_ifs at h with hf
      refine ⟨c, rfl, h, fun v hv hv' => ?_⟩
      obtain rfl : v = c + 1 := by omega
      simpa using hf
    · rintro ⟨e, he, h, hq⟩
      obtain rfl : e = c := by omega
      rw [hq (e + 1) (by omega) (by omega)]
      exact h

theorem arrivedOn_mem_iff (hc : c ≤ run.length) {y : PerfInstr w} :
    run.arrivedOn .mem c = some y
      ↔ ∃ e x f, e + 2 = c ∧ run.executedOn .mem e = some x ∧ run.Quiet e c
        ∧ FuncMemory.loadStore (run.mem (e + 1)) x.toFuncInstr = .ok (f, run.memAfter (e + 1))
        ∧ y = x.withInstr f := by
  rcases c with _ | _ | c
  · simp [arrivedOn, run.start, Backend.create]
  · rw [arrivedOn]
    rcases run.fromMem_cases (c := 0) (by omega) with ⟨-, hm, -⟩ | ⟨x, f, -, hx, -⟩
    · rw [hm]
      simp
    · rw [run.fromExecute_zero] at hx
      cases hx
  · have hmem : (run.backend (c + 1)).fromExecute.mem = run.executedOn .mem c := by
      rw [(run.fromExecute_eq (by omega)).1]
    have hcases := run.fromMem_cases (c := c + 1) (by omega)
    rw [hmem] at hcases
    rw [arrivedOn]
    constructor
    · intro h
      rcases hcases with ⟨-, hm, -⟩ | ⟨x, f, hf, hx, hl, hm⟩
      · rw [hm] at h
        cases h
      · rw [hm] at h
        cases h
        refine ⟨c, x, f, rfl, hx, fun v hv hv' => ?_, hl, rfl⟩
        obtain rfl : v = c + 1 := by omega
        exact hf
    · rintro ⟨e, x, f, he, hx, hq, hl, rfl⟩
      obtain rfl : e = c := by omega
      rcases hcases with ⟨hf | hn, -, -⟩ | ⟨x', f', -, hx', hl', hm⟩
      · rw [hq (e + 1) (by omega) (by omega)] at hf
        cases hf
      · rw [hx] at hn
        cases hn
      · obtain rfl : x' = x := by rw [hx] at hx'; exact (Option.some.inj hx').symm
        obtain rfl : f' = f := by rw [hl] at hl'; simpa using hl'.symm
        rw [hm]

theorem result_iff {path : ExecutionPath} {e : ℕ} {x y : PerfInstr w} (hp : path ≠ .mem)
    (hx : run.executedOn path e = some x) : run.Result e x y ↔ y = x := by
  have hpath := (run.executedOn_iff.1 hx).2
  rw [Result, if_neg (by rw [hpath]; exact hp)]

/-- An instruction arrives on its path when its latency is over, if no flush came in between. -/
theorem arrivedOn_iff (hc : c ≤ run.length) {path : ExecutionPath} {y : PerfInstr w} :
    run.arrivedOn path c = some y
      ↔ ∃ e x, e + path.latency run.longAluLatency = c ∧ run.executedOn path e = some x
        ∧ run.Quiet e c ∧ run.Result e x y := by
  cases path with
  | branch =>
    rw [run.arrivedOn_branch_iff hc]
    constructor
    · rintro ⟨e, he, hx, hq⟩
      exact ⟨e, y, he, hx, hq, (run.result_iff (by decide) hx).2 rfl⟩
    · rintro ⟨e, x, he, hx, hq, hr⟩
      rw [(run.result_iff (by decide) hx).1 hr]
      exact ⟨e, he, hx, hq⟩
  | mem =>
    rw [run.arrivedOn_mem_iff hc]
    constructor
    · rintro ⟨e, x, f, he, hx, hq, hl, rfl⟩
      refine ⟨e, x, he, hx, hq, ?_⟩
      rw [Result, if_pos (run.executedOn_iff.1 hx).2]
      exact ⟨f, hl, rfl⟩
    · rintro ⟨e, x, he, hx, hq, hr⟩
      rw [Result, if_pos (run.executedOn_iff.1 hx).2] at hr
      obtain ⟨f, hl, rfl⟩ := hr
      exact ⟨e, x, f, he, hx, hq, hl, rfl⟩
  | long =>
    rcases c with _ | c
    · refine ⟨fun h => by simp [arrivedOn] at h, ?_⟩
      rintro ⟨e, x, he, -⟩
      have := run.latency_ge
      simp only [ExecutionPath.latency] at he
      omega
    · rw [arrivedOn, run.longOut_iff (by omega)]
      constructor
      · rintro ⟨e, he, hx, hq⟩
        exact ⟨e, y, he, hx, hq, (run.result_iff (by decide) hx).2 rfl⟩
      · rintro ⟨e, x, he, hx, hq, hr⟩
        rw [(run.result_iff (by decide) hx).1 hr]
        exact ⟨e, he, hx, hq⟩
  | writeback =>
    rcases c with _ | c
    · simp [arrivedOn, ExecutionPath.latency]
    · rw [arrivedOn]
      constructor
      · intro hx
        exact ⟨c, y, rfl, hx, fun v hv hv' => by omega, (run.result_iff (by decide) hx).2 rfl⟩
      · rintro ⟨e, x, he, hx, -, hr⟩
        obtain rfl : e = c := by simpa [ExecutionPath.latency] using he
        rw [(run.result_iff (by decide) hx).1 hr]
        exact hx

end Arrival

end BackendRun

end MiptMips
