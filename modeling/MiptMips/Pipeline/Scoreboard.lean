import MiptMips.Pipeline.InOrder

/-!
# The scoreboard

The entry of a register follows the youngest instruction in flight that writes it: where that
instruction is on its path, and, when it writes the register as its first destination, whether the
value can be bypassed from there. A register that nothing in flight writes has a blank entry.
-/

namespace MiptMips

open Machines

variable {w : ℕ}

section Stages

/-- Where an instruction is `k` cycles after it was executed. -/
def ExecutionPath.stageAt (path : ExecutionPath) (longAluLatency k : ℕ) : RegisterStage :=
  if k = path.latency longAluLatency then ⟨3, RegisterStage.wbStage⟩
  else if k = 0 then ⟨0, 0⟩
  else match path with
    | .mem => ⟨2, RegisterStage.memOrBranchStage⟩
    | .branch => ⟨4, RegisterStage.memOrBranchStage⟩
    | .long | .writeback => ⟨0, k⟩

namespace FuncInstr

variable (instr : FuncInstr w) (num : Register)

def writesFirst : Bool := !instr.dst0.isZero && instr.dst0.toRfIndex == num.toRfIndex

def writesSecond : Bool := !instr.dst1.isZero && instr.dst1.toRfIndex == num.toRfIndex

def writes : Bool := instr.writesFirst num || instr.writesSecond num

/-- The cycles from the execution of an instruction until its first result is known. -/
def readyAt (longAluLatency : ℕ) : ℕ :=
  match instr.path with
  | .long => longAluLatency - 1
  | .branch => 1
  | .mem => if instr.isLoad then 1 else 0
  | .writeback => 0

theorem readyAt_lt {longAluLatency : ℕ} (h : 2 ≤ longAluLatency) :
    instr.readyAt longAluLatency < instr.path.latency longAluLatency := by
  unfold readyAt
  cases instr.path with
  | long => simp only [ExecutionPath.latency]; omega
  | branch => simp [ExecutionPath.latency]
  | mem => split_ifs <;> simp [ExecutionPath.latency]
  | writeback => simp [ExecutionPath.latency]

end FuncInstr

section Carried

variable {x y : PerfInstr w}

theorem Carried.writesFirst (h : Carried x y) (num : Register) :
    y.writesFirst num = x.writesFirst num := by
  unfold FuncInstr.writesFirst
  rw [h.dst0]

theorem Carried.writesSecond (h : Carried x y) (num : Register) :
    y.writesSecond num = x.writesSecond num := by
  unfold FuncInstr.writesSecond
  rw [h.dst1]

theorem Carried.writes (h : Carried x y) (num : Register) : y.writes num = x.writes num := by
  unfold FuncInstr.writes
  rw [h.writesFirst, h.writesSecond]

end Carried

variable {longAluLatency k k' : ℕ} {path : ExecutionPath}

theorem ExecutionPath.stageAt_long (hk : 0 < k) (hlt : k < longAluLatency) :
    ExecutionPath.long.stageAt longAluLatency k = ⟨0, k⟩ := by
  rw [stageAt, if_neg (by simp only [latency]; omega), if_neg (by omega)]

theorem ExecutionPath.stageAt_zero (hge : 2 ≤ longAluLatency) :
    path.stageAt longAluLatency 0 = ⟨0, 0⟩ := by
  unfold stageAt
  rw [if_neg (path.latency_pos hge).ne, if_pos rfl]

/-- After the first cycle, an instruction moves on stage by stage. -/
theorem ExecutionPath.stageAt_succ (hlt : longAluLatency < 64) (hk : k < path.latency longAluLatency)
    (hpos : 0 < k) :
    (if (path.stageAt longAluLatency k).isSameStage (longAluLatency - 1)
        || (path.stageAt longAluLatency k).isMemOrBranchStage
      then (path.stageAt longAluLatency k).setToWriteback
      else (path.stageAt longAluLatency k).inc) = path.stageAt longAluLatency (k + 1) := by
  cases path with
  | writeback => simp only [latency] at hk; omega
  | mem =>
    obtain rfl : k = 1 := by simp only [latency] at hk; omega
    simp [stageAt, latency, RegisterStage.isMemOrBranchStage, RegisterStage.isSameStage,
      RegisterStage.setToWriteback, RegisterStage.setToStage]
  | branch =>
    obtain rfl : k = 1 := by simp only [latency] at hk; omega
    simp [stageAt, latency, RegisterStage.isMemOrBranchStage, RegisterStage.isSameStage,
      RegisterStage.setToWriteback, RegisterStage.setToStage]
  | long =>
    simp only [latency] at hk
    rw [stageAt_long hpos hk]
    by_cases hl : k + 1 = longAluLatency
    · have hk' : k = longAluLatency - 1 := by omega
      unfold stageAt
      rw [if_pos (by simp [RegisterStage.isSameStage, hk']), if_pos (show _ = latency _ _ from hl)]
      rfl
    · rw [stageAt_long (by omega) (by omega), if_neg]
      · rfl
      · simp [RegisterStage.isSameStage, RegisterStage.isMemOrBranchStage,
          RegisterStage.memOrBranchStage, RegisterStage.inRFStage]
        omega

/-- No two cycles of a path have the same place. -/
theorem ExecutionPath.sameStage_stageAt (hlt : longAluLatency < 64)
    (hk : k ≤ path.latency longAluLatency) (hk' : k' ≤ path.latency longAluLatency) :
    sameStage (path.stageAt longAluLatency k) (path.stageAt longAluLatency k') = decide (k = k') := by
  rw [Bool.eq_iff_iff, decide_eq_true_eq]
  unfold sameStage RegisterStage.isSameStage stageAt
  cases path <;> simp only [latency] at * <;> split_ifs
    <;> simp [RegisterStage.wbStage, RegisterStage.memOrBranchStage, RegisterStage.inRFStage]
    <;> omega

theorem ExecutionPath.isInRF_stageAt (hlt : longAluLatency < 64)
    (hk : k ≤ path.latency longAluLatency) : (path.stageAt longAluLatency k).isInRF = false := by
  unfold RegisterStage.isInRF RegisterStage.isSameStage stageAt
  cases path <;> simp only [latency] at * <;> split_ifs
    <;> simp [RegisterStage.wbStage, RegisterStage.memOrBranchStage, RegisterStage.inRFStage]
    <;> omega

end Stages

/-- The entry of a register whose youngest producer was executed `k` cycles ago. What is said of
bypassing holds when it is the first destination. -/
structure RegisterInfo.Tracks (entry : RegisterInfo) (longAluLatency : ℕ) (y : PerfInstr w)
    (first : Prop) (k : ℕ) : Prop where
  le : k ≤ y.path.latency longAluLatency
  isTraced : entry.isTraced = true
  currentStage : entry.currentStage = y.path.stageAt longAluLatency k
  next : entry.nextStageAfterFirstExecutionStage = y.path.stageAt longAluLatency 1
  ready : first → entry.readyStage.value = if y.isBypassible
    then (y.path.stageAt longAluLatency (y.readyAt longAluLatency)).value
    else RegisterStage.inRFStage
  isBypassible : first →
    entry.isBypassible = (y.isBypassible && decide (y.readyAt longAluLatency ≤ k))

namespace DataBypass

section Entries

variable {unit : DataBypass} {instr : PerfInstr w} {num num' : Register} {entry : RegisterInfo}

theorem getEntry_setEntry : (unit.setEntry num entry).getEntry num'
    = if num'.toRfIndex = num.toRfIndex then entry else unit.getEntry num' := rfl

theorem setNextStage_eq (hge : 2 ≤ unit.longAluLatency) :
    entry.setNextStageAfterFirstExecutionStage instr
      = { entry with
          nextStageAfterFirstExecutionStage := instr.path.stageAt unit.longAluLatency 1 } := by
  have hlong := ExecutionPath.stageAt_long Nat.one_pos hge
  unfold RegisterInfo.setNextStageAfterFirstExecutionStage FuncInstr.path
    PerfInstr.isLongArithmetic PerfInstr.isBranchStageRequired PerfInstr.isMemStageRequired
  split_ifs
  · rw [hlong]
    rfl
  · rfl
  · rfl
  · rfl

theorem value_readyStageOf (hge : 2 ≤ unit.longAluLatency) (stage : RegisterStage) :
    (unit.readyStageOf instr stage).value = if instr.isBypassible
      then (instr.path.stageAt unit.longAluLatency (instr.readyAt unit.longAluLatency)).value
      else RegisterStage.inRFStage := by
  have hlong : ExecutionPath.long.stageAt unit.longAluLatency (unit.longAluLatency - 1)
      = ⟨0, unit.longAluLatency - 1⟩ := ExecutionPath.stageAt_long (by omega) (by omega)
  unfold readyStageOf
  rcases instr.isBypassible with _ | _
  · rfl
  · simp only [if_true]
    unfold PerfInstr.isLongArithmetic FuncInstr.readyAt FuncInstr.path FuncInstr.isDivmult
      FuncInstr.isJump FuncInstr.isLoad FuncInstr.isStore FuncInstr.isExplicitTrap
      FuncInstr.isDirectJump FuncInstr.isBranch FuncInstr.isCommonBranch FuncInstr.isLikelyBranch
      FuncInstr.isIndirectJump FuncInstr.isUnsignedLoad FuncInstr.isSignedLoad
      FuncInstr.isPartialLoad FuncInstr.getAccumulationType
    cases instr.operation <;> first | rfl | exact (congrArg RegisterStage.value hlong).symm

theorem getEntry_traceNewDstRegister (hi : num'.toRfIndex = num.toRfIndex) :
    (unit.traceNewDstRegister instr num').getEntry num
      = (unit.traceNewDstRegister instr num).getEntry num := by
  unfold traceNewDstRegister setEntry getEntry
  rw [hi]

theorem getEntry_traceNewDst2Register (hi : num'.toRfIndex = num.toRfIndex) :
    (unit.traceNewDst2Register instr num').getEntry num
      = (unit.traceNewDst2Register instr num).getEntry num := by
  unfold traceNewDst2Register setEntry getEntry
  rw [hi]

theorem getEntry_first :
    (if instr.dst0.isZero then unit else unit.traceNewDstRegister instr instr.dst0).getEntry num
      = if instr.writesFirst num then (unit.traceNewDstRegister instr num).getEntry num
        else unit.getEntry num := by
  unfold FuncInstr.writesFirst
  rcases instr.dst0.isZero with _ | _
  · by_cases hi : instr.dst0.toRfIndex = num.toRfIndex
    · simpa [hi] using getEntry_traceNewDstRegister hi
    · simp [hi, traceNewDstRegister, getEntry_setEntry, Ne.symm hi]
  · simp

theorem getEntry_second :
    (if instr.dst1.isZero then unit else unit.traceNewDst2Register instr instr.dst1).getEntry num
      = if instr.writesSecond num then (unit.traceNewDst2Register instr num).getEntry num
        else unit.getEntry num := by
  unfold FuncInstr.writesSecond
  rcases instr.dst1.isZero with _ | _
  · by_cases hi : instr.dst1.toRfIndex = num.toRfIndex
    · simpa [hi] using getEntry_traceNewDst2Register hi
    · simp [hi, traceNewDst2Register, getEntry_setEntry, Ne.symm hi]
  · simp

/-- An instruction that does not write a register leaves its entry alone. -/
theorem getEntry_traceNewInstr_of_not_writes (h : instr.writes num = false) :
    (unit.traceNewInstr instr).getEntry num = unit.getEntry num := by
  obtain ⟨hf, hs⟩ := Bool.or_eq_false_iff.1 h
  unfold traceNewInstr
  dsimp only
  rw [getEntry_second, hs, if_neg Bool.false_ne_true, getEntry_first, hf,
    if_neg Bool.false_ne_true]
  rfl

theorem tracks_traceNewDstRegister (hge : 2 ≤ unit.longAluLatency)
    (hlt : unit.longAluLatency < 64) (first : Prop) :
    ((unit.traceNewDstRegister instr num).getEntry num).Tracks unit.longAluLatency instr first 0 := by
  have hzero : instr.path.stageAt unit.longAluLatency 0 = ⟨0, 0⟩ :=
    ExecutionPath.stageAt_zero hge
  unfold traceNewDstRegister
  dsimp only
  rw [setNextStage_eq hge, getEntry_setEntry, if_pos rfl]
  refine ⟨Nat.zero_le _, rfl, hzero.symm, rfl, fun _ => value_readyStageOf hge _, fun _ => ?_⟩
  have hvalue := @value_readyStageOf _ unit instr hge (unit.getEntry num).readyStage
  have hready := instr.toFuncInstr.readyAt_lt hge
  have hsame := @ExecutionPath.sameStage_stageAt _ _ _ instr.path hlt (Nat.zero_le _) hready.le
  dsimp only
  unfold sameStage at hsame ⊢
  rw [hvalue]
  rcases instr.isBypassible with _ | _
  · rfl
  · rw [hzero] at hsame
    simpa [eq_comm, RegisterStage.setToFirstExecutionStage, RegisterStage.setToStage] using hsame

theorem tracks_traceNewDst2Register (hge : 2 ≤ unit.longAluLatency) {first : Prop}
    (hfirst : ¬ first) :
    ((unit.traceNewDst2Register instr num).getEntry num).Tracks unit.longAluLatency instr first 0 := by
  unfold traceNewDst2Register
  dsimp only
  rw [setNextStage_eq hge, getEntry_setEntry, if_pos rfl]
  exact ⟨Nat.zero_le _, rfl, (ExecutionPath.stageAt_zero hge).symm, rfl,
    fun h => absurd h hfirst, fun h => absurd h hfirst⟩

/-- A new instruction is tracked from the start. -/
theorem tracks_traceNewInstr (hge : 2 ≤ unit.longAluLatency) (hlt : unit.longAluLatency < 64)
    (h : instr.writes num) : ((unit.traceNewInstr instr).getEntry num).Tracks unit.longAluLatency
      instr (instr.writesSecond num = false) 0 := by
  unfold traceNewInstr
  dsimp only
  rw [getEntry_second]
  rcases hs : instr.writesSecond num with _ | _
  · have hf : instr.writesFirst num = true := by simpa [FuncInstr.writes, hs] using h
    rw [if_neg Bool.false_ne_true, getEntry_first, hf, if_pos rfl]
    exact tracks_traceNewDstRegister hge hlt _
  · rw [if_pos rfl]
    generalize hu : (if instr.dst0.isZero then
      ({ unit with operationLatency := unit.getInstructionLatency instr } : DataBypass)
      else DataBypass.traceNewDstRegister _ instr instr.dst0) = unit'
    have hl : unit'.longAluLatency = unit.longAluLatency := by
      rw [← hu]
      split_ifs <;> rfl
    rw [← hl] at hge ⊢
    exact tracks_traceNewDst2Register hge (by decide)

theorem updateEntry_of_not_isTraced (h : entry.isTraced = false) : unit.updateEntry entry = entry := by
  simp [updateEntry, h]

variable {y : PerfInstr w} {first : Prop} {k : ℕ}

theorem isWriteback_stageAt (hlt : unit.longAluLatency < 64)
    (h : entry.Tracks unit.longAluLatency y first k) :
    entry.currentStage.isWriteback = decide (k = y.path.latency unit.longAluLatency) := by
  rw [h.currentStage, ← ExecutionPath.sameStage_stageAt hlt h.le le_rfl]
  unfold sameStage RegisterStage.isWriteback
  simp [ExecutionPath.stageAt]

theorem isFirstExecutionStage_stageAt (hge : 2 ≤ unit.longAluLatency)
    (hlt : unit.longAluLatency < 64) (h : entry.Tracks unit.longAluLatency y first k) :
    entry.currentStage.isFirstExecutionStage = decide (k = 0) := by
  rw [h.currentStage, ← ExecutionPath.sameStage_stageAt hlt h.le (Nat.zero_le _),
    ExecutionPath.stageAt_zero hge]
  rfl

/-- An entry is traced until it is blank. -/
theorem updateEntry_of_isTraced (h : entry.isTraced = true)
    (hu : (unit.updateEntry entry).isTraced = false) : unit.updateEntry entry = {} := by
  unfold updateEntry at hu ⊢
  rw [h] at hu ⊢
  simp only [Bool.not_true, Bool.false_eq_true, if_false] at hu ⊢
  split_ifs at hu ⊢
  rfl

/-- The entry is blank again when its instruction has been written back. -/
theorem updateEntry_last (hlt : unit.longAluLatency < 64)
    (h : entry.Tracks unit.longAluLatency y first k)
    (hk : k = y.path.latency unit.longAluLatency) : unit.updateEntry entry = {} := by
  unfold updateEntry
  rw [h.isTraced, isWriteback_stageAt hlt h]
  simp [hk]

/-- The entry follows its instruction. -/
theorem tracks_updateEntry (hge : 2 ≤ unit.longAluLatency) (hlt : unit.longAluLatency < 64)
    (h : entry.Tracks unit.longAluLatency y first k)
    (hk : k < y.path.latency unit.longAluLatency) :
    (unit.updateEntry entry).Tracks unit.longAluLatency y first (k + 1) := by
  have hstage : (if entry.currentStage.isFirstExecutionStage
      then entry.nextStageAfterFirstExecutionStage
      else if entry.currentStage.isSameStage (unit.longAluLatency - 1)
          || entry.currentStage.isMemOrBranchStage then entry.currentStage.setToWriteback
      else entry.currentStage.inc) = y.path.stageAt unit.longAluLatency (k + 1) := by
    rw [isFirstExecutionStage_stageAt hge hlt h]
    rcases Nat.eq_zero_or_pos k with rfl | hpos
    · simpa using h.next
    · rw [decide_eq_false hpos.ne', if_neg Bool.false_ne_true, h.currentStage]
      exact ExecutionPath.stageAt_succ hlt hk hpos
  unfold updateEntry
  rw [h.isTraced, isWriteback_stageAt hlt h, decide_eq_false hk.ne]
  simp only [Bool.not_true, Bool.false_eq_true, if_false]
  rw [hstage]
  refine ⟨hk, rfl, rfl, h.next, h.ready, fun hf => ?_⟩
  have hsame := ExecutionPath.sameStage_stageAt hlt (Nat.succ_le_of_lt hk)
    (y.toFuncInstr.readyAt_lt hge).le
  unfold sameStage at hsame ⊢
  rw [h.isBypassible hf, h.ready hf]
  rcases y.isBypassible with _ | _
  · simp only [Bool.false_and, Bool.false_eq_true, if_false, Bool.false_or]
    exact ExecutionPath.isInRF_stageAt hlt (Nat.succ_le_of_lt hk)
  · simp only [Bool.true_and, if_true, hsame]
    rw [← Bool.decide_or]
    exact decide_eq_decide.2 (by omega)

end Entries

end DataBypass

namespace CoreRun

variable {M K : Type} [FuncMemory M] (run : CoreRun w M K) {c d d' : ℕ} {x y y' : PerfInstr w}
  {num : Register}

/-- The instruction that was let go in cycle `d` is on its way in cycle `c`. -/
structure InFlight (c d : ℕ) (y : PerfInstr w) : Prop where
  sent : run.sent d = some y
  lt : d < c
  le : c ≤ d + 1 + y.path.latency run.longAluLatency
  quiet : ∀ v, d < v → v ≤ c → (run.core v).flush = false

/-- The last instruction on its way that writes the register. -/
structure Producer (c d : ℕ) (y : PerfInstr w) (num : Register) : Prop where
  inFlight : run.InFlight c d y
  writes : y.writes num
  last : ∀ d' y', run.InFlight c d' y' → d < d' → y'.writes num = false

variable {run}

theorem InFlight.alive (h : run.InFlight c d y) :
    run.schedule.Alive d (y.path.latency run.longAluLatency) c :=
  fun v hv hvc _ => h.quiet v hv hvc

theorem InFlight.started (h : run.InFlight c d y) :
    run.schedule.started d = some (y.path.latency run.longAluLatency) :=
  Option.map_eq_some_iff.2 ⟨y, h.sent, rfl⟩

/-- What is let go later is written back later. -/
theorem InFlight.lt_of_lt (hc : c ≤ run.length) (h : run.InFlight c d y)
    (h' : run.InFlight c d' y') (hlt : d < d') :
    d + 1 + y.path.latency run.longAluLatency < d' + 1 + y'.path.latency run.longAluLatency :=
  Schedule.doneAt_lt h.started h'.started hlt (Nat.lt_of_lt_of_le h'.lt hc)
    (h.alive.mono h'.lt.le)

theorem InFlight.of_succ (h : run.InFlight (c + 1) d y) (hd : d ≠ c) : run.InFlight c d y :=
  ⟨h.sent, by have := h.lt; omega, by have := h.le; omega, fun v hv hvc => h.quiet v hv (by omega)⟩

theorem InFlight.succ (h : run.InFlight c d y) (hf : (run.core (c + 1)).flush = false)
    (hlt : c < d + 1 + y.path.latency run.longAluLatency) : run.InFlight (c + 1) d y := by
  refine ⟨h.sent, Nat.lt_succ_of_lt h.lt, hlt, fun v hv hvc => ?_⟩
  rcases Nat.lt_or_eq_of_le hvc with hvc | rfl
  · exact h.quiet v hv (Nat.le_of_lt_succ hvc)
  · exact hf

theorem InFlight.flush_eq (h : run.InFlight c d y) : (run.core c).flush = false :=
  h.quiet c h.lt le_rfl

/-- The entry of a register. -/
structure Scored (run : CoreRun w M K) (c : ℕ) (num : Register) : Prop where
  untraced : ((run.unit c).getEntry num).isTraced = false → (run.unit c).getEntry num = {}
  idle : (∀ d y, run.InFlight c d y → y.writes num = false) → (run.unit c).getEntry num = {}
  busy : ∀ d y, run.Producer c d y num → ((run.unit c).getEntry num).Tracks run.longAluLatency y
    (y.writesSecond num = false) (c - d - 1)

theorem getEntry_handleFlush (unit : DataBypass) (num : Register) :
    unit.handleFlush.getEntry num
      = if (unit.getEntry num).isTraced then {} else unit.getEntry num := rfl

theorem getEntry_update (unit : DataBypass) (num : Register) :
    unit.update.getEntry num = unit.updateEntry (unit.getEntry num) := rfl

/-- The entry of a register when the unit has been told what was let go in a cycle. -/
def entryAfter (run : CoreRun w M K) (c : ℕ) (num : Register) : RegisterInfo :=
  match run.sent c with
  | some x => ((run.unit c).update.traceNewInstr x).getEntry num
  | none => (run.unit c).update.getEntry num

theorem getEntry_unit_succ (hc : c < run.length) (num : Register) :
    (run.unit (c + 1)).getEntry num
      = if (run.core (c + 1)).flush ∧ (run.entryAfter c num).isTraced then {}
        else run.entryAfter c num := by
  rw [CoreRun.unit, (run.decode_cases hc).1, Decode.clockUnit, run.flushes_decodeIn hc,
    run.notify_decodeIn hc, entryAfter]
  rcases run.sent c with _ | x <;> rcases (run.core (c + 1)).flush with _ | _
    <;> simp [getEntry_handleFlush]

theorem entryAfter_of_writes (hc : c ≤ run.length) (h : run.sent c = some x) (hw : x.writes num) :
    (run.entryAfter c num).Tracks run.longAluLatency x (x.writesSecond num = false) 0 := by
  have hl : (run.unit c).update.longAluLatency = run.longAluLatency := (run.constants_unit hc).1
  have hge := run.latency_ge
  have hlt := run.latency_lt
  rw [entryAfter, h]
  rw [← hl] at hge hlt ⊢
  exact DataBypass.tracks_traceNewInstr hge hlt hw

theorem entryAfter_of_not_writes (h : ∀ x, run.sent c = some x → x.writes num = false) :
    run.entryAfter c num = (run.unit c).updateEntry ((run.unit c).getEntry num) := by
  unfold entryAfter
  rcases hs : run.sent c with _ | x
  · exact getEntry_update _ _
  · exact (DataBypass.getEntry_traceNewInstr_of_not_writes (h x hs)).trans (getEntry_update _ _)

theorem InFlight.self_succ (h : run.sent c = some x) (hf : (run.core (c + 1)).flush = false) :
    run.InFlight (c + 1) c x := by
  refine ⟨h, Nat.lt_succ_self c, by omega, fun v hv hvc => ?_⟩
  obtain rfl : v = c + 1 := by omega
  exact hf

/-- The entry of a register whose only producer is written back in this cycle is blank in the next
one. -/
theorem Scored.blank (hc : c ≤ run.length) (h : run.Scored c num)
    (hs : ∀ x, run.sent c = some x → x.writes num = false)
    (hn : ∀ d y, run.InFlight c d y → y.writes num →
      c = d + 1 + y.path.latency run.longAluLatency) : run.entryAfter c num = {} := by
  rw [entryAfter_of_not_writes hs]
  by_cases hi : ∀ d y, run.InFlight c d y → y.writes num = false
  · rw [h.idle hi]
    rfl
  · obtain ⟨d, y, hy, hw⟩ : ∃ d y, run.InFlight c d y ∧ y.writes num = true := by simpa using hi
    have hend := hn d y hy hw
    have htracks := h.busy d y ⟨hy, hw, fun d' y' hy' hlt => ?_⟩
    · have hlt := run.latency_lt
      rw [← (run.constants_unit hc).1] at htracks hend hlt
      exact DataBypass.updateEntry_last hlt htracks (by omega)
    · rcases hw' : y'.writes num with _ | _
      · rfl
      · have := hn d' y' hy' hw'
        have := hy.lt_of_lt hc hy' hlt
        omega

theorem Scored.untraced_entryAfter (hc : c ≤ run.length) (h : run.Scored c num)
    (hu : (run.entryAfter c num).isTraced = false) : run.entryAfter c num = {} := by
  by_cases hs : ∀ x, run.sent c = some x → x.writes num = false
  · rw [entryAfter_of_not_writes hs] at hu ⊢
    rcases ht : ((run.unit c).getEntry num).isTraced with _ | _
    · rw [DataBypass.updateEntry_of_not_isTraced ht, h.untraced ht]
    · exact DataBypass.updateEntry_of_isTraced ht hu
  · obtain ⟨x, hx, hw⟩ : ∃ x, run.sent c = some x ∧ x.writes num = true := by simpa using hs
    rw [(entryAfter_of_writes hc hx hw).isTraced] at hu
    cases hu

theorem scored_zero (num : Register) : run.Scored 0 num := by
  have he : (run.unit 0).getEntry num = {} := by
    simp only [CoreRun.unit, Decode.clockUnit, Core.decodeIn, run.start.decode, run.start.backend,
      run.start.fromDecode, run.start.fromWriteback]
    rfl
  exact ⟨fun _ => he, fun _ => he, fun d y h => absurd h.inFlight.lt (Nat.not_lt_zero d)⟩

theorem Producer.of_succ (hc : c < run.length) (h : run.Producer (c + 1) d y num) (hd : d ≠ c) :
    run.Producer c d y num := by
  have hy := h.inFlight.of_succ hd
  refine ⟨hy, h.writes, fun d' y' hy' hlt => ?_⟩
  have hord := hy.lt_of_lt hc.le hy' hlt
  have hle := h.inFlight.le
  exact h.last d' y' (hy'.succ h.inFlight.flush_eq (by omega)) hlt

theorem Scored.succ (hc : c < run.length) (h : run.Scored c num) : run.Scored (c + 1) num := by
  have hnext := getEntry_unit_succ hc num
  refine ⟨fun hu => ?_, fun hi => ?_, fun d y hp => ?_⟩
  · rw [hnext] at hu ⊢
    split_ifs at hu ⊢ with hf
    · rfl
    · exact h.untraced_entryAfter hc.le hu
  · rw [hnext]
    rcases hf : (run.core (c + 1)).flush with _ | _
    · rw [if_neg (by simp)]
      refine h.blank hc.le (fun x hx => hi c x (.self_succ hx hf)) fun d y hy hw => ?_
      by_contra hne
      have := hi d y (hy.succ hf (by have := hy.le; omega))
      rw [hw] at this
      cases this
    · rcases hu : (run.entryAfter c num).isTraced with _ | _
      · simpa using h.untraced_entryAfter hc.le hu
      · simp
  · rw [hnext, if_neg (by simp [hp.inFlight.flush_eq])]
    by_cases hd : d = c
    · subst hd
      simpa using entryAfter_of_writes hc.le hp.inFlight.sent hp.writes
    · have hdc : d < c := by have := hp.inFlight.lt; omega
      have htracks := h.busy d y (hp.of_succ hc hd)
      have hle := hp.inFlight.le
      have hge := run.latency_ge
      have hlt := run.latency_lt
      rw [entryAfter_of_not_writes fun x hx =>
        hp.last c x (.self_succ hx hp.inFlight.flush_eq) hdc]
      rw [← (run.constants_unit hc.le).1] at htracks hle hge hlt ⊢
      rw [show c + 1 - d - 1 = c - d - 1 + 1 by omega]
      exact DataBypass.tracks_updateEntry hge hlt htracks (by omega)

theorem scored : ∀ {c}, c ≤ run.length → ∀ num, run.Scored c num
  | 0, _, num => scored_zero num
  | c + 1, hc, num => (scored (c := c) (by omega) num).succ hc

end CoreRun

end MiptMips
