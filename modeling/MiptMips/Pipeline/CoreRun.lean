import MiptMips.Lib.Schedule
import MiptMips.Modules.PerfSim
import MiptMips.Pipeline.Stages

/-!
# Runs of the core

A run of all modules but Fetch, with arbitrary instructions coming from there. What Decode lets go
in a cycle is executed in the next one; the bypassing unit's countdown makes the instructions that
are let go a schedule of the one port to the register file.
-/

namespace MiptMips

open Machines

variable {w : ℕ} {M K : Type}

section Decode

namespace Decode

variable {unit unit' : DataBypass} {rf : RF w} {input : DecodeIn w} {out : DecodeOut w}

/-- Decode lets an instruction go: the instruction it looked at, and the same one with the sources
that were in the register file. -/
structure LetsGo (unit : DataBypass) (rf : RF w) (input : DecodeIn w) (out : DecodeOut w)
    (instr read : PerfInstr w) : Prop where
  noFlush : hasFlush input = false
  readInstr : readInstr input = some instr
  noStall : unit.isStall instr = false
  sources : ∃ first, readSource unit rf instr 0 = .ok first ∧ readSource unit rf first 1 = .ok read
  out : out = { handleMisprediction unit input instr with
    commands := command unit instr
    bypassingUnitNotify := some read
    datapath := some read }

/-- Decode holds an instruction back. -/
structure HoldsBack (unit : DataBypass) (input : DecodeIn w) (out : DecodeOut w)
    (instr : PerfInstr w) : Prop where
  noFlush : hasFlush input = false
  readInstr : readInstr input = some instr
  isStall : unit.isStall instr = true
  out : out = { handleMisprediction unit input instr with
    stall := true
    stallDatapath := some instr }

/-- All that a cycle of Decode does. -/
theorem clock_cases (h : clock unit rf input = .ok (out, unit')) :
    unit' = clockUnit unit input
      ∧ (((hasFlush input = true ∨ Decode.readInstr input = none) ∧ out = {})
        ∨ (∃ instr, HoldsBack unit' input out instr)
        ∨ ∃ instr read, LetsGo unit' rf input out instr read) := by
  unfold clock at h
  dsimp only at h
  split_ifs at h with hf
  · cases h
    exact ⟨rfl, .inl ⟨.inl hf, rfl⟩⟩
  · simp only [Bool.not_eq_true] at hf
    rcases hr : Decode.readInstr input with _ | instr
    · rw [hr] at h
      cases h
      exact ⟨rfl, .inl ⟨.inr rfl, rfl⟩⟩
    · rw [hr] at h
      dsimp only at h
      split_ifs at h with hs
      · cases h
        exact ⟨rfl, .inr (.inl ⟨instr, hf, hr, hs, rfl⟩)⟩
      · simp only [Bool.not_eq_true] at hs
        obtain ⟨first, h₀, h⟩ := bind_eq_ok.1 h
        obtain ⟨read, h₁, h⟩ := bind_eq_ok.1 h
        cases h
        exact ⟨rfl, .inr (.inr ⟨instr, read, hf, hr, hs, ⟨first, h₀, h₁⟩, rfl⟩)⟩

theorem carried_readSource {x y : PerfInstr w} {index : Fin 2}
    (h : readSource unit rf x index = .ok y) : Carried x y := by
  unfold readSource at h
  split_ifs at h
  · obtain ⟨value, -, h⟩ := bind_eq_ok.1 h
    cases h
    exact .setVSrc x value index
  · cases h
    exact .refl x

theorem LetsGo.carried {instr read : PerfInstr w} (h : LetsGo unit rf input out instr read) :
    Carried instr read := by
  obtain ⟨first, h₀, h₁⟩ := h.sources
  exact (carried_readSource h₀).trans (carried_readSource h₁)

end Decode

end Decode

section Core

/-- All ports and pipeline registers are empty; the registers and the memory are arbitrary. -/
structure Core.AtStart (longAluLatency : ℕ) (core : Core w M K) : Prop where
  decode : core.decode = { longAluLatency }
  backend : core.backend = .create w longAluLatency
  fromDecode : core.fromDecode = {}
  fromWriteback : core.fromWriteback = {}

theorem Core.atStart_create (isa : ISA w) (longAluLatency : ℕ) (mem : M) (kernelState : K) :
    (Core.create isa longAluLatency mem kernelState).AtStart longAluLatency := ⟨rfl, rfl, rfl, rfl⟩

theorem Core.AtStart.setTarget {longAluLatency : ℕ} {core : Core w M K}
    (h : core.AtStart longAluLatency) (value : Target) :
    (core.setTarget value).AtStart longAluLatency :=
  ⟨h.decode, h.backend, h.fromDecode, h.fromWriteback⟩

variable [FuncMemory M] {core core' : Core w M K} {kernel : Kernel w M K} {isa : ISA w}
  {fetched : Option (PerfInstr w)}

/-- What a cycle of the core consists of. -/
structure Core.ClockOf (kernel : Kernel w M K) (isa : ISA w) (fetched : Option (PerfInstr w))
    (core core' : Core w M K) where
  mem : M
  wb : WritebackState w M K
  decode : Decode.clock core.decode core.rf (core.decodeIn fetched)
    = .ok (core'.fromDecode, core'.decode)
  backend : core.backend.clock core.flush core.fromDecode.datapath core.fromDecode.commands
    core.fromWriteback.bypass core.mem = .ok (core'.backend, mem)
  writeback : WritebackState.clock { unit := core.writeback, rf := core.rf, mem
                                     kernelState := core.kernelState, out := core.pending }
    kernel isa core.fromWriteback.trap core.backend.arrived core.currCycle = .ok wb
  currCycle : core'.currCycle = core.currCycle + 1
  rf : core'.rf = wb.rf
  mem_eq : core'.mem = wb.mem
  kernelState : core'.kernelState = wb.kernelState
  unit : core'.writeback = wb.unit
  fromWriteback : core'.fromWriteback = wb.out
  pending : core'.pending = {}

theorem Core.clock_cases (h : core.clock kernel isa fetched = .ok core') :
    Nonempty (Core.ClockOf kernel isa fetched core core') := by
  unfold Core.clock at h
  obtain ⟨⟨fromDecode, decode⟩, hd, h⟩ := bind_eq_ok.1 h
  obtain ⟨⟨backend, mem⟩, hb, h⟩ := bind_eq_ok.1 h
  obtain ⟨wb, hw, h⟩ := bind_eq_ok.1 h
  cases h
  exact ⟨⟨mem, wb, hd, hb, hw, rfl, rfl, rfl, rfl, rfl, rfl, rfl⟩⟩

end Core

/-- A run of the core. -/
structure CoreRun (w : ℕ) (M K : Type) [FuncMemory M] where
  kernel : Kernel w M K
  isa : ISA w
  longAluLatency : ℕ
  length : ℕ
  core : ℕ → Core w M K
  fetched : ℕ → Option (PerfInstr w)
  latency_ge : 2 ≤ longAluLatency
  latency_lt : longAluLatency < 64
  start : (core 0).AtStart longAluLatency
  step : ∀ c < length, (core c).clock kernel isa (fetched c) = .ok (core (c + 1))

section Trajectory

variable [FuncMemory M] (kernel : Kernel w M K) (isa : ISA w)
  (fetched : ℕ → Option (PerfInstr w)) (start : Core w M K)

/-- The states of the core, up to the first cycle that throws. -/
def Core.trajectory : ℕ → Core w M K
  | 0 => start
  | c + 1 =>
    match (Core.trajectory c).clock kernel isa (fetched c) with
    | .ok core => core
    | .error _ => Core.trajectory c

/-- The run from a state, as long as nothing throws. -/
def CoreRun.ofStart (longAluLatency length : ℕ) (hge : 2 ≤ longAluLatency)
    (hlt : longAluLatency < 64) (hstart : start.AtStart longAluLatency)
    (hok : ∀ c < length,
      ((start.trajectory kernel isa fetched c).clock kernel isa (fetched c)).isOk) :
    CoreRun w M K where
  kernel := kernel
  isa := isa
  longAluLatency := longAluLatency
  length := length
  core := start.trajectory kernel isa fetched
  fetched := fetched
  latency_ge := hge
  latency_lt := hlt
  start := hstart
  step c hc := by
    have hok := hok c hc
    rw [Core.trajectory]
    rcases h : (start.trajectory kernel isa fetched c).clock kernel isa (fetched c) with e | core
    · rw [h] at hok
      cases hok
    · rfl

/-- Three is a latency that a run can have. -/
theorem CoreRun.latency_three_ge : 2 ≤ 3 := by decide

theorem CoreRun.latency_three_lt : 3 < 64 := by decide

end Trajectory

namespace CoreRun

variable [FuncMemory M] (run : CoreRun w M K) {c : ℕ}

/-- The instruction that Decode lets go in a cycle. -/
def sent (c : ℕ) : Option (PerfInstr w) := (run.core (c + 1)).fromDecode.datapath

/-- The bypassing unit as Decode finds it in a cycle. -/
def unit (c : ℕ) : DataBypass :=
  Decode.clockUnit (run.core c).decode ((run.core c).decodeIn (run.fetched c))

/-- The memory when Mem is done with a cycle. -/
def memAfter (c : ℕ) : M :=
  match (run.core c).backend.clock (run.core c).flush (run.core c).fromDecode.datapath
    (run.core c).fromDecode.commands (run.core c).fromWriteback.bypass (run.core c).mem with
  | .ok (_, mem) => mem
  | .error _ => (run.core c).mem

def toBackendRun : BackendRun w M where
  longAluLatency := run.longAluLatency
  length := run.length
  backend c := (run.core c).backend
  flush c := (run.core c).flush
  datapath c := (run.core c).fromDecode.datapath
  commands c := (run.core c).fromDecode.commands
  fromWriteback c := (run.core c).fromWriteback.bypass
  mem c := (run.core c).mem
  memAfter := run.memAfter
  latency_ge := run.latency_ge
  start := run.start.backend
  step c hc := by
    obtain ⟨h⟩ := Core.clock_cases (run.step c hc)
    unfold memAfter
    rw [h.backend]

section Decode

variable {x : PerfInstr w}

/-- The three things that Decode can do in a cycle. -/
theorem decode_cases (hc : c < run.length) :
    (run.core (c + 1)).decode = run.unit c
      ∧ (((Decode.hasFlush ((run.core c).decodeIn (run.fetched c)) = true
            ∨ Decode.readInstr ((run.core c).decodeIn (run.fetched c)) = none)
          ∧ (run.core (c + 1)).fromDecode = {})
        ∨ (∃ instr, Decode.HoldsBack (run.unit c) ((run.core c).decodeIn (run.fetched c))
            (run.core (c + 1)).fromDecode instr)
        ∨ ∃ instr read, Decode.LetsGo (run.unit c) (run.core c).rf
            ((run.core c).decodeIn (run.fetched c)) (run.core (c + 1)).fromDecode instr read) := by
  obtain ⟨h⟩ := Core.clock_cases (run.step c hc)
  obtain ⟨hu, hcases⟩ := Decode.clock_cases h.decode
  rw [hu] at hcases
  exact ⟨hu, hcases⟩

@[simp]
theorem datapath_handleMisprediction (unit : DataBypass) (input : DecodeIn w)
    (instr : PerfInstr w) : (Decode.handleMisprediction unit input instr).datapath = none := by
  unfold Decode.handleMisprediction
  split_ifs <;> rfl

@[simp]
theorem bypassingUnitNotify_handleMisprediction (unit : DataBypass) (input : DecodeIn w)
    (instr : PerfInstr w) :
    (Decode.handleMisprediction unit input instr).bypassingUnitNotify = none := by
  unfold Decode.handleMisprediction
  split_ifs <;> rfl

theorem letsGo (hc : c < run.length) (h : run.sent c = some x) :
    ∃ instr, Decode.LetsGo (run.unit c) (run.core c).rf ((run.core c).decodeIn (run.fetched c))
      (run.core (c + 1)).fromDecode instr x := by
  unfold sent at h
  rcases (run.decode_cases hc).2 with ⟨-, ho⟩ | ⟨instr, hh⟩ | ⟨instr, read, hg⟩
  · rw [ho] at h
    cases h
  · rw [hh.out] at h
    simp at h
  · have hr := hg.out
    rw [hr] at h
    cases h
    exact ⟨instr, hg⟩

/-- The bypassing unit is told about an instruction when it is let go. -/
theorem bypassingUnitNotify_eq : ∀ {c}, c ≤ run.length →
    (run.core c).fromDecode.bypassingUnitNotify = (run.core c).fromDecode.datapath
  | 0, _ => by rw [run.start.fromDecode]
  | c + 1, hc => by
    rcases (run.decode_cases (by omega : c < run.length)).2 with ⟨-, ho⟩ | ⟨_, hh⟩ | ⟨_, _, hg⟩
    · rw [ho]
    · rw [hh.out]
      simp
    · rw [hg.out]

/-- Nothing is let go when a flush is seen. -/
theorem flush_of_sent (hc : c < run.length) (h : run.sent c = some x) :
    (run.core c).flush = false := by
  obtain ⟨instr, hg⟩ := run.letsGo hc h
  have := hg.noFlush
  simp only [Decode.hasFlush, Core.decodeIn, Bool.or_eq_false_iff] at this
  simp [Core.flush, this]

end Decode

section Unit

/-- The bypassing unit is told about a misprediction when the stages are. -/
theorem bypassingUnitFlushNotify_eq : ∀ {c}, c ≤ run.length →
    (run.core c).backend.fromBranch.bypassingUnitFlushNotify
      = (run.core c).backend.fromBranch.flushAll
  | 0, _ => by rw [run.start.backend]; rfl
  | c + 1, hc => by
    obtain ⟨-, -, hb⟩ := run.toBackendRun.cycle (c := c) hc
    rw [show (run.core (c + 1)).backend.fromBranch = _ from hb]
    unfold Branch.clock
    split
    · rfl
    · split_ifs <;> rfl

/-- What the unit is told in a cycle. -/
theorem flushes_decodeIn (hc : c < run.length) :
    (((run.core (c + 1)).decodeIn (run.fetched (c + 1))).bypassingUnitFlushNotify
        || ((run.core (c + 1)).decodeIn (run.fetched (c + 1))).trap)
      = (run.core (c + 1)).flush := by
  simp only [Core.decodeIn, run.bypassingUnitFlushNotify_eq hc]
  rfl

theorem notify_decodeIn (hc : c < run.length) :
    ((run.core (c + 1)).decodeIn (run.fetched (c + 1))).bypassingUnitNotify = run.sent c :=
  run.bypassingUnitNotify_eq hc

variable {unit : DataBypass} {input : DecodeIn w} (instr : PerfInstr w)

@[simp]
theorem longAluLatency_traceNewInstr :
    (unit.traceNewInstr instr).longAluLatency = unit.longAluLatency := by
  unfold DataBypass.traceNewInstr
  dsimp only
  split_ifs <;> rfl

@[simp]
theorem writebackBandwidth_traceNewInstr :
    (unit.traceNewInstr instr).writebackBandwidth = unit.writebackBandwidth := by
  unfold DataBypass.traceNewInstr
  dsimp only
  split_ifs <;> rfl

@[simp]
theorem operationLatency_traceNewInstr :
    (unit.traceNewInstr instr).operationLatency = unit.getInstructionLatency instr := by
  unfold DataBypass.traceNewInstr
  dsimp only
  split_ifs <;> rfl

theorem operationLatency_clockUnit :
    (Decode.clockUnit unit input).operationLatency
      = if input.bypassingUnitFlushNotify || input.trap then 0
        else match input.bypassingUnitNotify with
          | some instr => unit.update.getInstructionLatency instr
          | none => unit.operationLatency - 1 := by
  unfold Decode.clockUnit
  rcases input.bypassingUnitNotify with _ | instr
  · dsimp only
    split_ifs <;> rfl
  · dsimp only
    split_ifs
    · rfl
    · exact operationLatency_traceNewInstr instr

theorem constants_clockUnit :
    (Decode.clockUnit unit input).longAluLatency = unit.longAluLatency
      ∧ (Decode.clockUnit unit input).writebackBandwidth = unit.writebackBandwidth := by
  unfold Decode.clockUnit
  rcases input.bypassingUnitNotify with _ | instr
  · dsimp only
    split_ifs <;> exact ⟨rfl, rfl⟩
  · dsimp only
    split_ifs <;> simp [DataBypass.handleFlush, DataBypass.update]

theorem constants_decode : ∀ {c}, c ≤ run.length →
    (run.core c).decode.longAluLatency = run.longAluLatency
      ∧ (run.core c).decode.writebackBandwidth = 1
  | 0, _ => by rw [run.start.decode]; exact ⟨rfl, rfl⟩
  | c + 1, hc => by
    obtain ⟨hl, hw⟩ := constants_decode (c := c) (by omega)
    rw [(run.decode_cases hc).1, unit, constants_clockUnit.1, constants_clockUnit.2]
    exact ⟨hl, hw⟩

theorem constants_unit (hc : c ≤ run.length) :
    (run.unit c).longAluLatency = run.longAluLatency ∧ (run.unit c).writebackBandwidth = 1 := by
  obtain ⟨hl, hw⟩ := run.constants_decode hc
  rw [unit, constants_clockUnit.1, constants_clockUnit.2]
  exact ⟨hl, hw⟩

/-- The countdown of the unit, from one cycle to the next. -/
theorem operationLatency_succ (hc : c < run.length) :
    (run.unit (c + 1)).operationLatency
      = if (run.core (c + 1)).flush then 0
        else match run.sent c with
          | some x => x.path.latency run.longAluLatency
          | none => (run.unit c).operationLatency - 1 := by
  have hl := (run.constants_unit (c := c) hc.le).1
  rw [unit, (run.decode_cases hc).1, operationLatency_clockUnit, run.flushes_decodeIn hc,
    run.notify_decodeIn hc]
  rcases run.sent c with _ | x
  · rfl
  · simp [getInstructionLatency_eq, DataBypass.update, hl]

end Unit

/-- The instructions that are let go, as jobs of the port to the register file. -/
def schedule : Schedule where
  length := run.length
  started c := (run.sent c).map fun x => x.path.latency run.longAluLatency
  flush c := (run.core c).flush
  left c := (run.unit c).operationLatency
  pos {d l} hd h := by
    obtain ⟨x, -, rfl⟩ := Option.map_eq_some_iff.1 h
    exact ExecutionPath.latency_pos run.latency_ge _
  flushed hc hf := by rw [run.operationLatency_succ hc, if_pos hf]
  restarted hc hf h := by
    obtain ⟨x, hx, rfl⟩ := Option.map_eq_some_iff.1 h
    rw [run.operationLatency_succ hc, hx]
    simp [hf]
  counted hc hf h := by
    rw [run.operationLatency_succ hc, Option.map_eq_none_iff.1 h]
    simp [hf]
  admitted {c l} hc h := by
    obtain ⟨x, hx, rfl⟩ := Option.map_eq_some_iff.1 h
    obtain ⟨instr, hg⟩ := run.letsGo hc hx
    obtain ⟨hl, hw⟩ := run.constants_unit hc.le
    have hs := hg.noStall
    simp only [DataBypass.isStall, getInstructionLatency_eq, hl, hw, Bool.or_eq_false_iff,
      Bool.and_eq_false_imp, decide_eq_true_eq, decide_eq_false_iff_not, ← hg.carried.path] at hs
    omega

end CoreRun

end MiptMips
