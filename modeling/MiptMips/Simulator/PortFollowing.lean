import MiptMips.Pipeline.RunLimit
import MiptMips.Simulator.PortRefinement
import MiptMips.Simulator.Refinement

/-!
# The simulator with its ports follows the functional one

What the pipeline does under a limit of instructions is what it does without, so its states on
the ports are those of a run that refines the functional simulator: after any number of cycles its
registers are those of the functional simulator after as many instructions as it has counted.
-/

namespace MiptMips

open Machines

variable {w : ℕ} {E M K : Type} [BPEntry E] [FuncMemory M]

section Limited

namespace PerfRun

variable (run : PerfRun w E M K) (n : ℕ)

theorem atStart_beginRun : ((run.sim 0).beginRun n).core.AtStart run.longAluLatency :=
  ⟨run.start.decode, run.start.backend, run.start.fromDecode, run.start.fromWriteback⟩

/-- A cycle is the same whatever limits the run. -/
theorem clock_unlimited {sim sim' next : PerfSim w E M K} (hsim : sim'.unlimited = sim.unlimited)
    (h : sim.clock run.kernel run.isa = .ok next) :
    ∃ next', sim'.clock run.kernel run.isa = .ok next' ∧ next'.unlimited = next.unlimited := by
  obtain ⟨next', hn, hu⟩ := PerfSim.clockRetired_unlimited (o := sim.retired) hsim
    (bind_eq_ok.2 ⟨next, h, rfl⟩)
  obtain ⟨next'', hn', heq⟩ := bind_eq_ok.1 hn
  obtain ⟨-, rfl⟩ := Prod.mk.inj (Except.ok.inj heq)
  exact ⟨next'', hn', hu⟩

theorem unlimited_trajectory : ∀ {c}, c ≤ run.length →
    (((run.sim 0).beginRun n).trajectory run.kernel run.isa c).unlimited = (run.sim c).unlimited
  | 0, _ => rfl
  | c + 1, hc => by
    obtain ⟨next, hn, hu⟩ := run.clock_unlimited (unlimited_trajectory (Nat.le_of_succ_le hc))
      (run.step c hc)
    rw [PerfSim.trajectory, hn]
    exact hu

theorem isOk_trajectory : ∀ c < run.length, ((((run.sim 0).beginRun n).trajectory run.kernel
    run.isa c).clock run.kernel run.isa).isOk := by
  intro c hc
  obtain ⟨next, hn, -⟩ := run.clock_unlimited (run.unlimited_trajectory n hc.le) (run.step c hc)
  rw [hn]
  rfl

/-- The run with a limit of instructions. -/
def limited : PerfRun w E M K :=
  .ofStart run.kernel run.isa ((run.sim 0).beginRun n) run.longAluLatency run.length run.latency_ge
    run.latency_lt (run.atStart_beginRun n) run.fetch (run.isOk_trajectory n)

variable {n}

theorem unlimited_limited {c : ℕ} (hc : c ≤ run.length) :
    ((run.limited n).sim c).unlimited = (run.sim c).unlimited := run.unlimited_trajectory n hc

theorem core_limited {c : ℕ} (hc : c ≤ run.length) :
    ((run.limited n).sim c).core.rf = (run.sim c).core.rf
      ∧ ((run.limited n).sim c).core.mem = (run.sim c).core.mem
      ∧ ((run.limited n).sim c).core.writeback.executedInstrs
        = (run.sim c).core.writeback.executedInstrs := by
  have h := run.unlimited_limited (n := n) hc
  have hrf := congrArg (fun s : PerfSim w E M K => s.core.rf) h
  have hmem := congrArg (fun s : PerfSim w E M K => s.core.mem) h
  have hexecuted := congrArg (fun s : PerfSim w E M K => s.core.writeback.executedInstrs) h
  exact ⟨hrf, hmem, hexecuted⟩

end PerfRun

end Limited

section Counts

variable {run : PerfRun w E M K} {c d n : ℕ}

theorem ExecutionPath.latency_le {longAluLatency : ℕ} (h : 2 ≤ longAluLatency)
    (path : ExecutionPath) : path.latency longAluLatency ≤ longAluLatency := by
  cases path <;> simp [latency] <;> omega

/-- An instruction is pending for no longer than the latency of a long one. -/
theorem PerfRun.length_pending_le (run : PerfRun w E M K) (c : ℕ) :
    (run.toCoreRun.pending c).length ≤ run.longAluLatency + 1 := by
  have hold : ∀ d ∈ List.range (c - (run.longAluLatency + 1)),
      run.toCoreRun.pendingOf c d = none := by
    intro d hd
    refine CoreRun.pendingOf_eq_none_iff.2 fun y _ => ?_
    have hlatency := y.path.latency_le run.latency_ge
    have hlt := List.mem_range.1 hd
    show d + 1 + y.path.latency run.longAluLatency < c
    omega
  have hsplit : c = c - (run.longAluLatency + 1) + min c (run.longAluLatency + 1) := by omega
  have hrange := congrArg List.range hsplit
  rw [List.range_add] at hrange
  unfold CoreRun.pending
  rw [hrange, List.filterMap_append, List.filterMap_eq_nil_iff.2 hold, List.nil_append]
  refine (List.length_filterMap_le _ _).trans ?_
  rw [List.length_map, List.length_range]
  exact min_le_right _ _

/-- What has been written back is counted. -/
theorem PerfRun.executedInstrs_eq (hpending : (run.sim 0).core.pending.halt = none)
    (hzero : (run.sim 0).core.writeback.executedInstrs = 0) :
    ∀ {c}, c ≤ run.length →
      (run.sim c).core.writeback.executedInstrs = (run.writtenBack c).length
        ∧ (run.sim c).core.pending.halt = none
  | 0, _ => ⟨hzero, hpending⟩
  | c + 1, hc => by
    obtain ⟨ih, hp⟩ := executedInstrs_eq hpending hzero (Nat.le_of_succ_le hc)
    have hcounted := PerfSim.counted_clockRetired hp
      (run.length_retired_le (Nat.le_of_succ_le hc)) (bind_eq_ok.2 ⟨_, run.step c hc, rfl⟩)
    rw [run.writtenBack_succ, List.length_append, ← ih]
    exact ⟨hcounted.executedInstrs, by rw [hcounted.pending]⟩

end Counts

section EndToEnd

variable {isa : ISA w} {run : PerfRun w E M K} {sim : PerfSim w E M K} {arch : FuncRun isa M}

/-- A new simulator runs on its ports with a limit. After any number of cycles, its registers are
those of the functional simulator after as many instructions as it has counted; its memory may be
ahead by the instructions in flight. -/
theorem PerfRun.ports_refine (hisa : IsSupported isa) (arch : FuncRun isa M)
    (run : PerfRun w E M K) (h : run.Executes arch) (hcreated : sim.IsCreated run.longAluLatency)
    {value : Target} (hstart : run.sim 0 = sim.setTarget value) (n : ℕ) {c : ℕ}
    (hc : c + 2 ≤ run.length) (hle : (run.toCoreRun.passed c).length ≤ arch.length) :
    ∃ s t, (PortSim.create run.longAluLatency sim.fetch.unit sim.core.rf sim.core.mem
        sim.core.kernelState).setTarget value = .ok s
      ∧ (s.beginRun n).clocks run.kernel run.isa c = .ok t
      ∧ t.rf = (arch.sim t.writeback.executedInstrs).rf
      ∧ c ≤ 100 * (t.writeback.executedInstrs + 1)
      ∧ ∃ r, t.writeback.executedInstrs ≤ r
        ∧ r ≤ t.writeback.executedInstrs + run.longAluLatency + 1 ∧ t.mem = (arch.sim r).mem := by
  have hlimited : (run.limited n).sim 0 = (sim.setTarget value).beginRun n := by
    show (run.sim 0).beginRun n = _
    rw [hstart]
  obtain ⟨s, hs, hmatches⟩ := PortSim.matches_start hcreated run.latency_ge value n
  rw [← hlimited] at hmatches
  have hlength : c ≤ (run.limited n).length := by
    show c ≤ run.length
    omega
  obtain ⟨t, ht, hm⟩ := hmatches.clocks (run.limited n)
    (hlimited ▸ hcreated.currCycle_start value n) hlength
  obtain ⟨hrf, hmem, hexecuted⟩ := run.core_limited (n := n) (c := c) (by omega)
  have hpending : (run.sim 0).core.pending.halt = none := by
    rw [hstart]
    show sim.core.pending.halt = none
    rw [hcreated.core]
  have hzero : (run.sim 0).core.writeback.executedInstrs = 0 := by
    rw [hstart]
    show sim.core.writeback.executedInstrs = 0
    rw [hcreated.core]
  obtain ⟨hcount, -⟩ := PerfRun.executedInstrs_eq hpending hzero (c := c) (by omega)
  have hexecuted' : t.writeback.executedInstrs = (run.writtenBack c).length := by
    rw [hm.writeback, hexecuted, hcount]
  obtain ⟨-, -, hrf', ⟨r, hr, hr', hmem'⟩, hprogress⟩ := h.refinesAt hisa hc hle
  have hlength := run.length_pending_le c
  refine ⟨s, t, hs, ht, ?_, hexecuted' ▸ hprogress, r, hexecuted' ▸ hr, by omega, ?_⟩
  · rw [hm.rf, hrf, hrf', hexecuted']
  · rw [hm.mem, hmem, hmem']

end EndToEnd

section Example

/-- The simulator of the loop as it is made. -/
def createdLoopSim : PerfSim 32 (BPEntryAlways false) PlainMemory Unit where
  fetch :=
    { config := ⟨.noPrefetch, 32#32, 64#32⟩
      bp := ⟨fun _ _ => .mk, fun _ _ => 0#64, .infinite .create⟩
      tags := .alwaysHit
      memory := .create 32 .little 16 }
  core := .create (Mips.isa .mars) 5 jumpMemory ()

/-- The same simulator with its ports, which is to run for so many instructions. -/
def startedLoopSim (n : ℕ) : Except PortFault (PortSim 32 (BPEntryAlways false) PlainMemory Unit) :=
  do
    let s ← (PortSim.create 5 createdLoopSim.fetch.unit createdLoopSim.core.rf
      createdLoopSim.core.mem ()).setTarget ⟨16#64, 0#64⟩
    return s.beginRun n

theorem createdLoopSim_isCreated : createdLoopSim.IsCreated 5 := ⟨rfl, rfl, rfl, rfl⟩

theorem on_ports_loop : ∃ s, startedLoopSim 0 = .ok s
    ∧ ∃ t, s.clocks loopRun.kernel loopRun.isa 11 = .ok t ∧ t.rf = (loopRun.sim 11).core.rf := by
  have hle : 11 ≤ loopRun.length := by decide
  have hstart : loopRun.sim 0 = (createdLoopSim.setTarget ⟨16#64, 0#64⟩).beginRun 0 := rfl
  obtain ⟨s, hs, hclocks⟩ := loopRun.on_ports createdLoopSim_isCreated hstart
  obtain ⟨t, ht, hm⟩ := hclocks 11 hle
  exact ⟨_, bind_eq_ok.2 ⟨s, hs, rfl⟩, t, ht, hm.rf⟩

/-- After eleven cycles the loop has been gone round twice. -/
theorem ports_refine_loop : ∃ s t, startedLoopSim 4 = .ok s
    ∧ s.clocks loopRun.kernel loopRun.isa 11 = .ok t
    ∧ t.rf = (loopArch.sim t.writeback.executedInstrs).rf := by
  have hlen : 11 + 2 ≤ loopRun.length := by decide
  have hle : (loopRun.toCoreRun.passed 11).length ≤ loopArch.length := by decide +kernel
  have hstart : loopRun.sim 0 = createdLoopSim.setTarget ⟨16#64, 0#64⟩ := rfl
  obtain ⟨s, t, hs, ht, hrf, -⟩ := PerfRun.ports_refine (w := 32) (.mips .mars) loopArch loopRun
    executes_loop createdLoopSim_isCreated hstart 4 hlen hle
  exact ⟨_, t, bind_eq_ok.2 ⟨s, hs, rfl⟩, ht, hrf⟩

end Example

end MiptMips
