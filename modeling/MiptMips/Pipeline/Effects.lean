import MiptMips.Pipeline.Passing
import MiptMips.Pipeline.TrapStores

/-!
# What a cycle leaves

Mem performs the access of what was let go two cycles before and has passed. Writeback writes what
arrives, and as long as nothing traps it has nothing else to tell. It gives up after a hundred
cycles without an instruction, so instructions keep arriving in a run.
-/

namespace MiptMips

open Machines

variable {w : ℕ} {M K : Type} [FuncMemory M]

/-- An instruction that takes another path than through Mem accesses nothing. -/
theorem FuncMemory.loadStore_of_path {mem : M} {f : FuncInstr w} (h : f.path ≠ .mem) :
    FuncMemory.loadStore mem f = .ok (f, mem) := by
  obtain ⟨hl, hs⟩ := FuncInstr.noAccess_of_path h
  unfold loadStore
  rw [hl, hs]
  rfl

/-- Branch sends a target with a flush, that of what it sends to Writeback. -/
theorem Branch.clock_cases (flush : Bool) (datapath : Option (PerfInstr w)) :
    ((Branch.clock flush datapath).flushAll = false
        ∧ (Branch.clock flush datapath).flushTarget = none)
      ∨ (Branch.clock flush datapath).flushAll = true
        ∧ ∃ z, (Branch.clock flush datapath).datapath = some z
          ∧ (Branch.clock flush datapath).flushTarget = some z.getActualTarget := by
  rcases datapath with _ | z
  · exact .inl ⟨rfl, rfl⟩
  · rcases flush with _ | _
    · unfold Branch.clock
      rcases hm : Branch.isMisprediction z.toFuncInstr z.bpData with _ | _ <;> simp [hm]
    · exact .inl ⟨rfl, rfl⟩

namespace CoreRun

variable {run : CoreRun w M K} {n c d : ℕ} {x z : PerfInstr w}

section Memory

/-- Mem has nothing to do in the first two cycles. -/
theorem memAfter_of_lt_two (hc : c < run.length) (h : c < 2) :
    run.memAfter c = (run.core c).mem := by
  refine run.memAfter_eq hc fun hs => ?_
  obtain ⟨d, rfl⟩ := run.exists_of_storesIn hc.le hs
  omega

/-- Mem accesses memory for what passes, and for nothing else. -/
theorem Calm.access (h : run.Calm n) (hd : d + 2 ≤ n) (hn : d + 2 < run.length) :
    (run.passes d = none ∧ run.memAfter (d + 2) = (run.core (d + 2)).mem)
      ∨ ∃ x f, run.passes d = some x ∧ FuncMemory.loadStore (run.core (d + 2)).mem
        (run.execution d x).toFuncInstr = .ok (f, run.memAfter (d + 2)) := by
  have hports := (run.toBackendRun.fromExecute_eq (c := d + 1) (Nat.lt_of_succ_lt hn)).1
  have hmem : (run.core (d + 2)).backend.fromExecute.mem
      = run.toBackendRun.executedOn .mem (d + 1) := congrArg ExecuteOut.mem hports
  have hcases := run.toBackendRun.fromMem_cases (c := d + 2) hn
  rcases hx : run.passes d with _ | x
  · refine .inl ⟨rfl, ?_⟩
    rcases hcases with ⟨-, -, hm⟩ | ⟨y, f, hf, hy, -⟩
    · exact hm
    · -- what Mem works on has been let go, and no flush was seen since
      have hy' : (run.core (d + 2)).backend.fromExecute.mem = some y := hy
      rw [hmem] at hy'
      obtain ⟨hf₁, x, hx', -⟩ := run.executed_succ_iff.1 (run.toBackendRun.executedOn_iff.1 hy').1
      have hpass : run.passes d = some x := passes_eq_some_iff.2
        ⟨Bool.or_eq_false_iff.2 ⟨flushAll_of_flush hf₁, flushAll_of_flush hf⟩, hx'⟩
      rw [hx] at hpass
      cases hpass
  · obtain ⟨hdisc, hsent⟩ := passes_eq_some_iff.1 hx
    obtain ⟨h₁, h₂⟩ := Bool.or_eq_false_iff.1 hdisc
    have hpos := h.pos_of_sent hsent
    rw [← h.flush_eq (by omega) (by omega)] at h₁ h₂
    have hex : run.toBackendRun.executed (d + 1) = some (run.execution d x) :=
      run.executed_succ_iff.2 ⟨h₁, x, hsent, rfl⟩
    by_cases hp : (run.execution d x).path = .mem
    · have hon := run.toBackendRun.executedOn_iff.2 ⟨hex, hp⟩
      rcases hcases with ⟨hf | hnone, -⟩ | ⟨y, f, -, hy, hl, -⟩
      · have hf' : (run.core (d + 2)).flush = true := hf
        rw [h₂] at hf'
        cases hf'
      · have hnone' : (run.core (d + 2)).backend.fromExecute.mem = none := hnone
        rw [hmem, hon] at hnone'
        cases hnone'
      · have hy' : (run.core (d + 2)).backend.fromExecute.mem = some y := hy
        rw [hmem, hon] at hy'
        cases hy'
        exact .inr ⟨x, f, rfl, hl⟩
    · refine .inr ⟨x, (run.execution d x).toFuncInstr, rfl, ?_⟩
      rw [FuncMemory.loadStore_of_path hp]
      rcases hcases with ⟨-, -, hm⟩ | ⟨y, f, -, hy, -⟩
      · rw [show run.memAfter (d + 2) = (run.core (d + 2)).mem from hm]
      · have hy' : (run.core (d + 2)).backend.fromExecute.mem = some y := hy
        rw [hmem] at hy'
        obtain ⟨hex', hp'⟩ := run.toBackendRun.executedOn_iff.1 hy'
        rw [hex] at hex'
        cases hex'
        exact absurd hp' hp

end Memory

section Writeback

variable (run) in
/-- Nothing is written back in a cycle. -/
structure Bubble (c : ℕ) : Prop where
  rf : (run.core (c + 1)).rf = (run.core c).rf
  mem : (run.core (c + 1)).mem = run.memAfter c
  fromWriteback : (run.core (c + 1)).fromWriteback = (run.core c).pending
  unit : (run.core (c + 1)).writeback = (run.core c).writeback
  patience : (run.core c).currCycle < (run.core c).writeback.lastWritebackCycle + 100

variable (run) in
/-- An instruction is written back in a cycle, and the driver sees it. -/
structure Retires (c : ℕ) (z : PerfInstr w) (written : RF w) (result : DriverResult w) : Prop where
  writeDst : (run.core c).rf.writeDst z.toFuncInstr = .ok written
  driver : run.isa.handleTrap written z.toFuncInstr = .ok result
  rf : (run.core (c + 1)).rf = result.rf
  mem : (run.core (c + 1)).mem = run.memAfter c
  fromWriteback : result.trap = .noTrap → result.pc = none →
    (run.core (c + 1)).fromWriteback.trap = (run.core c).pending.trap
      ∧ (run.core (c + 1)).fromWriteback.target = (run.core c).pending.target
  unit : (run.core (c + 1)).writeback.lastWritebackCycle = (run.core c).currCycle

theorem pending_eq (hc : c < run.length) : (run.core (c + 1)).pending = {} := by
  obtain ⟨step⟩ := Core.clock_cases (run.step c hc)
  exact step.pending

theorem currCycle_succ (hc : c < run.length) :
    (run.core (c + 1)).currCycle = (run.core c).currCycle + 1 := by
  obtain ⟨step⟩ := Core.clock_cases (run.step c hc)
  exact step.currCycle

theorem memAfter_of_clockOf (step : Core.ClockOf run.kernel run.isa (run.fetched c) (run.core c)
    (run.core (c + 1))) : run.memAfter c = step.mem := by
  unfold memAfter
  rw [step.backend]

theorem bubble (hc : c < run.length)
    (h : (run.core c).fromWriteback.trap = true ∨ (run.core c).backend.arrived = []) :
    run.Bubble c := by
  obtain ⟨step⟩ := Core.clock_cases (run.step c hc)
  have hwb := step.writeback
  have hbubble : WritebackState.writebackBubble ⟨(run.core c).writeback, (run.core c).rf, step.mem,
      (run.core c).kernelState, (run.core c).pending⟩ (run.core c).currCycle = .ok step.wb := by
    unfold WritebackState.clock at hwb
    split_ifs at hwb with ht hnil
    · exact hwb
    · exact hwb
    · rcases h with h | h
      · exact absurd h ht
      · exact absurd h hnil
  unfold WritebackState.writebackBubble at hbubble
  split_ifs at hbubble with hlate
  have heq := Except.ok.inj hbubble
  refine ⟨?_, ?_, ?_, ?_, Nat.lt_of_not_le hlate⟩
  · rw [step.rf, ← heq]
  · rw [step.mem_eq, ← heq, memAfter_of_clockOf step]
  · rw [step.fromWriteback, ← heq]
  · rw [step.unit, ← heq]

/-- What arrives without a trap is written back, shown to the driver, and that is all. -/
theorem retires (hc : c < run.length) (htrap : (run.core c).fromWriteback.trap = false)
    (hz : (run.core c).backend.arrived = [z]) (hno : z.trap = .noTrap) :
    ∃ written result, run.Retires c z written result := by
  obtain ⟨step⟩ := Core.clock_cases (run.step c hc)
  have harr : (if (run.core c).fromWriteback.trap then [] else (run.core c).backend.arrived)
      = [z] := by
    rw [htrap, hz]
    rfl
  rcases WritebackState.clock_cases (by rw [harr]; exact le_rfl) step.writeback
    with ⟨hnil, -⟩ | ⟨instr, hi, hwb⟩
  · rw [harr] at hnil
    cases hnil
  rw [harr] at hi
  cases hi
  have hmem := memAfter_of_clockOf step
  have hrf := step.rf
  have hmem' := step.mem_eq
  have hout := step.fromWriteback
  have hunit := step.unit
  -- the stages of Writeback, one after another
  obtain ⟨s₁, h₁, hwb⟩ := bind_eq_ok.1 hwb
  obtain ⟨⟨instr', s₂⟩, h₂, hwb⟩ := bind_eq_ok.1 hwb
  obtain ⟨⟨resultTrap, s₃⟩, h₃, hwb⟩ := bind_eq_ok.1 hwb
  obtain ⟨written, hwritten, h₁⟩ := bind_eq_ok.1 h₁
  cases h₁
  rw [WritebackState.handleInstruction, if_pos (by simp [hno])] at h₂
  cases h₂
  obtain ⟨result, hdriver, h₃⟩ := bind_eq_ok.1 h₃
  cases h₃
  have hwb := Except.ok.inj hwb
  refine ⟨written, result, hwritten, hdriver, ?_, ?_, fun ht hpc => ?_, ?_⟩
  · rw [hrf, ← hwb]
    rcases hpc : result.pc with _ | pc <;> simp only <;> split_ifs <;> rfl
  · rw [hmem', ← hwb, hmem]
    rcases hpc : result.pc with _ | pc <;> simp only <;> split_ifs <;> rfl
  · rw [hout, ← hwb, hpc, ht]
    simp [hno, WritebackState.writeHalt]
  · rw [hunit, ← hwb]
    rcases hpc : result.pc with _ | pc <;> simp only <;> split_ifs <;> rfl

/-- When no trap is signalled, memory is what Mem has left. -/
theorem mem_succ (hc : c < run.length) (hno : (run.core (c + 1)).fromWriteback.trap = false) :
    (run.core (c + 1)).mem = run.memAfter c := by
  obtain ⟨step⟩ := Core.clock_cases (run.step c hc)
  have hone := run.length_arrived_le hc.le
  rw [step.mem_eq, memAfter_of_clockOf step]
  rw [step.fromWriteback] at hno
  rcases WritebackState.clock_cases (by split_ifs <;> simp [hone]) step.writeback
    with ⟨-, ht⟩ | ⟨z, -, hs⟩
  · rw [ht]
  · exact WritebackState.mem_writebackInstructionSystem hs hno

/-- When one is, an instruction that traps has been written back, unless a target was set from
outside. -/
theorem exists_trapped (hisa : IsSupported run.isa) (hc : c < run.length)
    (hpending : (run.core c).pending.trap = false)
    (htrap : (run.core (c + 1)).fromWriteback.trap = true) :
    (run.core c).fromWriteback.trap = false
      ∧ ∃ z ∈ (run.core c).backend.arrived, z.trap ≠ .noTrap := by
  have hbubble : ¬ run.Bubble c := by
    intro h
    rw [h.fromWriteback, hpending] at htrap
    cases htrap
  have hno : (run.core c).fromWriteback.trap = false := by
    by_contra h
    exact hbubble (bubble hc (.inl (by simpa using h)))
  have hone := run.length_arrived_le hc.le
  refine ⟨hno, ?_⟩
  rcases ha : (run.core c).backend.arrived with _ | ⟨z, _ | ⟨z', zs⟩⟩
  · exact absurd (bubble hc (.inr ha)) hbubble
  · refine ⟨z, List.mem_singleton.2 rfl, fun hz => ?_⟩
    obtain ⟨written, result, hr⟩ := retires hc hno ha hz
    obtain ⟨htrap', hpc, -⟩ := hisa.driver hz hr.driver
    rw [(hr.fromWriteback htrap' hpc).1, hpending] at htrap
    cases htrap
  · rw [ha] at hone
    simp at hone

/-- In a calm cycle nothing arrives, or one instruction is written back. -/
theorem Calm.writeback_cases (h : run.Calm n) (hn : n ≤ run.length) (hc : c ≤ n)
    (hlt : c < run.length) (hno : ∀ z ∈ (run.core c).backend.arrived, z.trap = .noTrap) :
    ((run.core c).backend.arrived = [] ∧ run.Bubble c)
      ∨ ∃ z written result, (run.core c).backend.arrived = [z]
        ∧ run.Retires c z written result := by
  have hone := run.length_arrived_le hlt.le
  rcases ha : (run.core c).backend.arrived with _ | ⟨z, _ | ⟨z', zs⟩⟩
  · exact .inl ⟨rfl, bubble hlt (.inr ha)⟩
  · have hz : z ∈ (run.core c).backend.arrived := by simp [ha]
    obtain ⟨d, x, hx, hd, -⟩ := h.exists_passes hn hc hz
    have hpos := h.pos_of_sent (passes_eq_some_iff.1 hx).2
    obtain ⟨written, result, hr⟩ := retires hlt (h.trap c (by omega) hc) ha (hno z hz)
    exact .inr ⟨z, written, result, rfl, hr⟩
  · rw [ha] at hone
    simp at hone

end Writeback

section Branch

/-- Branch sends no target without a flush. -/
theorem flushTarget_eq_none : ∀ {c}, c ≤ run.length →
    (run.core c).backend.fromBranch.flushAll = false →
    (run.core c).backend.fromBranch.flushTarget = none
  | 0, _, _ => by
    rw [run.start.backend]
    rfl
  | c + 1, hc, h => by
    obtain ⟨-, -, hb⟩ := run.toBackendRun.cycle (c := c) hc
    rw [show (run.core (c + 1)).backend.fromBranch = _ from hb] at h ⊢
    rcases Branch.clock_cases (run.toBackendRun.flush c)
      (run.toBackendRun.backend c).fromExecute.branch with ⟨-, hn⟩ | ⟨ht, -⟩
    · exact hn
    · rw [h] at ht
      cases ht

/-- With a flush, Branch sends the target of the branch that was mispredicted. -/
theorem Calm.exists_redirect (h : run.Calm n) (hn : n ≤ run.length) {v : ℕ} (hv : 2 ≤ v)
    (hvn : v ≤ n) (hf : (run.core v).flush = true) : ∃ d x, d + 3 = v ∧ run.passes d = some x
      ∧ (run.core v).backend.fromBranch.flushTarget = some (run.outcome d x).getActualTarget := by
  rw [h.flush_eq hv hvn] at hf
  obtain ⟨z, hz⟩ := run.exists_of_flushAll (hvn.trans hn) hf
  obtain ⟨b, y, hb, hp, -⟩ := run.arrives_of_arrivedOn (hvn.trans hn) hz
  have hy := h.passes hn hb hvn
  have hlat := hb.2.1
  have hmem : z ∈ (run.core v).backend.arrived :=
    (run.toBackendRun.mem_arrived_iff (hvn.trans hn)).2 ⟨_, hz⟩
  rw [h.arrived_eq hn hy hlat hvn, List.mem_singleton] at hmem
  rw [hp] at hlat
  refine ⟨b, y, hlat, hy, ?_⟩
  obtain ⟨u, rfl⟩ : ∃ u, v = u + 1 := ⟨v - 1, by omega⟩
  obtain ⟨-, -, hbr⟩ := run.toBackendRun.cycle (c := u) (hvn.trans hn)
  have hz' : (run.core (u + 1)).backend.fromBranch.datapath = some z := hz
  rw [show (run.core (u + 1)).backend.fromBranch = _ from hbr] at hf hz' ⊢
  rcases Branch.clock_cases (run.toBackendRun.flush u)
    (run.toBackendRun.backend u).fromExecute.branch with ⟨hno, -⟩ | ⟨-, z', hd, ht⟩
  · rw [hf] at hno
    cases hno
  · rw [hz'] at hd
    cases hd
    rw [ht, hmem]

/-- Without a flush, Branch has accepted the prediction. -/
theorem Calm.accepted (h : run.Calm n) (hc : c + 2 ≤ n) (hlt : c + 2 < run.length)
    (hx : run.passes c = some x) (hp : x.path = .branch)
    (hf : (run.core (c + 3)).backend.fromBranch.flushAll = false) :
    Branch.isMisprediction (run.execution c x).toFuncInstr x.bpData = false := by
  obtain ⟨hdisc, hsent⟩ := passes_eq_some_iff.1 hx
  obtain ⟨h₁, h₂⟩ := Bool.or_eq_false_iff.1 hdisc
  have hpos := h.pos_of_sent hsent
  rw [← h.flush_eq (by omega) (by omega)] at h₁ h₂
  have hcarried := run.carried_execution c x
  have hon : run.toBackendRun.executedOn .branch (c + 1) = some (run.execution c x) :=
    run.toBackendRun.executedOn_iff.2
      ⟨run.executed_succ_iff.2 ⟨h₁, x, hsent, rfl⟩, by rw [hcarried.path, hp]⟩
  have hports := (run.toBackendRun.fromExecute_eq (c := c + 1) (Nat.lt_of_succ_lt hlt)).1
  have hbranch : (run.core (c + 2)).backend.fromExecute.branch = some (run.execution c x) :=
    (congrArg ExecuteOut.branch hports).trans hon
  obtain ⟨-, -, hbr⟩ := run.toBackendRun.cycle (c := c + 2) hlt
  have hbr' : (run.core (c + 3)).backend.fromBranch
      = Branch.clock (run.core (c + 2)).flush (run.core (c + 2)).backend.fromExecute.branch := hbr
  rw [hbr', hbranch, h₂] at hf
  rw [← hcarried.bpData]
  exact hf

end Branch

end CoreRun

end MiptMips
