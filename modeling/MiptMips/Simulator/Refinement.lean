import MiptMips.Modules.Checker
import MiptMips.Simulator.Following

/-!
# The pipeline refines the functional simulator

What has passed is what has been written back, followed by what is pending. So the registers of the
pipeline are those of the functional simulator after as many instructions as have been written
back, and its memory is that after as many more as Mem is ahead of Writeback. The predictor, the
cache and the latency of long instructions do not matter, and the checker has nothing to object to.
-/

namespace MiptMips

open Machines

variable {w : ℕ} {E M K : Type} [BPEntry E] [FuncMemory M]

namespace PerfRun

variable (run : PerfRun w E M K) {n c : ℕ} {isa : ISA w}

section WrittenBack

/-- What has been written back before a cycle. -/
def writtenBack (n : ℕ) : List (PerfInstr w) := (List.range n).flatMap fun v => (run.sim v).retired

theorem writtenBack_succ (n : ℕ) :
    run.writtenBack (n + 1) = run.writtenBack n ++ (run.sim n).retired := by
  rw [writtenBack, List.range_succ, List.flatMap_append, List.flatMap_singleton]
  rfl

variable {run}

/-- In a calm run, what arrives is written back. -/
theorem retired_of_calm (h : run.toCoreRun.Calm n) (hn : n ≤ run.length) (hc : c ≤ n) :
    (run.sim c).retired = (run.sim c).core.backend.arrived := by
  unfold PerfSim.retired
  rcases Nat.lt_or_ge c 2 with hlt | hge
  · rw [arrived_of_lt_two (hc.trans hn) hlt, ite_self]
  · rw [show (run.sim c).core.fromWriteback.trap = false from h.trap c hge hc]
    rfl

theorem passed_eq (h : run.toCoreRun.Calm n) (hn : n ≤ run.length) :
    ∀ {c}, c ≤ n → run.toCoreRun.passed c = run.writtenBack c ++ run.toCoreRun.pending c
  | 0, _ => rfl
  | c + 1, hc => by
    have hle := Nat.le_of_succ_le hc
    have ih := passed_eq h hn hle
    rw [CoreRun.passed_succ, writtenBack_succ, retired_of_calm h hn hle, ih]
    have hone : (run.sim c).core.backend.arrived.length ≤ 1 :=
      run.toCoreRun.length_arrived_le (hle.trans hn)
    rcases ha : (run.sim c).core.backend.arrived with _ | ⟨z, _ | ⟨z', zs⟩⟩
    · rw [h.pending_succ_of_bubble hn hle ha, List.append_nil, List.append_assoc]
    · obtain ⟨rest, hpending, hsucc⟩ := h.pending_succ_of_arrived hn hle ha
      rw [hpending, hsucc]
      simp
    · rw [ha] at hone
      simp at hone

/-- What passes in one of the two cycles before is pending. -/
theorem pendingOf_of_le {d : ℕ} (hd : c ≤ d + 2) :
    run.toCoreRun.pendingOf c d = (run.toCoreRun.passes d).map (run.toCoreRun.outcome d) := by
  refine Option.ext fun z => ?_
  rw [CoreRun.pendingOf_eq_some_iff, Option.map_eq_some_iff]
  refine exists_congr fun y => and_congr_right fun _ => ⟨And.right, fun hz => ⟨?_, hz⟩⟩
  have := y.path.latency_pos run.latency_ge
  have hlat : 0 < y.path.latency run.toCoreRun.longAluLatency := this
  omega

/-- Mem is ahead of Writeback by no more than what is pending. -/
theorem length_passed_sub_two (h : run.toCoreRun.Calm n) (hn : n ≤ run.length) :
    (run.writtenBack n).length ≤ (run.toCoreRun.passed (n - 2)).length := by
  have heq := passed_eq h hn le_rfl
  rcases n with _ | _ | n
  · exact Nat.zero_le _
  · have h0 : run.writtenBack 1 = [] := by
      rw [writtenBack_succ, retired_of_calm h hn (Nat.zero_le 1),
        arrived_of_lt_two (Nat.zero_le _) (by decide)]
      rfl
    rw [h0]
    exact Nat.zero_le _
  · have hpending : run.toCoreRun.pending (n + 2)
        = (List.range n).filterMap (run.toCoreRun.pendingOf (n + 2))
          ++ ((run.toCoreRun.passes n).map (run.toCoreRun.outcome n)).toList
          ++ ((run.toCoreRun.passes (n + 1)).map (run.toCoreRun.outcome (n + 1))).toList := by
      rw [CoreRun.pending, filterMap_range_succ, filterMap_range_succ, pendingOf_of_le le_rfl,
        pendingOf_of_le (Nat.le_succ _)]
    have hlength := congrArg List.length heq
    rw [hpending, CoreRun.passed_succ, CoreRun.passed_succ] at hlength
    simp only [List.length_append] at hlength
    show _ ≤ (run.toCoreRun.passed n).length
    omega

end WrittenBack

section Refines

/-- What the pipeline has done before a cycle, compared with the functional simulator. -/
structure RefinesAt (arch : FuncRun isa M) (n : ℕ) : Prop where
  passed : run.toCoreRun.passed n = run.writtenBack n ++ run.toCoreRun.pending n
  instrs : (run.writtenBack n).map (·.toFuncInstr)
    = (List.range (run.writtenBack n).length).map arch.instr
  rf : (run.sim n).core.rf = (arch.sim (run.writtenBack n).length).rf
  /-- Mem is ahead of Writeback. -/
  mem : ∃ r, (run.writtenBack n).length ≤ r
    ∧ r ≤ (run.writtenBack n).length + (run.toCoreRun.pending n).length
    ∧ (run.sim n).core.mem = (arch.sim r).mem
  progress : n ≤ 100 * ((run.writtenBack n).length + 1)

/-- The run is one of the program that the functional simulator executes, and nothing goes wrong in
it. -/
structure Executes (arch : FuncRun isa M) : Prop where
  isa_eq : run.isa = isa
  startsLike : run.StartsLike (isa_eq ▸ arch)
  stepSafe : ∀ c, c + 2 ≤ run.length → run.toCoreRun.discarded c = false → run.StepSafe c

variable {run}

theorem Simulates.refinesAt {arch : FuncRun run.isa M} (hs : run.Simulates arch n)
    (hn : n + 2 ≤ run.length) : run.RefinesAt arch n := by
  obtain ⟨done, hw⟩ := hs.written
  have heq := passed_eq hs.calm hn (Nat.le_add_right n 2)
  obtain rfl : done = run.writtenBack n := List.append_cancel_right (hw.passed.symm.trans heq)
  have hlast := hw.last
  have hpatience := hw.patience
  have hlength := congrArg List.length heq
  rw [List.length_append] at hlength
  have hinstrs := hs.passed
  rw [heq, List.map_append, List.length_append, List.range_add, List.map_append] at hinstrs
  refine ⟨heq, (List.append_inj hinstrs (by simp)).1, hw.rf,
    ⟨_, length_passed_sub_two (hs.calm.mono (Nat.le_add_right n 2)) (by omega), ?_,
      hs.mem n (Nat.le_add_right n 2)⟩, by omega⟩
  rw [← hlength]
  exact length_passed_le (Nat.sub_le n 2)

/-- The pipeline goes through the states of the functional simulator. -/
theorem Executes.refinesAt (hisa : IsSupported isa) {arch : FuncRun isa M} (h : run.Executes arch)
    (hn : n + 2 ≤ run.length) (hle : (run.toCoreRun.passed n).length ≤ arch.length) :
    run.RefinesAt arch n := by
  obtain ⟨rfl, hstart, hsafe⟩ := h
  exact (simulates hisa hstart hsafe hn hle).refinesAt hn

/-- A cycle leaves the pipeline where it is in the run of the functional simulator, or writes the
next instruction back. -/
theorem refines (hisa : IsSupported isa) (arch : FuncRun isa M) (run : PerfRun w E M K)
    (h : run.Executes arch) (hn : n + 3 ≤ run.length)
    (hle : (run.toCoreRun.passed (n + 1)).length ≤ arch.length) :
    run.RefinesAt arch n ∧ (run.writtenBack (n + 1) = run.writtenBack n
      ∨ ∃ z, run.writtenBack (n + 1) = run.writtenBack n ++ [z]
        ∧ z.toFuncInstr = arch.instr (run.writtenBack n).length) := by
  refine ⟨h.refinesAt hisa (by omega) ((length_passed_le (Nat.le_succ n)).trans hle), ?_⟩
  have hinstrs := (h.refinesAt hisa hn hle).instrs
  have hone := run.length_retired_le (show n ≤ run.length by omega)
  rw [writtenBack_succ] at hinstrs ⊢
  rcases hr : (run.sim n).retired with _ | ⟨z, _ | ⟨z', zs⟩⟩
  · exact .inl (List.append_nil _)
  · refine .inr ⟨z, rfl, ?_⟩
    rw [hr, List.length_append, List.length_singleton, List.range_succ, List.map_append,
      List.map_append, List.map_singleton, List.map_singleton] at hinstrs
    exact List.singleton_inj.1 (List.append_inj' hinstrs rfl).2
  · rw [hr] at hone
    simp at hone

end Refines

section Configurations

variable {E' K' : Type} [BPEntry E']

/-- Two pipelines that execute one program, with predictors, caches, kernels and latencies of their
own: one has written back what the other has, or the first part of it, and after the same number of
instructions their registers are the same. -/
theorem configuration_independent (hisa : IsSupported isa) (arch : FuncRun isa M)
    (run : PerfRun w E M K) (run' : PerfRun w E' M K') (h : run.Executes arch)
    (h' : run'.Executes arch) {n n' : ℕ} (hn : n + 2 ≤ run.length) (hn' : n' + 2 ≤ run'.length)
    (hle : (run.toCoreRun.passed n).length ≤ arch.length)
    (hle' : (run'.toCoreRun.passed n').length ≤ arch.length)
    (hfirst : (run.writtenBack n).length ≤ (run'.writtenBack n').length) :
    (run.writtenBack n).map (·.toFuncInstr) <+: (run'.writtenBack n').map (·.toFuncInstr)
      ∧ ((run.writtenBack n).length = (run'.writtenBack n').length →
        (run.sim n).core.rf = (run'.sim n').core.rf
          ∧ (run.toCoreRun.pending n = [] → run'.toCoreRun.pending n' = [] →
            (run.sim n).core.mem = (run'.sim n').core.mem)) := by
  obtain ⟨-, hinstrs, hrf, ⟨r, hr, hr', hmem⟩, -⟩ := h.refinesAt hisa hn hle
  obtain ⟨-, hinstrs', hrf', ⟨s, hs, hs', hmem'⟩, -⟩ := h'.refinesAt hisa hn' hle'
  refine ⟨?_, fun heq => ⟨?_, fun hnil hnil' => ?_⟩⟩
  · rw [hinstrs, hinstrs']
    obtain ⟨k, hk⟩ := Nat.exists_eq_add_of_le hfirst
    rw [hk, List.range_add]
    exact (List.prefix_append _ _).map _
  · rw [hrf, hrf', heq]
  · rw [hnil, List.length_nil, Nat.add_zero] at hr'
    rw [hnil', List.length_nil, Nat.add_zero] at hs'
    rw [hmem, hmem', show r = s by omega]

end Configurations

end PerfRun

section Checked

/-- What Writeback does with the checker for instructions that leave the program counter to the
pipeline. -/
def Checker.follow (isa : ISA w) (c : Checker w M) (instrs : List (FuncInstr w)) :
    Except SimException (Checker w M) :=
  instrs.foldlM (fun c instr => do
    let c ← c.check isa instr
    c.driverStep isa instr) c

variable {isa : ISA w}

theorem FuncInstr.isSameChecker_self (f : FuncInstr w) : f.isSameChecker f = true := by
  simp [isSameChecker, isSame, isSameBytes]

/-- The checker goes through the run of the functional simulator. -/
theorem FuncRun.follow (arch : FuncRun isa M) : ∀ {k i : ℕ}, i + k ≤ arch.length →
    Checker.follow isa ⟨arch.sim i, true⟩ ((List.range' i k).map arch.instr)
      = .ok ⟨arch.sim (i + k), true⟩
  | 0, _, _ => rfl
  | k + 1, i, hle => by
    obtain ⟨t, hs, hd⟩ := arch.step i (by omega)
    have hcheck : Checker.check isa ⟨arch.sim i, true⟩ (arch.instr i) = .ok ⟨t, true⟩ := by
      unfold Checker.check
      rw [if_pos rfl, bind_eq_ok]
      exact ⟨_, hs, if_pos (FuncInstr.isSameChecker_self _)⟩
    have hdriver : Checker.driverStep isa ⟨t, true⟩ (arch.instr i)
        = .ok ⟨arch.sim (i + 1), true⟩ := by
      unfold Checker.driverStep
      rw [if_pos rfl, bind_eq_ok]
      exact ⟨_, hd, rfl⟩
    have ih := arch.follow (k := k) (i := i + 1) (by omega)
    unfold Checker.follow at ih ⊢
    rw [List.range'_succ, List.map_cons, List.foldlM_cons, hcheck]
    show Checker.driverStep isa ⟨t, true⟩ (arch.instr i) >>= _ = _
    rw [hdriver, show i + (k + 1) = i + 1 + k by omega]
    exact ih

/-- A checker that starts where the pipeline does never objects, and is where the pipeline is. -/
theorem PerfRun.checker_passes (hisa : IsSupported isa) (arch : FuncRun isa M)
    (run : PerfRun w E M K) (h : run.Executes arch) {n : ℕ} (hn : n + 2 ≤ run.length)
    (hle : (run.toCoreRun.passed n).length ≤ arch.length) :
    ∃ c, Checker.follow isa ⟨arch.sim 0, true⟩ ((run.writtenBack n).map (·.toFuncInstr)) = .ok c
      ∧ c.sim.rf = (run.sim n).core.rf := by
  obtain ⟨hpassed, hinstrs, hrf, -, -⟩ := h.refinesAt hisa hn hle
  have hlength := congrArg List.length hpassed
  rw [List.length_append] at hlength
  have hfollow := arch.follow (k := (run.writtenBack n).length) (i := 0) (by omega)
  rw [← List.range_eq_range', Nat.zero_add, ← hinstrs] at hfollow
  exact ⟨_, hfollow, hrf.symm⟩

end Checked

section Example

/-- The loop in a pipeline that always predicts a known jump to be taken, with a latency of three. -/
def takenLoopSim : PerfSim 32 (BPEntryAlways true) PlainMemory Unit :=
  PerfSim.setTarget
    { fetch :=
        { config := ⟨.noPrefetch, 32#32, 64#32⟩
          bp := ⟨fun _ _ => .mk, fun _ _ => 0#64, .infinite .create⟩
          tags := .alwaysHit
          memory := .create 32 .little 16 }
      core := .create (Mips.isa .mars) 3 jumpMemory () } ⟨16#64, 0#64⟩

theorem takenLoopSim_ok : ∀ c < 13, ((takenLoopSim.trajectory (.dummy 32 PlainMemory)
    (Mips.isa .mars) c).clock (.dummy 32 PlainMemory) (Mips.isa .mars)).isOk := by
  decide +kernel

def takenLoopRun : PerfRun 32 (BPEntryAlways true) PlainMemory Unit :=
  .ofStart (.dummy 32 PlainMemory) (Mips.isa .mars) takenLoopSim 3 13 CoreRun.latency_three_ge
    CoreRun.latency_three_lt ((Core.atStart_create _ _ _ _).setTarget _) (.create _ _ _ _ _)
    takenLoopSim_ok

/-- Nothing goes wrong in a cycle of a run for MARS in which nothing is read from a second
destination, Fetch has sent something when Decode stalls, and all but jumps is predicted to go
on. -/
theorem PerfRun.stepSafe_of_checks {run : PerfRun 32 E M K} (hisa : run.isa = Mips.isa .mars) {b : ℕ}
    (hchecks : ∀ c < b, (run.toCoreRun.sent c).all (fun x =>
        x.dst1.isZero && x.executor != .csrrs && (x.isJump || x.bpData.target == x.PC + 4#64))
      ∧ ((run.sim c).core.fetchIn.stall = true → (run.sim c).fromFetch.datapath.isSome)
      ∧ ((run.sim c).core.fromDecode.flushFetch = true →
        (run.sim c).core.fromDecode.flushTarget.isSome)) {c : ℕ} (hc : c < b) :
    run.StepSafe c := by
  obtain ⟨hsent, hstall, hflush⟩ := hchecks c hc
  refine ⟨fun x index d y _ hp => ?_, fun x index _ hd => ?_, fun x hx => ?_, fun _ hs _ hn => ?_,
    fun hf ht => ?_⟩
  · obtain ⟨hy, -⟩ := hchecks d (hp.inFlight.lt.trans hc)
    rw [hp.inFlight.sent] at hy
    simp only [Option.all_some, Bool.and_eq_true, bne_iff_ne, ne_eq] at hy
    exact ⟨by simp [FuncInstr.writesSecond, hy.1.1], hy.1.2⟩
  · rw [hisa] at hd
    exact absurd hd (not_driverWrites_mips .mars _)
  · rw [hx] at hsent
    simp only [Option.all_some, Bool.and_eq_true, Bool.or_eq_true, beq_iff_eq] at hsent
    exact hsent.2
  · have hsome := hstall hs
    rw [hn] at hsome
    cases hsome
  · have hsome := hflush hf
    rw [ht] at hsome
    cases hsome

theorem checks_takenLoop : ∀ c < 12, (takenLoopRun.toCoreRun.sent c).all (fun x =>
      x.dst1.isZero && x.executor != .csrrs && (x.isJump || x.bpData.target == x.PC + 4#64))
    ∧ ((takenLoopRun.sim c).core.fetchIn.stall = true →
      (takenLoopRun.sim c).fromFetch.datapath.isSome)
    ∧ ((takenLoopRun.sim c).core.fromDecode.flushFetch = true →
      (takenLoopRun.sim c).core.fromDecode.flushTarget.isSome) := by
  decide +kernel

theorem executes_loop : loopRun.Executes loopArch where
  isa_eq := rfl
  startsLike := startsLike_loop
  stepSafe _ hc _ := stepSafe_loop (Nat.lt_of_succ_lt_succ hc)

theorem executes_takenLoop : takenLoopRun.Executes loopArch where
  isa_eq := rfl
  startsLike := ⟨⟨(), rfl⟩, rfl, rfl⟩
  stepSafe _ hc _ := PerfRun.stepSafe_of_checks rfl checks_takenLoop (Nat.lt_of_succ_lt_succ hc)

theorem refines_loop : loopRun.RefinesAt loopArch 11
    ∧ (loopRun.writtenBack 11).map (·.PC) = [16#64, 20#64, 16#64, 20#64] := by
  have hlen : 11 + 3 ≤ loopRun.length := by decide
  have hle : (loopRun.toCoreRun.passed 12).length ≤ loopArch.length := by decide +kernel
  refine ⟨(PerfRun.refines (.mips .mars) loopArch loopRun executes_loop hlen hle).1, ?_⟩
  decide +kernel

/-- The pipelines get to the fourth instruction in different cycles, with the same registers. -/
theorem configuration_independent_loop :
    (loopRun.sim 11).core.rf = (takenLoopRun.sim 10).core.rf := by
  have hlen : 11 + 2 ≤ loopRun.length := by decide
  have hlen' : 10 + 2 ≤ takenLoopRun.length := by decide
  have hle : (loopRun.toCoreRun.passed 11).length ≤ loopArch.length := by decide +kernel
  have hle' : (takenLoopRun.toCoreRun.passed 10).length ≤ loopArch.length := by decide +kernel
  have heq : (loopRun.writtenBack 11).length = (takenLoopRun.writtenBack 10).length := by
    decide +kernel
  exact ((PerfRun.configuration_independent (w := 32) (.mips .mars) loopArch loopRun
    takenLoopRun executes_loop executes_takenLoop hlen hlen' hle hle' heq.le).2 heq).1

theorem checker_passes_loop : ∃ c, Checker.follow (Mips.isa .mars) ⟨loopArch.sim 0, true⟩
      ((loopRun.writtenBack 11).map (·.toFuncInstr)) = .ok c
    ∧ c.sim.rf = (loopRun.sim 11).core.rf :=
  PerfRun.checker_passes (w := 32) (.mips .mars) loopArch loopRun executes_loop (n := 11)
    (by decide) (by decide +kernel)

end Example

end MiptMips
