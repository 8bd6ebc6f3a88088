import MiptMips.Simulator.FrontEnd

/-!
# The pipeline follows the functional simulator

What passes from Decode to Execute and is not discarded is what the functional simulator executes,
in every run without traps, as long as certain things do not go wrong in Decode and Fetch.
-/

namespace MiptMips

open Machines

variable {w : ℕ} {E M K : Type} [BPEntry E] [FuncMemory M]

namespace FuncRun

variable {isa : ISA w} {arch : FuncRun isa M} {i r : ℕ}

section Written

/-- An instruction of the run writes the same to a register file that agrees. -/
theorem Next.writeDst (hisa : IsSupported isa) (hi : i < arch.length) (h : arch.Next i)
    {rf : RF w} {f : FuncInstr w} (hrf : (arch.sim i).rf.Agrees isa rf) (hf : f = arch.instr i) :
    ∃ rf', rf.writeDst f = .ok rf' ∧ (arch.sim (i + 1)).rf.Agrees isa rf' := by
  obtain ⟨written, result, hw, hdriver, hnext⟩ := h.written
  have hagrees : written.Agrees isa (arch.sim (i + 1)).rf := by
    rw [hnext]
    exact (hisa.driver (arch.trap i hi) hdriver).2.2
  have hacc : (arch.instr i).getAccumulationType = 0 ∨ ∀ num, ¬ isa.DriverWrites num := by
    obtain ⟨v, complete, hinstr⟩ := FuncSim.loadStore_frame h.accessed
    obtain ⟨_, _, _, _, _, _, _, hrun⟩ :=
      executed_run (f := (arch.sim i).current isa) ((arch.sim i).current isa).executor
    rw [hinstr, FuncInstr.execute, hrun]
    exact hisa.accumulation _ _ _
  obtain ⟨rf', hw', hagrees'⟩ := hrf.writeDst hacc hw
  rw [hf]
  exact ⟨rf', hw', hagrees.symm.trans hagrees'⟩

/-- The instructions from `r` on, written one after another. -/
theorem writeAll (hisa : IsSupported isa) : ∀ {instrs : List (PerfInstr w)} {r : ℕ} {rf : RF w},
    (arch.sim r).rf.Agrees isa rf →
    instrs.map (·.toFuncInstr) = (List.range' r instrs.length).map arch.instr →
    r + instrs.length ≤ arch.length →
    ∃ rf', rf.writeAll instrs = .ok rf' ∧ (arch.sim (r + instrs.length)).rf.Agrees isa rf'
  | [], r, rf, hrf, _, _ => ⟨rf, rfl, hrf⟩
  | z :: instrs, r, rf, hrf, heq, hle => by
    rw [List.length_cons] at hle heq
    rw [List.range'_succ, List.map_cons, List.map_cons, List.cons.injEq] at heq
    have hr : r < arch.length := by omega
    have hnext := next hisa hr (delayedSlots_eq hisa hr.le)
    obtain ⟨rf₁, hw, hagrees⟩ := hnext.writeDst hisa hr hrf heq.1
    obtain ⟨rf', hall, hagrees'⟩ := writeAll hisa hagrees heq.2 (by omega)
    refine ⟨rf', ?_, ?_⟩
    · unfold RF.writeAll at hall ⊢
      rw [List.foldlM_cons, hw]
      exact hall
    · rw [List.length_cons, show r + (instrs.length + 1) = r + 1 + instrs.length by omega]
      exact hagrees'

end Written

end FuncRun

namespace PerfRun

variable (run : PerfRun w E M K) {n c i j v : ℕ} {x y z : PerfInstr w} {q : Target}

section Condition

/-- What may go wrong in a cycle does not. -/
structure StepSafe (c : ℕ) : Prop where
  /-- A source is not taken from where a second destination or that of `csrrs` is on its way. -/
  operands : run.toCoreRun.BypassesFirst c
  /-- A register that the driver writes although nothing has trapped is read when it will not be
  written any more. -/
  driver : ∀ x index, run.toCoreRun.sent c = some x → run.isa.DriverWrites (x.getSrc index) →
    (∀ d y, ¬ run.toCoreRun.InFlight c d y)
      ∨ run.isa.DriverLeaves (run.sim c).core.rf (x.getSrc index)
        ∧ ∀ d y, run.toCoreRun.InFlight c d y → y.writes (x.getSrc index) = false
  /-- An instruction that is no jump is predicted to go on. -/
  prediction : ∀ x, run.toCoreRun.sent c = some x →
    x.isJump = true ∨ x.bpData.target = x.PC + 4#64
  /-- A stall does not hide the target that was kept during a miss. -/
  resumes : Fetch.KeepsRedirect (run.sim c).core.fetchIn (run.sim c).fromFetch
  /-- The flush of a mispredicted instruction that was stalled, whose target Fetch got before, does
  not hit the instruction from that target. -/
  redirected : (run.sim c).core.fromDecode.flushFetch = true →
    (run.sim c).core.fromDecode.flushTarget = none → (run.sim c).fromFetch.datapath = none

/-- At any time, what has passed is what the functional simulator executes first; and it goes on. -/
def Follows (arch : FuncRun run.isa M) : Prop := ∀ n, n + 2 ≤ run.length →
  (run.toCoreRun.passed n).length ≤ arch.length →
    (run.toCoreRun.passed n).map (·.toFuncInstr)
        = (List.range (run.toCoreRun.passed n).length).map arch.instr
      ∧ n ≤ 100 * ((run.toCoreRun.passed n).length + 1)

end Condition

section Simulation

/-- What has been written back before a cycle, and what that leaves. -/
structure Written (arch : FuncRun run.isa M) (c : ℕ) (done : List (PerfInstr w)) : Prop where
  passed : run.toCoreRun.passed c = done ++ run.toCoreRun.pending c
  rf : (run.sim c).core.rf = (arch.sim done.length).rf
  last : (run.sim c).core.writeback.lastWritebackCycle ≤ 100 * done.length
  patience : c ≤ (run.sim c).core.writeback.lastWritebackCycle + 100

/-- The state of the pipeline in a cycle and the next two, compared with the run of the functional
simulator. -/
structure Simulates (arch : FuncRun run.isa M) (c : ℕ) : Prop where
  calm : run.toCoreRun.Calm (c + 2)
  mem : ∀ v ≤ c + 2,
    (run.sim v).core.mem = (arch.sim (run.toCoreRun.passed (v - 2)).length).mem
  passed : (run.toCoreRun.passed c).map (·.toFuncInstr)
    = (List.range (run.toCoreRun.passed c).length).map arch.instr
  written : ∃ done, run.Written arch c done
  front : run.toCoreRun.discarded c = false → 1 ≤ c →
    (run.toCoreRun.passed c).length < arch.length → run.Front arch c (run.toCoreRun.passed c).length

variable {run} {arch : FuncRun run.isa M} {done : List (PerfInstr w)} {num : Register}

theorem currCycle_eq (hstart : run.StartsLike arch) :
    ∀ {c}, c ≤ run.length → (run.sim c).core.currCycle = c
  | 0, _ => by
    obtain ⟨k, hk⟩ := hstart.core
    rw [hk]
    rfl
  | c + 1, hc => by
    have hsucc : (run.sim (c + 1)).core.currCycle = (run.sim c).core.currCycle + 1 :=
      run.toCoreRun.currCycle_succ hc
    rw [hsucc, currCycle_eq hstart (Nat.le_of_succ_le hc)]

section Start

/-- Nothing arrives in the first two cycles. -/
theorem arrived_of_lt_two (hc : c ≤ run.length) (h : c < 2) :
    (run.sim c).core.backend.arrived = [] := by
  refine List.eq_nil_iff_forall_not_mem.2 fun z hz => ?_
  obtain ⟨path, hp⟩ := (run.toCoreRun.toBackendRun.mem_arrived_iff hc).1 hz
  obtain ⟨d, x, ⟨-, hd, -⟩, -⟩ := run.toCoreRun.arrives_of_arrivedOn hc hp
  have := x.path.latency_pos run.latency_ge
  have hlat : d + 1 + x.path.latency run.longAluLatency = c := hd
  omega

theorem sent_zero (hstart : run.StartsLike arch) (hlen : 0 < run.length) :
    run.toCoreRun.sent 0 = none := by
  obtain ⟨k, hk⟩ := hstart.core
  have hread : Decode.readInstr (run.decodeIn 0) = none := by
    unfold Decode.readInstr decodeIn Core.decodeIn
    rw [hk, hstart.fromFetch]
    rfl
  rcases (run.toCoreRun.decode_cases hlen).2 with ⟨-, ho⟩ | ⟨x, hh⟩ | ⟨x, y, hg⟩
  · unfold CoreRun.sent
    rw [ho]
  · exact absurd (hread.symm.trans hh.readInstr) (Option.some_ne_none x).symm
  · exact absurd (hread.symm.trans hg.readInstr) (Option.some_ne_none x).symm

theorem simulates_zero (hstart : run.StartsLike arch) (hlen : 2 ≤ run.length) :
    run.Simulates arch 0 := by
  obtain ⟨k, hk⟩ := hstart.core
  have hlt₀ : 0 < run.toCoreRun.length := by
    show 0 < run.length
    omega
  have hlt₁ : 1 < run.toCoreRun.length := hlen
  have h0 : run.toCoreRun.Bubble 0 :=
    CoreRun.bubble hlt₀ (.inr (arrived_of_lt_two (Nat.zero_le _) (by decide)))
  have h1 : run.toCoreRun.Bubble 1 :=
    CoreRun.bubble hlt₁ (.inr (arrived_of_lt_two (by omega) (by decide)))
  have hmem0 : (run.sim 0).core.mem = (arch.sim 0).mem := by
    rw [hk]
    rfl
  have hmem1 : (run.sim 1).core.mem = (run.sim 0).core.mem :=
    h0.mem.trans (CoreRun.memAfter_of_lt_two hlt₀ (by decide))
  have hmem2 : (run.sim 2).core.mem = (run.sim 1).core.mem :=
    h1.mem.trans (CoreRun.memAfter_of_lt_two hlt₁ (by decide))
  have hwb : (run.sim 2).core.fromWriteback = {} :=
    h1.fromWriteback.trans (run.toCoreRun.pending_eq hlt₀)
  refine ⟨⟨sent_zero hstart (by omega), fun v hv hv2 => ?_, fun v hv hv2 => ?_⟩, fun v hv => ?_,
    rfl, ⟨[], rfl, ?_, ?_, Nat.zero_le _⟩, fun _ h => absurd h (by decide)⟩
  · obtain rfl : v = 2 := by omega
    exact congrArg WritebackOut.trap hwb
  · obtain rfl : v = 2 := by omega
    exact congrArg WritebackOut.target hwb
  · have hv0 : v - 2 = 0 := by omega
    rw [hv0]
    show _ = (arch.sim 0).mem
    rw [← hmem0]
    have hcases : v = 0 ∨ v = 1 ∨ v = 2 := by omega
    rcases hcases with rfl | rfl | rfl
    · rfl
    · exact hmem1
    · exact hmem2.trans hmem1
  · rw [hk]
    rfl
  · rw [hk]
    exact le_rfl

/-- In the first cycle Fetch sees the target that was set before the run. -/
theorem front_one (hstart : run.StartsLike arch) (hlen : 1 ≤ run.length) : run.Front arch 1 0 := by
  obtain ⟨k, hk⟩ := hstart.core
  have h0 : run.toCoreRun.Bubble 0 :=
    CoreRun.bubble hlen (.inr (arrived_of_lt_two (Nat.zero_le _) (by decide)))
  have hwb : (run.sim 1).core.fromWriteback = (run.sim 0).core.pending := h0.fromWriteback
  rw [hk] at hwb
  have hselect : Fetch.selectTarget (run.sim 0).core.fetchIn (run.sim 0).fromFetch = none := by
    rw [hk, hstart.fromFetch]
    rfl
  have hports : (run.sim 1).fromFetch = {} := by
    obtain ⟨-, hi | ⟨m, missed, hm⟩⟩ := (run.reachable (Nat.zero_le _)).states
    · rw [(fetch_clock (c := 0) (by omega)).1]
      exact (hi.clock_bubble _ run.isa _ hselect).1
    · have hmiss := hm.hitOrMiss
      rw [hstart.fromFetch] at hmiss
      cases hmiss
  refine .idle (.inl ?_) (Fetch.steered_of_redirect (run.reachable hlen).states.2 ?_ (.inr ?_))
  · unfold Decode.hasFlush decodeIn Core.decodeIn
    rw [hwb]
    simp [Core.setTarget]
  · unfold Fetch.redirect Core.fetchIn
    rw [hwb]
    rfl
  · rw [hports]

end Start

section Results

/-- What is pending are the instructions that come next after those written back. -/
theorem Written.map_pending (h : run.Written arch c done)
    (hpassed : (run.toCoreRun.passed c).map (·.toFuncInstr)
      = (List.range (run.toCoreRun.passed c).length).map arch.instr) :
    (run.toCoreRun.pending c).map (·.toFuncInstr)
      = (List.range' done.length (run.toCoreRun.pending c).length).map arch.instr := by
  rw [h.passed, List.length_append, List.range_eq_range', ← List.range'_append_1, List.map_append,
    List.map_append, Nat.zero_add] at hpassed
  exact (List.append_inj hpassed (by simp)).2

/-- A register that the driver writes has its value, if nothing else is going to write it. -/
theorem get_written_of_driverWrites (hisa : IsSupported run.isa) (hstart : run.StartsLike arch)
    (hw : run.Written arch c done) (hc : c ≤ run.length)
    (heq : run.toCoreRun.inFlightResults c = run.toCoreRun.pending c)
    (hi : (run.toCoreRun.passed c).length ≤ arch.length) {rf : RF w}
    (hrf : run.toCoreRun.written c = .ok rf) (hnum : run.isa.DriverWrites num)
    (hsafe : (∀ d y, ¬ run.toCoreRun.InFlight c d y)
      ∨ run.isa.DriverLeaves (run.sim c).core.rf num
        ∧ ∀ d y, run.toCoreRun.InFlight c d y → y.writes num = false) :
    rf.get num = (arch.sim (run.toCoreRun.passed c).length).rf.get num := by
  rcases hsafe with hnone | ⟨⟨instr, result, ht, hr, hsame⟩, hother⟩
  · -- nothing is pending
    have hnil : run.toCoreRun.inFlightResults c = [] := by
      refine List.filterMap_eq_nil_iff.2 fun d hd => ?_
      refine Option.eq_none_iff_forall_ne_some.2 fun z hz => ?_
      obtain ⟨y, hy, -⟩ := (CoreRun.resultOf_eq_some_iff (List.mem_range.1 hd)).1 hz
      exact hnone d y hy
    unfold CoreRun.written at hrf
    rw [hnil] at hrf
    cases hrf
    rw [hw.passed, ← heq, hnil, List.append_nil, ← hw.rf]
    rfl
  · rw [CoreRun.get_written_of_isInRF hisa (decodesDuring hstart.fromFetch) hc hrf
      ((CoreRun.isInRF_iff hc).2 hother)]
    rcases Nat.eq_zero_or_pos (run.toCoreRun.passed c).length with h0 | hpos
    · have hdone : done.length = 0 := by
        rw [hw.passed, List.length_append] at h0
        omega
      rw [h0, ← hdone, ← hw.rf]
      rfl
    · rw [FuncRun.get_rf_of_driverWrites hisa hnum ht hr hpos hi, hsame]
      rfl

/-- What passes in a cycle is the next instruction, with the operands that the functional simulator
reads. -/
theorem current_of_passes (hisa : IsSupported run.isa) (hstart : run.StartsLike arch)
    (hs : run.Simulates arch c) (hlen : c + 2 ≤ run.length) (hsafe : run.StepSafe c)
    (hy : run.toCoreRun.passes c = some y)
    (hi : (run.toCoreRun.passed c).length < arch.length) :
    (∃ x q unit rf, Decode.LetsGo unit rf (run.decodeIn c) (run.sim (c + 1)).core.fromDecode x y
      ∧ arch.Fetched (run.toCoreRun.passed c).length x ∧ run.Headed q c
      ∧ (q = x.goesOnAt ∨ (run.decodeIn c).stallDatapath = none ∧ q = x.getPredictedTarget))
      ∧ run.toCoreRun.operands c y
        = (arch.sim (run.toCoreRun.passed c).length).current run.isa := by
  obtain ⟨hdisc, hsent⟩ := CoreRun.passes_eq_some_iff.1 hy
  have hc := hs.calm.pos_of_sent hsent
  have hlt : c < run.toCoreRun.length := by
    show c < run.length
    omega
  obtain ⟨x, hg⟩ := run.toCoreRun.letsGo hlt hsent
  obtain ⟨x', q, hread, hx, hq, hnext⟩ : ∃ x' q, Decode.readInstr (run.decodeIn c) = some x'
      ∧ arch.Fetched (run.toCoreRun.passed c).length x' ∧ run.Headed q c
      ∧ (q = x'.goesOnAt ∨ (run.decodeIn c).stallDatapath = none ∧ q = x'.getPredictedTarget) := by
    cases hs.front hdisc hc hi with
    | idle hnone _ =>
      rcases hnone with hf | hn
      · exact absurd (hg.noFlush.symm.trans hf) (by decide)
      · exact absurd (hn.symm.trans hg.readInstr) (Option.some_ne_none x).symm
    | busy x' q _ hread hx hq hnext => exact ⟨x', q, hread, hx, hq, hnext⟩
  obtain rfl : x' = x := Option.some.inj (hread.symm.trans hg.readInstr)
  refine ⟨⟨x', q, _, _, hg, hx, hq, hnext⟩, ?_⟩
  -- the registers when all that is pending has been written back
  obtain ⟨done, hw⟩ := hs.written
  have hlength : done.length + (run.toCoreRun.pending c).length
      = (run.toCoreRun.passed c).length := by
    rw [hw.passed, List.length_append]
  have hagrees₀ : (arch.sim done.length).rf.Agrees run.isa (run.sim c).core.rf := by
    rw [hw.rf]
    exact .refl _ _
  obtain ⟨rf, hall, hagrees⟩ := FuncRun.writeAll hisa hagrees₀ (hw.map_pending hs.passed)
    (by rw [hlength]; exact hi.le)
  rw [hlength] at hagrees
  have hflush : (run.sim c).core.flush = false := run.toCoreRun.flush_of_sent hlt hsent
  have hflush' : (run.sim (c + 1)).core.flush = false :=
    (hs.calm.flush_eq (v := c + 1) (by omega) (by omega)).trans (Bool.or_eq_false_iff.1 hdisc).1
  have heq := hs.calm.inFlightResults_eq hlen (by omega) hflush hflush'
  have hwritten : run.toCoreRun.written c = .ok rf := by
    unfold CoreRun.written
    rw [heq]
    exact hall
  have hval : ∀ index, (run.toCoreRun.operands c y).vSrc index
      = (arch.sim (run.toCoreRun.passed c).length).rf.get (x'.getSrc index) := by
    intro index
    rw [CoreRun.vSrc_operands_written hisa (decodesDuring hstart.fromFetch) hlt hsafe.operands hsent
      hwritten, ← hg.carried.getSrc index]
    by_cases hnum : run.isa.DriverWrites (y.getSrc index)
    · exact get_written_of_driverWrites hisa hstart hw hlt.le heq hi.le hwritten hnum
        (hsafe.driver y index hsent hnum)
    · exact hagrees.get _ hnum
  obtain ⟨v₀, v₁, hop⟩ : FuncInstr.SameButSources x'.toFuncInstr (run.toCoreRun.operands c y) :=
    CoreRun.sameButSources_operands hg
  have h0 := hval 0
  have h1 := hval 1
  rw [hop] at h0 h1 ⊢
  have hv₀ : v₀ = (arch.sim (run.toCoreRun.passed c).length).rf.get x'.src0 := h0
  have hv₁ : v₁ = (arch.sim (run.toCoreRun.passed c).length).rf.get x'.src1 := h1
  rw [hv₀, hv₁, hx.instr]
  rfl

/-- It is executed as the functional simulator executes it, and leaves the memory as that does. -/
theorem result_of_passes (hisa : IsSupported run.isa) (hs : run.Simulates arch c)
    (hlen : c + 2 < run.length) (hy : run.toCoreRun.passes c = some y)
    (hi : (run.toCoreRun.passed c).length < arch.length)
    (hop : run.toCoreRun.operands c y
      = (arch.sim (run.toCoreRun.passed c).length).current run.isa) :
    (run.toCoreRun.outcome c y).toFuncInstr = arch.instr (run.toCoreRun.passed c).length
      ∧ run.toCoreRun.memAfter (c + 2)
        = (arch.sim ((run.toCoreRun.passed c).length + 1)).mem := by
  have hexec : (run.toCoreRun.execution c y).toFuncInstr
      = ((arch.sim (run.toCoreRun.passed c).length).current run.isa).execute := by
    rw [← hop]
    rfl
  have hmem : (run.toCoreRun.core (c + 2)).mem
      = (arch.sim (run.toCoreRun.passed c).length).mem := hs.mem (c + 2) le_rfl
  have haccess := (FuncRun.next hisa hi (FuncRun.delayedSlots_eq hisa hi.le)).accessed
  rcases hs.calm.access le_rfl hlen with ⟨hnone, -⟩ | ⟨x, f, hx, hl⟩
  · rw [hy] at hnone
    cases hnone
  · obtain rfl : y = x := Option.some.inj (hy.symm.trans hx)
    rw [hmem, hexec, haccess] at hl
    obtain ⟨hf, hafter⟩ := Prod.mk.inj (Except.ok.inj hl)
    refine ⟨?_, hafter.symm⟩
    unfold CoreRun.outcome
    rw [hmem, hexec, haccess]
    rfl

theorem mem_passed {d : ℕ} (hx : run.toCoreRun.passes d = some x) (hd : d < n) :
    run.toCoreRun.outcome d x ∈ run.toCoreRun.passed n :=
  List.mem_filterMap.2 ⟨d, List.mem_range.2 hd, by rw [hx]; rfl⟩

/-- What has passed has no trap, if it is what the functional simulator executes. -/
theorem trap_of_arrived (hs : run.Simulates arch c) (hlen : c + 2 ≤ run.length)
    (hpassed : (run.toCoreRun.passed (c + 1)).map (·.toFuncInstr)
      = (List.range (run.toCoreRun.passed (c + 1)).length).map arch.instr)
    (hle : (run.toCoreRun.passed (c + 1)).length ≤ arch.length) (hv : v ≤ c + 2)
    (hz : z ∈ (run.sim v).core.backend.arrived) : z.trap = .noTrap := by
  obtain ⟨d, x, hx, hd, rfl⟩ := hs.calm.exists_passes hlen hv hz
  have hpos := x.path.latency_pos run.latency_ge
  have hd' : d + 1 + x.path.latency run.longAluLatency = v := hd
  have hmem := List.mem_map_of_mem (f := fun x : PerfInstr w => x.toFuncInstr)
    (mem_passed (n := c + 1) hx (by omega))
  rw [hpassed] at hmem
  obtain ⟨i, hi, heq⟩ := List.mem_map.1 hmem
  rw [← heq]
  exact arch.trap i ((List.mem_range.1 hi).trans_le hle)

end Results

section Step

theorem length_passed_le (h : c ≤ n) :
    (run.toCoreRun.passed c).length ≤ (run.toCoreRun.passed n).length := by
  induction n, h using Nat.le_induction with
  | base => exact le_rfl
  | succ n _ ih =>
    rw [CoreRun.passed_succ, List.length_append]
    omega

/-- One more cycle: what passes is the next instruction, and Mem leaves the memory as that does. -/
theorem Simulates.passed_succ (hisa : IsSupported run.isa) (hstart : run.StartsLike arch)
    (hs : run.Simulates arch c) (hlen : c + 3 ≤ run.length)
    (hle : (run.toCoreRun.passed (c + 1)).length ≤ arch.length)
    (hsafe : run.toCoreRun.discarded c = false → run.StepSafe c) :
    (run.toCoreRun.passed (c + 1)).map (·.toFuncInstr)
        = (List.range (run.toCoreRun.passed (c + 1)).length).map arch.instr
      ∧ run.toCoreRun.memAfter (c + 2)
        = (arch.sim (run.toCoreRun.passed (c + 1)).length).mem := by
  rw [CoreRun.passed_succ] at hle ⊢
  rcases hy : run.toCoreRun.passes c with _ | y
  · rw [Option.map_none, Option.toList_none, List.append_nil]
    refine ⟨hs.passed, ?_⟩
    rcases hs.calm.access le_rfl (show c + 2 < run.length by omega) with ⟨-, hm⟩ | ⟨x, -, hx, -⟩
    · rw [hm]
      exact hs.mem (c + 2) le_rfl
    · rw [hy] at hx
      cases hx
  · rw [hy, Option.map_some, Option.toList_some, List.length_append, List.length_singleton] at hle
    obtain ⟨-, hop⟩ := current_of_passes hisa hstart hs (by omega)
      (hsafe (CoreRun.passes_eq_some_iff.1 hy).1) hy hle
    obtain ⟨hinstr, hmem⟩ := result_of_passes hisa hs (by omega) hy hle hop
    rw [Option.map_some, Option.toList_some, List.length_append, List.length_singleton,
      List.range_succ, List.map_append, List.map_append, hs.passed, List.map_singleton,
      List.map_singleton, hinstr]
    exact ⟨rfl, hmem⟩

/-- Nothing traps in Writeback, and it leaves the memory to Mem. -/
theorem Simulates.calm_succ (hisa : IsSupported run.isa) (hs : run.Simulates arch c)
    (hlen : c + 3 ≤ run.length)
    (hno : ∀ z ∈ (run.sim (c + 2)).core.backend.arrived, z.trap = .noTrap) :
    run.toCoreRun.Calm (c + 3)
      ∧ (run.sim (c + 3)).core.mem = run.toCoreRun.memAfter (c + 2) := by
  have hlt : c + 2 < run.toCoreRun.length := hlen
  have hpending : (run.toCoreRun.core (c + 2)).pending = {} :=
    CoreRun.pending_eq (Nat.lt_of_succ_lt hlt)
  have hsignals : (run.toCoreRun.core (c + 3)).fromWriteback.trap = false
      ∧ (run.toCoreRun.core (c + 3)).fromWriteback.target = none
      ∧ (run.toCoreRun.core (c + 3)).mem = run.toCoreRun.memAfter (c + 2) := by
    rcases hs.calm.writeback_cases hlt.le le_rfl hlt hno with ⟨-, hb⟩ | ⟨z, _, result, hone, hr⟩
    · rw [hb.fromWriteback, hpending]
      exact ⟨rfl, rfl, hb.mem⟩
    · have hz : z.trap = .noTrap := hno z (by
        rw [show (run.sim (c + 2)).core.backend.arrived = [z] from hone]
        exact List.mem_singleton_self z)
      obtain ⟨ht, hpc, -⟩ := hisa.driver hz hr.driver
      obtain ⟨htrap, htarget⟩ := hr.fromWriteback ht hpc
      rw [htrap, htarget, hpending]
      exact ⟨rfl, rfl, hr.mem⟩
  refine ⟨⟨hs.calm.first, fun v hv hvc => ?_, fun v hv hvc => ?_⟩, hsignals.2.2⟩
  · rcases Nat.lt_or_eq_of_le hvc with hlt | rfl
    · exact hs.calm.trap v hv (by omega)
    · exact hsignals.1
  · rcases Nat.lt_or_eq_of_le hvc with hlt | rfl
    · exact hs.calm.target v hv (by omega)
    · exact hsignals.2.1

/-- What arrives is the next instruction to be written back. -/
theorem Simulates.written_succ (hisa : IsSupported run.isa) (hstart : run.StartsLike arch)
    (hs : run.Simulates arch c) (hlen : c + 2 ≤ run.length)
    (hle : (run.toCoreRun.passed c).length ≤ arch.length)
    (hno : ∀ z ∈ (run.sim c).core.backend.arrived, z.trap = .noTrap) :
    ∃ done, run.Written arch (c + 1) done := by
  obtain ⟨done, hw⟩ := hs.written
  have hlt : c < run.toCoreRun.length := by
    show c < run.length
    omega
  have hcycle : (run.toCoreRun.core c).currCycle = c := currCycle_eq hstart hlt.le
  have hpatience := hw.patience
  have hlast := hw.last
  rcases hs.calm.writeback_cases hlen (by omega) hlt hno with
    ⟨hnil, hb⟩ | ⟨z, written, result, hone, hr⟩
  · have hunit : (run.sim (c + 1)).core.writeback = (run.sim c).core.writeback := hb.unit
    refine ⟨done, ?_, ?_, ?_, ?_⟩
    · rw [CoreRun.passed_succ, hs.calm.pending_succ_of_bubble hlen (by omega) hnil, hw.passed,
        List.append_assoc]
    · rw [← hw.rf]
      exact hb.rf
    · rw [hunit]
      exact hlast
    · have hlate := hb.patience
      rw [hcycle] at hlate
      rw [hunit]
      exact hlate
  · obtain ⟨rest, hpending, hsucc⟩ := hs.calm.pending_succ_of_arrived hlen (by omega) hone
    have hmap := hw.map_pending hs.passed
    rw [hpending, List.length_cons, List.range'_succ, List.map_cons, List.map_cons,
      List.cons.injEq] at hmap
    have hi : done.length < arch.length := by
      have hl := congrArg List.length hw.passed
      rw [hpending, List.length_append, List.length_cons] at hl
      omega
    obtain ⟨written', result', hw', hr', hrf⟩ :=
      (FuncRun.next hisa hi (FuncRun.delayedSlots_eq hisa hi.le)).written
    have hwrite := hr.writeDst
    have hdriver := hr.driver
    rw [show (run.toCoreRun.core c).rf = _ from hw.rf, hmap.1, hw'] at hwrite
    cases hwrite
    rw [hmap.1, show run.toCoreRun.isa = run.isa from rfl, hr'] at hdriver
    cases hdriver
    have hunit : (run.sim (c + 1)).core.writeback.lastWritebackCycle = c := hr.unit.trans hcycle
    refine ⟨done ++ [z], ?_, ?_, ?_, ?_⟩
    · rw [CoreRun.passed_succ, hsucc, hw.passed, hpending]
      simp
    · rw [List.length_append, List.length_singleton, hrf]
      exact hr.rf
    · rw [hunit, List.length_append, List.length_singleton]
      omega
    · rw [hunit]
      omega

section Front

/-- After a flush from Branch, Fetch gets the target of the last instruction that has passed. -/
theorem front_of_flush (hisa : IsSupported run.isa) (h : run.toCoreRun.Calm n) (hn : n ≤ run.length)
    (hc : 1 ≤ c) (hcn : c + 1 ≤ n)
    (hpassed : (run.toCoreRun.passed (c + 1)).map (·.toFuncInstr)
      = (List.range (run.toCoreRun.passed (c + 1)).length).map arch.instr)
    (hle : (run.toCoreRun.passed (c + 1)).length ≤ arch.length)
    (hf : (run.sim (c + 1)).core.flush = true) :
    run.Front arch (c + 1) (run.toCoreRun.passed (c + 1)).length := by
  obtain ⟨d, x, hd, hx, htarget⟩ := h.exists_redirect hn (v := c + 1) (by omega) hcn hf
  obtain rfl : c = d + 2 := by omega
  have hall : (run.sim (d + 3)).core.backend.fromBranch.flushAll = true :=
    (h.flush_eq (v := d + 3) (by omega) hcn).symm.trans hf
  -- what was let go behind it is discarded
  have hnone : ∀ e, e + 1 = d + 3 ∨ e + 2 = d + 3 → run.toCoreRun.passes e = none := by
    intro e he
    refine if_pos ?_
    show ((run.sim (e + 1)).core.backend.fromBranch.flushAll
      || (run.sim (e + 2)).core.backend.fromBranch.flushAll) = true
    rcases he with he | he <;> rw [he, hall] <;> simp
  have hsplit : run.toCoreRun.passed (d + 2 + 1)
      = run.toCoreRun.passed d ++ [run.toCoreRun.outcome d x] := by
    rw [CoreRun.passed_succ, CoreRun.passed_succ, CoreRun.passed_succ, hx, hnone (d + 1) (.inr rfl),
      hnone (d + 2) (.inl rfl)]
    simp
  rw [hsplit, List.length_append, List.length_singleton] at hpassed hle ⊢
  rw [List.range_succ, List.map_append, List.map_append, List.map_singleton,
    List.map_singleton] at hpassed
  have hlast : (run.toCoreRun.outcome d x).toFuncInstr
      = arch.instr (run.toCoreRun.passed d).length :=
    List.singleton_inj.1 (List.append_inj' hpassed rfl).2
  have hslots := FuncRun.delayedSlots_eq hisa (Nat.le_of_succ_le hle)
  have hnext := (FuncRun.next hisa hle hslots).target
  refine .idle (.inl ?_) (Fetch.steered_of_redirect (run.reachable (hcn.trans hn)).states.2 ?_
    (.inl (h.target (d + 3) (by omega) hcn)))
  · unfold Decode.hasFlush decodeIn Core.decodeIn
    rw [show (run.sim (d + 2 + 1)).core.backend.fromBranch.flushAll = true from hall]
    simp
  · have hext : (run.sim (d + 2 + 1)).core.fromWriteback.target = none :=
      h.target (d + 3) (by omega) hcn
    have htarget' : (run.sim (d + 2 + 1)).core.backend.fromBranch.flushTarget = _ := htarget
    unfold Fetch.redirect Core.fetchIn
    rw [hext, htarget', hnext, ← hlast]
    rfl

/-- Decode lets an instruction go that Branch is going to accept: the next one follows. -/
theorem front_of_passes (hisa : IsSupported run.isa) (hstart : run.StartsLike arch)
    (hs : run.Simulates arch c) (hlen : c + 3 ≤ run.length) (hsafe : run.StepSafe c)
    (hsafe' : run.StepSafe (c + 1)) (hdisc : run.toCoreRun.discarded (c + 1) = false)
    (hy : run.toCoreRun.passes c = some y)
    (hlt : (run.toCoreRun.passed c).length + 1 < arch.length)
    (hf : (run.sim (c + 1)).core.flush = false) :
    run.Front arch (c + 1) ((run.toCoreRun.passed c).length + 1) := by
  have hi := Nat.lt_of_succ_lt hlt
  have hsent := (CoreRun.passes_eq_some_iff.1 hy).2
  obtain ⟨⟨x, q, _, _, hg, hx, hq, hnext⟩, hop⟩ :=
    current_of_passes hisa hstart hs (by omega) hsafe hy hi
  have hjump : y.isJump = x.isJump := by
    unfold FuncInstr.isJump FuncInstr.isDirectJump FuncInstr.isBranch FuncInstr.isCommonBranch
      FuncInstr.isLikelyBranch FuncInstr.isIndirectJump
    rw [hg.carried.operation]
  have hgoes : x.goesOnAt = arch.target ((run.toCoreRun.passed c).length + 1) := by
    refine hx.goesOnAt hisa hi ?_ fun hj => ?_
    · rw [← hjump, ← hg.carried.bpData, ← hg.carried.PC]
      exact hsafe.prediction y hsent
    · have hacc := hs.calm.accepted le_rfl (show c + 2 < run.length by omega) hy
        (FuncRun.path_of_isJump (hjump.trans hj)) (Bool.or_eq_false_iff.1 hdisc).2
      rw [hg.carried.bpData] at hacc
      rw [← hop]
      exact hacc
  exact front_of_sent hs.calm (by omega) (hs.calm.pos_of_sent hsent) (by omega) hf hg hq hnext hgoes
    (fetched_fetchedFrom hisa hstart (by omega) (hs.mem c (by omega))
      ((length_passed_le (Nat.sub_le c 2)).trans (Nat.le_succ _)) hlt) hsafe'.redirected

/-- The front end goes on to the next instruction to be let go. -/
theorem Simulates.front_succ (hisa : IsSupported run.isa) (hstart : run.StartsLike arch)
    (hs : run.Simulates arch c) (hlen : c + 3 ≤ run.length)
    (hpassed : (run.toCoreRun.passed (c + 1)).map (·.toFuncInstr)
      = (List.range (run.toCoreRun.passed (c + 1)).length).map arch.instr)
    (hsafe : run.toCoreRun.discarded c = false → run.StepSafe c) (hsafe' : run.StepSafe (c + 1))
    (hdisc : run.toCoreRun.discarded (c + 1) = false)
    (hlt : (run.toCoreRun.passed (c + 1)).length < arch.length) :
    run.Front arch (c + 1) (run.toCoreRun.passed (c + 1)).length := by
  obtain ⟨h₂, -⟩ := Bool.or_eq_false_iff.1 hdisc
  rcases Nat.eq_zero_or_pos c with rfl | hc
  · have hnil : run.toCoreRun.passed 1 = [] := by
      have hnone : run.toCoreRun.passes 0 = none := by
        refine Option.eq_none_iff_forall_ne_some.2 fun y hy => ?_
        have hsent := (CoreRun.passes_eq_some_iff.1 hy).2
        rw [hs.calm.first] at hsent
        cases hsent
      rw [CoreRun.passed_succ, hnone]
      rfl
    rw [hnil]
    exact front_one hstart (by omega)
  rcases hf : (run.sim (c + 1)).core.flush with _ | _
  · have hdisc' : run.toCoreRun.discarded c = false :=
      Bool.or_eq_false_iff.2 ⟨CoreRun.flushAll_of_flush hf, h₂⟩
    rcases hy : run.toCoreRun.passes c with _ | y
    · rw [CoreRun.passed_succ, hy, Option.map_none, Option.toList_none, List.append_nil] at hlt ⊢
      have hnone : run.toCoreRun.sent c = none := by
        unfold CoreRun.passes at hy
        rwa [if_neg (by simp [hdisc'])] at hy
      have hfront := hs.front hdisc' hc hlt
      have hz := fetched_fetchedFrom hisa hstart (by omega) (hs.mem c (by omega))
        (length_passed_le (Nat.sub_le c 2)) hlt
      rcases (run.toCoreRun.decode_cases (show c < run.length by omega)).2 with
        ⟨hnothing, ho⟩ | ⟨x, hh⟩ | ⟨x, y, hg⟩
      · cases hfront with
        | idle _ hhead => exact front_of_idle hs.calm (by omega) hc (by omega) hf ho hhead hz
        | busy x q hno hread _ _ _ =>
          rcases hnothing with hflush | hnone'
          · exact absurd (hno.symm.trans hflush) (by decide)
          · exact absurd (hread.symm.trans hnone') (Option.some_ne_none x)
      · cases hfront with
        | idle hnothing _ =>
          rcases hnothing with hflush | hnone'
          · exact absurd (hh.noFlush.symm.trans hflush) (by decide)
          · exact absurd (hh.readInstr.symm.trans hnone') (Option.some_ne_none x)
        | busy x' q _ hread hx hq hnext =>
          obtain rfl : x' = x := Option.some.inj (hread.symm.trans hh.readInstr)
          exact front_of_held hs.calm (by omega) hc (by omega) hf hh hx hq hnext hsafe'.resumes
      · rw [show run.toCoreRun.sent c = some y by unfold CoreRun.sent; rw [hg.out]] at hnone
        cases hnone
    · rw [CoreRun.passed_succ, hy, Option.map_some, Option.toList_some, List.length_append,
        List.length_singleton] at hlt ⊢
      exact front_of_passes hisa hstart hs hlen (hsafe hdisc') hsafe' hdisc hy hlt hf
  · exact front_of_flush hisa hs.calm (by omega) hc (by omega) hpassed hlt.le hf

end Front

theorem Simulates.succ (hisa : IsSupported run.isa) (hstart : run.StartsLike arch)
    (hs : run.Simulates arch c) (hlen : c + 3 ≤ run.length)
    (hle : (run.toCoreRun.passed (c + 1)).length ≤ arch.length)
    (hsafe : ∀ v ≤ c + 1, run.toCoreRun.discarded v = false → run.StepSafe v) :
    run.Simulates arch (c + 1) := by
  obtain ⟨hpassed, hmem⟩ := hs.passed_succ hisa hstart hlen hle (hsafe c (Nat.le_succ c))
  have hno : ∀ v ≤ c + 2, ∀ z ∈ (run.sim v).core.backend.arrived, z.trap = .noTrap :=
    fun v hv z hz => trap_of_arrived hs (by omega) hpassed hle hv hz
  obtain ⟨hcalm, hmem'⟩ := hs.calm_succ hisa hlen (hno _ le_rfl)
  refine ⟨hcalm, fun v hv => ?_, hpassed,
    hs.written_succ hisa hstart (by omega) ((length_passed_le (Nat.le_succ c)).trans hle)
      (hno c (by omega)), fun hdisc _ hlt => ?_⟩
  · rcases Nat.lt_or_eq_of_le hv with hv | rfl
    · exact hs.mem v (by omega)
    · exact hmem'.trans hmem
  · exact hs.front_succ hisa hstart hlen hpassed (hsafe c (Nat.le_succ c))
      (hsafe (c + 1) le_rfl hdisc) hdisc hlt

/-- A run in which nothing goes wrong, as long as the functional simulator has gone on. -/
theorem simulates (hisa : IsSupported run.isa) (hstart : run.StartsLike arch)
    (hsafe : ∀ c, c + 2 ≤ run.length → run.toCoreRun.discarded c = false → run.StepSafe c) :
    ∀ {c}, c + 2 ≤ run.length → (run.toCoreRun.passed c).length ≤ arch.length →
      run.Simulates arch c
  | 0, hc, _ => simulates_zero hstart hc
  | c + 1, hc, hle =>
    (simulates hisa hstart hsafe (Nat.le_of_succ_le hc)
      ((length_passed_le (Nat.le_succ c)).trans hle)).succ hisa hstart hc hle
        fun v hv => hsafe v (by omega)

end Step

end Simulation

/-- The pipeline executes the program, when in each cycle whose instruction is not discarded none of
these things goes wrong. -/
theorem follows_of_stepSafe (run : PerfRun w E M K) (hisa : IsSupported run.isa)
    (arch : FuncRun run.isa M) (hstart : run.StartsLike arch)
    (hsafe : ∀ c, c + 2 ≤ run.length → run.toCoreRun.discarded c = false → run.StepSafe c) :
    run.Follows arch := by
  intro n hn hle
  have hs := simulates hisa hstart hsafe hn hle
  obtain ⟨done, hw⟩ := hs.written
  refine ⟨hs.passed, ?_⟩
  have hlast := hw.last
  have hpatience := hw.patience
  rw [hw.passed, List.length_append]
  omega

end PerfRun

section Example

/-- From address 16 on `addiu $t0, $t0, 1; j 16`, and from address 24 on `mult $t0, $t1; j 40`. -/
def jumpMemory : PlainMemory where
  addrBits := 6
  arena := List.replicate 16 0#8
    ++ [0x01#8, 0x00#8, 0x08#8, 0x25#8, 0x04#8, 0x00#8, 0x00#8, 0x08#8]
    ++ [0x18#8, 0x00#8, 0x09#8, 0x01#8, 0x0a#8, 0x00#8, 0x00#8, 0x08#8]
    ++ List.replicate 8 0#8
    ++ [0x01#8, 0x00#8, 0x08#8, 0x34#8, 0x02#8, 0x00#8, 0x09#8, 0x34#8]
    ++ List.replicate 16 0#8
  host _ := 0#8
  bits_lt := PlainMemory.six_bits_lt
  length_arena := rfl

def jumpFuncSim (start : Addr) : FuncSim 32 PlainMemory :=
  (FuncSim.create (Mips.isa .mars) .little 16 jumpMemory).setTarget start 0#64

/-- A MARS simulator that always predicts to go on; its cache always hits. -/
def jumpPerfSim (start : Addr) : PerfSim 32 (BPEntryAlways false) PlainMemory Unit :=
  PerfSim.setTarget
    { fetch :=
        { config := ⟨.noPrefetch, 32#32, 64#32⟩
          bp := ⟨fun _ _ => .mk, fun _ _ => 0#64, .infinite .create⟩
          tags := .alwaysHit
          memory := .create 32 .little 16 }
      core := .create (Mips.isa .mars) 5 jumpMemory () } ⟨start, 0#64⟩

/-- Its run from an address on, with a latency of five. -/
def jumpRun (start : Addr)
    (hok : ∀ c < 14, (((jumpPerfSim start).trajectory (.dummy 32 PlainMemory) (Mips.isa .mars)
      c).clock (.dummy 32 PlainMemory) (Mips.isa .mars)).isOk) :
    PerfRun 32 (BPEntryAlways false) PlainMemory Unit :=
  .ofStart (.dummy 32 PlainMemory) (Mips.isa .mars) (jumpPerfSim start) 5 14 (by decide) (by decide)
    ((Core.atStart_create _ _ _ _).setTarget _) (.create _ _ _ _ _) hok

def jumpArch (start : Addr)
    (hok : ∀ i < 8, (((jumpFuncSim start).trajectory (Mips.isa .mars) i).advance
      (Mips.isa .mars)).isSome)
    (hcode : ∀ j < 8, ∀ i ≤ j, fetch ((jumpFuncSim start).trajectory (Mips.isa .mars) j).imem.endian
        ((jumpFuncSim start).trajectory (Mips.isa .mars) i).mem
        ((jumpFuncSim start).trajectory (Mips.isa .mars) j).getPC
      = fetch ((jumpFuncSim start).trajectory (Mips.isa .mars) j).imem.endian
        ((jumpFuncSim start).trajectory (Mips.isa .mars) j).mem
        ((jumpFuncSim start).trajectory (Mips.isa .mars) j).getPC) :
    FuncRun (Mips.isa .mars) PlainMemory :=
  .ofStart (Mips.isa .mars) (jumpFuncSim start) 8 (.setTarget _ _ (.create _ _ _)) rfl hok
    (fun _ _ => .mars .mars _ _ _ (.inl rfl)) hcode

def loopRun : PerfRun 32 (BPEntryAlways false) PlainMemory Unit := jumpRun 16#64 (by decide +kernel)

def loopArch : FuncRun (Mips.isa .mars) PlainMemory :=
  jumpArch 16#64 (by decide +kernel) (by decide +kernel)

def stalledJumpRun : PerfRun 32 (BPEntryAlways false) PlainMemory Unit :=
  jumpRun 24#64 (by decide +kernel)

def stalledJumpArch : FuncRun (Mips.isa .mars) PlainMemory :=
  jumpArch 24#64 (by decide +kernel) (by decide +kernel)

theorem startsLike_loop : loopRun.StartsLike loopArch := ⟨⟨(), rfl⟩, rfl, rfl⟩

/-- In a run of the loop nothing is read from a second destination, nothing stalls, and all but the
jump is predicted to go on. -/
theorem checks_loop : ∀ c < 13, (loopRun.toCoreRun.sent c).all (fun x =>
      x.dst1.isZero && x.executor != .csrrs && (x.isJump || x.bpData.target == x.PC + 4#64))
    ∧ (loopRun.sim c).core.fetchIn.stall = false
    ∧ ((loopRun.sim c).core.fromDecode.flushFetch = true →
      (loopRun.sim c).core.fromDecode.flushTarget.isSome) := by
  decide +kernel

theorem stepSafe_loop {c : ℕ} (hc : c < 13) : loopRun.StepSafe c := by
  obtain ⟨hsent, hstall, hflush⟩ := checks_loop c hc
  refine ⟨fun x index d y _ hp => ?_, fun x index _ hd => ?_, fun x hx => ?_, fun _ hs => ?_,
    fun hf ht => ?_⟩
  · obtain ⟨hy, -⟩ := checks_loop d (hp.inFlight.lt.trans hc)
    rw [hp.inFlight.sent] at hy
    simp only [Option.all_some, Bool.and_eq_true, bne_iff_ne, ne_eq] at hy
    exact ⟨by simp [FuncInstr.writesSecond, hy.1.1], hy.1.2⟩
  · exact absurd hd (not_driverWrites_mips .mars _)
  · rw [hx] at hsent
    simp only [Option.all_some, Bool.and_eq_true, Bool.or_eq_true, beq_iff_eq] at hsent
    exact hsent.2
  · rw [hstall] at hs
    cases hs
  · have hsome := hflush hf
    rw [ht] at hsome
    cases hsome

/-- The pipeline goes round the loop as the functional simulator does, although each jump is
mispredicted, by Decode first and then by Branch. -/
theorem follows_of_stepSafe_loop : loopRun.StartsLike loopArch ∧ loopRun.Follows loopArch
    ∧ (loopRun.toCoreRun.passed 11).map (·.PC) = [16#64, 20#64, 16#64, 20#64, 16#64] :=
  ⟨startsLike_loop, loopRun.follows_of_stepSafe (.mips .mars) loopArch startsLike_loop
    (fun _ hc _ => stepSafe_loop (Nat.lt_of_succ_lt_succ hc)),
    by decide +kernel⟩

/-- The jump is found mispredicted while it stalls behind `mult`: Decode sends its target once, and
drops the instruction from there when it lets the jump go. -/
theorem instruction_dropped : IsSupported stalledJumpRun.isa
    ∧ stalledJumpRun.StartsLike stalledJumpArch ∧ ¬ stalledJumpRun.Follows stalledJumpArch := by
  refine ⟨.mips .mars, ⟨⟨(), rfl⟩, rfl, rfl⟩, fun h => ?_⟩
  have hpassed : (stalledJumpRun.toCoreRun.passed 9).map (·.PC) = [24#64, 28#64, 44#64] := by
    decide +kernel
  have harch : (List.range 3).map (fun i => (stalledJumpArch.instr i).PC)
      = [24#64, 28#64, 40#64] := by
    decide +kernel
  have hlen : (stalledJumpRun.toCoreRun.passed 9).length = 3 := by
    simpa using congrArg List.length hpassed
  obtain ⟨heq, -⟩ := h 9 (by decide) (by rw [hlen]; decide)
  have hPC := congrArg (List.map fun x : FuncInstr 32 => x.PC) heq
  rw [List.map_map, List.map_map, hlen] at hPC
  exact absurd (hpassed.symm.trans (hPC.trans harch)) (by decide)

end Example

end MiptMips
