import MiptMips.Pipeline.InOrder

/-!
# Flushes and the long-latency unit

A flush does not empty the long-latency unit: Execute lets the instructions in it come out, and
drops those that come out before a countdown from the last flush is over. What is in the unit when
a flush is seen is dropped, and what comes after is not. Decode does not let an instruction go that
would be done before one in the unit, so whatever caused the flush is older than all that is in
there and has not been flushed before.
-/

namespace MiptMips

open Machines

variable {w : ℕ} {M K : Type} [FuncMemory M]

namespace CoreRun

variable (run : CoreRun w M K) {c d r : ℕ} {x y : PerfInstr w}

section Model

/-- What is in the long-latency unit in a cycle, `r` cycles before it comes out. -/
def inside (c r : ℕ) : Option (PerfInstr w) :=
  (run.core c).backend.execute.longLatencyExecutionUnit.item r

/-- The flush that is seen in cycle `c` is because of the instruction that was let go in cycle `d`:
a jump that Branch found mispredicted, or an instruction that Writeback trapped on. -/
def FlushedBy (c d : ℕ) : Prop :=
  ((run.core c).backend.fromBranch.flushAll = true ∧ ∃ x, run.Arrives d c x ∧ x.path = .branch)
    ∨ (run.core c).fromWriteback.trap = true ∧ ∃ b, b + 1 = c ∧ ∃ x, run.Arrives d b x

/-- A flush before cycle `c` has hit what was let go in cycle `d`. -/
def HitBefore (d c : ℕ) : Prop := ∃ v, d < v ∧ v < c ∧ (run.core v).flush = true

/-- What comes out of the unit in a cycle goes nowhere. -/
def Drops (c : ℕ) (y : PerfInstr w) : Prop :=
  run.inside c 0 = some y
    ∧ (run.core (c + 1)).backend.fromExecute.longArithmeticBypass = none
    ∧ ∀ z ∈ (run.core (c + 1)).backend.fromExecute.writeback, z.path ≠ .long

end Model

section Inside

/-- The instructions in the unit, by the cycles they were let go in. -/
theorem inside_iff (hc : c ≤ run.length) : run.inside c r = some y
    ↔ r + 1 < run.longAluLatency ∧ ∃ d x, d + run.longAluLatency = c + r ∧ run.sent d = some x
      ∧ x.path = .long ∧ (run.core (d + 1)).flush = false ∧ run.execution d x = y := by
  have hge := run.latency_ge
  have hitem := run.toBackendRun.item_longLatencyExecutionUnit hc r
  rw [show run.inside c r = _ from hitem]
  constructor
  · intro h
    split_ifs at h with hr
    rcases run.toBackendRun.executedOn_iff.1 h with ⟨hex, hp⟩
    rcases he : c + r - (run.longAluLatency - 1) with _ | d
    · rw [show c + r - (run.toBackendRun.longAluLatency - 1) = 0 from he, run.executed_zero] at hex
      cases hex
    · rw [show c + r - (run.toBackendRun.longAluLatency - 1) = d + 1 from he] at hex
      rcases run.executed_succ_iff.1 hex with ⟨hf, x, hx, rfl⟩
      rw [(run.carried_execution d x).path] at hp
      have hr' : r < run.longAluLatency - 1 := hr.2
      exact ⟨by omega, d, x, by omega, hx, hp, hf, rfl⟩
  · rintro ⟨hr, d, x, hd, hx, hp, hf, rfl⟩
    have he : c + r - (run.longAluLatency - 1) = d + 1 := by omega
    have hin : run.toBackendRun.longAluLatency - 1 ≤ c + r
        ∧ r < run.toBackendRun.longAluLatency - 1 := by
      show run.longAluLatency - 1 ≤ c + r ∧ r < run.longAluLatency - 1
      omega
    rw [if_pos hin]
    refine run.toBackendRun.executedOn_iff.2 ⟨?_, by rw [(run.carried_execution d x).path, hp]⟩
    rw [show c + r - (run.toBackendRun.longAluLatency - 1) = d + 1 from he]
    exact run.executed_succ_iff.2 ⟨hf, x, hx, rfl⟩

/-- What is in the unit comes out when it is due. -/
theorem inside_out (hc : c + r ≤ run.length) (h : run.inside c r = some y) :
    run.inside (c + r) 0 = some y := by
  rcases (run.inside_iff (by omega)).1 h with ⟨hr, d, x, hd, hrest⟩
  exact (run.inside_iff hc).2 ⟨by omega, d, x, by omega, hrest⟩

/-- What is in the unit when a flush is seen is dropped when it comes out. -/
theorem drops_of_flush (hc : c + r < run.length) (hflush : (run.core c).flush = true)
    (h : run.inside c r = some y) : run.Drops (c + r) y := by
  rcases (run.inside_iff (by omega)).1 h with ⟨hr, d, x, hd, -⟩
  have hge := run.latency_ge
  have hnone : run.toBackendRun.longOut (c + r) = none := by
    rcases hout : run.toBackendRun.longOut (c + r) with _ | z
    · rfl
    · rcases (run.toBackendRun.longOut_iff hc.le).1 hout with ⟨e, he, -, hq⟩
      have he' : e + run.longAluLatency = c + r + 1 := he
      have hquiet : (run.core c).flush = false := hq c (by omega) (by omega)
      rw [hquiet] at hflush
      cases hflush
  have hports := (run.toBackendRun.fromExecute_eq hc).1
  have hports' : (run.core (c + r + 1)).backend.fromExecute = _ := hports
  refine ⟨run.inside_out hc.le h, ?_, fun z hz => ?_⟩
  · rw [hports', hnone]
    rfl
  · rw [hports', hnone] at hz
    have hpath := (run.toBackendRun.executedOn_iff.1 (Option.mem_toList.1 hz)).2
    rw [hpath]
    decide

end Inside

section Age

/-- Branch signals a misprediction of what it sends to Writeback. -/
theorem exists_of_flushAll (hc : c ≤ run.length)
    (h : (run.core c).backend.fromBranch.flushAll = true) :
    ∃ y, run.toBackendRun.arrivedOn .branch c = some y := by
  rcases c with _ | b
  · rw [run.start.backend] at h
    cases h
  · obtain ⟨-, -, hb⟩ := run.toBackendRun.cycle (c := b) hc
    have hb' : (run.core (b + 1)).backend.fromBranch = _ := hb
    show ∃ y, (run.core (b + 1)).backend.fromBranch.datapath = some y
    rw [hb'] at h ⊢
    unfold Branch.clock at h ⊢
    split at h
    · cases h
    · split_ifs at h with hf
      exact ⟨_, by rw [if_neg hf]⟩

/-- Without an instruction to write back, Writeback has nothing to tell. -/
theorem fromWriteback_of_bubble {a : ℕ} (ha : a + 1 < run.length)
    (h : (if (run.core (a + 1)).fromWriteback.trap then [] else
      (run.core (a + 1)).backend.arrived) = []) : (run.core (a + 2)).fromWriteback = {} := by
  obtain ⟨before⟩ := Core.clock_cases (run.step a (by omega))
  obtain ⟨step⟩ := Core.clock_cases (run.step (a + 1) ha)
  rcases WritebackState.clock_cases (by simp [h]) step.writeback with ⟨-, hwb⟩ | ⟨instr, hi, -⟩
  · rw [step.fromWriteback, hwb]
    exact before.pending
  · rw [h] at hi
    cases hi

/-- Writeback signals a trap of what has arrived there, or a target that was set before the run. -/
theorem exists_of_trap {b : ℕ} (hb : b < run.length)
    (h : (run.core (b + 1)).fromWriteback.trap = true) :
    b = 0 ∨ ∃ y, y ∈ (run.core b).backend.arrived := by
  rcases b with _ | a
  · exact .inl rfl
  · refine .inr (List.exists_mem_of_ne_nil _ fun hnil => ?_)
    rw [run.fromWriteback_of_bubble hb (by rw [hnil, ite_self])] at h
    cases h

/-- A flush has a cause, but for a target that is set before the run: then the unit is empty. -/
theorem exists_flushedBy (hc : c ≤ run.length) (hflush : (run.core c).flush = true) :
    (∃ cause, run.FlushedBy c cause) ∨ ∀ r, run.inside c r = none := by
  rcases Bool.or_eq_true_iff.1 hflush with hall | htrap
  · obtain ⟨y, hy⟩ := run.exists_of_flushAll hc hall
    obtain ⟨d, x, ha, hp, -⟩ := run.arrives_of_arrivedOn hc hy
    exact .inl ⟨d, .inl ⟨hall, x, ha, hp⟩⟩
  · rcases c with _ | b
    · rw [run.start.fromWriteback] at htrap
      cases htrap
    · rcases run.exists_of_trap hc htrap with rfl | ⟨y, hy⟩
      · refine .inr fun r => Option.eq_none_iff_forall_ne_some.2 fun y hy => ?_
        rcases (run.inside_iff hc).1 hy with ⟨hr, d, x, hd, -⟩
        omega
      · obtain ⟨path, hy⟩ := (run.toBackendRun.mem_arrived_iff (Nat.le_of_succ_le hc)).1 hy
        obtain ⟨d, x, ha, -⟩ := run.arrives_of_arrivedOn (Nat.le_of_succ_le hc) hy
        exact .inl ⟨d, .inr ⟨htrap, b, rfl, x, ha⟩⟩

/-- A flush is because of an instruction that has been executed by then. -/
theorem FlushedBy.arrives (h : run.FlushedBy c d) :
    (∃ x, run.Arrives d c x ∧ x.path = .branch) ∨ ∃ b x, b + 1 = c ∧ run.Arrives d b x := by
  rcases h with ⟨-, h⟩ | ⟨-, b, hb, x, h⟩
  · exact .inl h
  · exact .inr ⟨b, x, hb, h⟩

/-- An instruction that takes the long path and that no flush has hit is done after all that were
let go before it. -/
theorem lt_of_arrives (hc : c ≤ run.length) (hx : run.sent d = some x) (hp : x.path = .long)
    (hlive : ∀ v, d < v → v < c → (run.core v).flush = false) {d' : ℕ} {x' : PerfInstr w}
    (h : run.Arrives d' c x') (hlt : d < d') : d + run.longAluLatency + 1 < c := by
  obtain ⟨hx', hd', -⟩ := h
  have hpos := x'.path.latency_pos run.latency_ge
  have hs : run.schedule.started d = some run.longAluLatency := by
    show (run.sent d).map _ = _
    rw [hx, Option.map_some, hp]
    rfl
  have hs' : run.schedule.started d' = some (x'.path.latency run.longAluLatency) := by
    show (run.sent d').map _ = _
    rw [hx', Option.map_some]
  have hlen : d' < run.schedule.length := by
    show d' < run.length
    omega
  have hdone := Schedule.doneAt_lt hs hs' hlt hlen fun v hv hvd _ => hlive v hv (by omega)
  unfold Schedule.doneAt at hdone
  omega

/-- The cause of a flush is older than what is in the unit and no earlier flush has hit. -/
theorem lt_of_flushedBy (hc : c ≤ run.length) (hx : run.sent d = some x) (hp : x.path = .long)
    (hd : c ≤ d + run.longAluLatency)
    (hlive : ∀ v, d < v → v < c → (run.core v).flush = false) {cause : ℕ}
    (hcause : run.FlushedBy c cause) : cause < d := by
  have hge := run.latency_ge
  rcases Nat.lt_trichotomy cause d with hlt | rfl | hgt
  · exact hlt
  · rcases hcause.arrives with ⟨x', ha, hb⟩ | ⟨b, x', rfl, ha⟩
    · obtain rfl : x = x' := Option.some.inj (hx.symm.trans ha.1)
      rw [hp] at hb
      cases hb
    · obtain rfl : x = x' := Option.some.inj (hx.symm.trans ha.1)
      have hlat := ha.2.1
      rw [hp] at hlat
      simp only [ExecutionPath.latency] at hlat
      omega
  · rcases hcause.arrives with ⟨x', ha, -⟩ | ⟨b, x', rfl, ha⟩
    · have := run.lt_of_arrives hc hx hp hlive ha hgt
      omega
    · have := run.lt_of_arrives (by omega) hx hp (fun v hv hvb => hlive v hv (by omega)) ha hgt
      omega

end Age

section Filter

theorem not_hitBefore_iff :
    ¬ run.HitBefore d c ↔ ∀ v, d < v → v < c → (run.core v).flush = false := by
  simp [HitBefore]

/-- What no flush hits in the unit gets to Writeback and to the bypass port. -/
theorem long_of_arrives (hc : c ≤ run.length) (h : run.Arrives d c x) (hp : x.path = .long) :
    run.execution d x ∈ (run.core c).backend.arrived
      ∧ (run.core c).backend.fromExecute.longArithmeticBypass = some (run.execution d x).vDst := by
  obtain ⟨hx, hd, hlive⟩ := h
  have hge := run.latency_ge
  rw [hp] at hd
  simp only [ExecutionPath.latency] at hd
  obtain ⟨b, rfl⟩ : ∃ b, c = b + 1 := ⟨c - 1, by omega⟩
  have hpath := (run.carried_execution d x).path
  have hex : run.toBackendRun.executedOn .long (d + 1) = some (run.execution d x) :=
    run.toBackendRun.executedOn_iff.2
      ⟨run.executed_succ_iff.2 ⟨hlive (d + 1) (by omega) (by omega), x, hx, rfl⟩, by rw [hpath, hp]⟩
  have hout : run.toBackendRun.longOut b = some (run.execution d x) :=
    (run.toBackendRun.longOut_iff (Nat.le_of_succ_le hc)).2
      ⟨d + 1, hd, hex, fun v hv hvc => hlive v (by omega) hvc⟩
  constructor
  · exact (run.toBackendRun.mem_arrived_iff hc).2 ⟨.long, hout⟩
  · have hports := (run.toBackendRun.fromExecute_eq (c := b) hc).1
    rw [show (run.core (b + 1)).backend.fromExecute = _ from hports, hout]
    rfl

/-- The countdown drops what is in the unit when a flush is seen, all of it younger than the cause
unless an earlier flush has hit it, and nothing that is let go after it. -/
theorem flush_filter_exact (hc : c < run.length) (hflush : (run.core c).flush = true) :
    ((∃ cause, run.FlushedBy c cause) ∨ ∀ r, run.inside c r = none)
      ∧ (∀ r y, run.inside c r = some y → ∃ d x, run.sent d = some x ∧ Carried x y
          ∧ d + run.longAluLatency = c + r
          ∧ (run.HitBefore d c ∨ ∀ cause, run.FlushedBy c cause → cause < d)
          ∧ (c + r < run.length → run.Drops (c + r) y))
      ∧ ∀ d x b, c ≤ d → run.sent d = some x → d + 1 + x.path.latency run.longAluLatency = b →
          b ≤ run.length → run.HitBefore d b ∨ ∃ y ∈ (run.core b).backend.arrived, Carried x y
            ∧ (x.path = .long →
              (run.core b).backend.fromExecute.longArithmeticBypass = some y.vDst) := by
  refine ⟨run.exists_flushedBy hc.le hflush, fun r y hy => ?_, fun d x b _ hx hd hb => ?_⟩
  · rcases (run.inside_iff hc.le).1 hy with ⟨-, d, x, hd, hx, hp, -, rfl⟩
    refine ⟨d, x, hx, run.carried_execution d x, hd, ?_,
      fun hcr => run.drops_of_flush hcr hflush hy⟩
    by_cases hhit : run.HitBefore d c
    · exact .inl hhit
    · exact .inr fun cause hcause => run.lt_of_flushedBy hc.le hx hp (by omega)
        (run.not_hitBefore_iff.1 hhit) hcause
  · by_cases hhit : run.HitBefore d b
    · exact .inl hhit
    · have ha : run.Arrives d b x := ⟨hx, hd, run.not_hitBefore_iff.1 hhit⟩
      refine .inr ?_
      by_cases hp : x.path = .long
      · obtain ⟨hmem, hbypass⟩ := run.long_of_arrives hb ha hp
        exact ⟨_, hmem, run.carried_execution d x, fun _ => hbypass⟩
      · obtain ⟨y, hmem, hxy⟩ := run.arrived_of_arrives hb ha
        exact ⟨y, hmem, hxy, fun hlong => absurd hlong hp⟩

end Filter

end CoreRun

section Example

/-- `beq; mult; nop; nop; beq` with a latency of eight: both jumps are taken and mispredicted, and
the flush of the second is seen while what the first one flushed is still in the unit. -/
def twoFlushes : CoreRun 32 PlainMemory Unit :=
  .ofStart (.dummy 32 PlainMemory) (Mips.isa .mars)
    (marsStream [0x10000001#32, 0x01090018#32, 0x0#32, 0x0#32, 0x10000001#32])
    (.create (Mips.isa .mars) 8 (.create 4 PlainMemory.four_bits_lt fun _ => 0#8) ()) 8 10
    (by decide) (by decide) (Core.atStart_create _ _ _ _) (by decide +kernel)

theorem flush_filter_exact_twoFlushes :
    ((∃ cause, twoFlushes.FlushedBy 3 cause) ∨ ∀ r, twoFlushes.inside 3 r = none)
      ∧ (∀ r y, twoFlushes.inside 3 r = some y → ∃ d x, twoFlushes.sent d = some x ∧ Carried x y
          ∧ d + 8 = 3 + r
          ∧ (twoFlushes.HitBefore d 3 ∨ ∀ cause, twoFlushes.FlushedBy 3 cause → cause < d)
          ∧ (3 + r < 10 → twoFlushes.Drops (3 + r) y))
      ∧ ∀ d x b, 3 ≤ d → twoFlushes.sent d = some x → d + 1 + x.path.latency 8 = b → b ≤ 10 →
          twoFlushes.HitBefore d b ∨ ∃ y ∈ (twoFlushes.core b).backend.arrived, Carried x y
            ∧ (x.path = .long →
              (twoFlushes.core b).backend.fromExecute.longArithmeticBypass = some y.vDst) :=
  twoFlushes.flush_filter_exact (c := 3) (by decide) (by decide +kernel)

/-- What an earlier flush has hit stays in the unit, and is older than the cause of the next. -/
theorem not_forall_younger : ∃ cause r d y,
    (twoFlushes.core 7).flush = true ∧ twoFlushes.FlushedBy 7 cause
      ∧ twoFlushes.inside 7 r = some y ∧ d + 8 = 7 + r
      ∧ (∃ x, twoFlushes.sent d = some x ∧ Carried x y) ∧ d < cause := by
  have hflush : (twoFlushes.core 7).flush = true := by decide +kernel
  have hall : (twoFlushes.core 7).backend.fromBranch.flushAll = true := by decide +kernel
  have hsome : (twoFlushes.inside 7 2).isSome := by decide +kernel
  obtain ⟨y, hy⟩ := Option.isSome_iff_exists.1 hsome
  obtain ⟨-, d, x, hd, hx, -, -, rfl⟩ := (twoFlushes.inside_iff (by decide)).1 hy
  obtain rfl : d = 1 := by
    have hd : d + 8 = 7 + 2 := hd
    omega
  exact ⟨4, 2, 1, _, hflush,
    .inl ⟨hall, twoFlushes.exists_arrives (by decide +kernel) rfl (by decide +kernel)⟩, hy, rfl,
    ⟨x, hx, twoFlushes.carried_execution 1 x⟩, by decide⟩

end Example

end MiptMips
