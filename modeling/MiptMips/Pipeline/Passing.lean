import MiptMips.Pipeline.FlushFilter
import MiptMips.Pipeline.Operands

/-!
# What passes

A misprediction flush discards what Decode let go in the two cycles before it is seen. As long as
nothing traps, all else that is let go passes: no later flush hits it, and it gets to Writeback. So
the instructions that have passed are those that have been written back, followed by those that are
pending.
-/

namespace MiptMips

open Machines

variable {w : ℕ} {M K : Type} [FuncMemory M]

section Ranges

variable {α : Type}

theorem filterMap_range_succ (f : ℕ → Option α) (n : ℕ) :
    (List.range (n + 1)).filterMap f = (List.range n).filterMap f ++ (f n).toList := by
  rw [List.range_succ, List.filterMap_append]
  rcases h : f n with _ | z <;> simp [h]

/-- Two filters of a range that differ in one element, which comes before all others. -/
theorem filterMap_range_cons {f g : ℕ → Option α} {z : α} {d : ℕ} :
    ∀ {c}, d < c → f d = some z → g d = none → (∀ e < d, f e = none ∧ g e = none) →
      (∀ e, d < e → e < c → f e = g e) →
      (List.range c).filterMap f = z :: (List.range c).filterMap g
  | 0, hd, _, _, _, _ => absurd hd (Nat.not_lt_zero d)
  | c + 1, hd, hf, hg, hbefore, hafter => by
    rw [filterMap_range_succ, filterMap_range_succ]
    rcases Nat.lt_or_eq_of_le (Nat.le_of_lt_succ hd) with hlt | rfl
    · rw [filterMap_range_cons hlt hf hg hbefore fun e hde hec => hafter e hde (by omega),
        List.cons_append, hafter c hlt (Nat.lt_succ_self c)]
    · have hnil : ∀ h : ℕ → Option α, (∀ e < d, h e = none) → (List.range d).filterMap h = [] :=
        fun h hn => List.filterMap_eq_nil_iff.2 fun e he => hn e (List.mem_range.1 he)
      rw [hnil f fun e he => (hbefore e he).1, hnil g fun e he => (hbefore e he).2, hf, hg]
      rfl

end Ranges

namespace CoreRun

variable (run : CoreRun w M K) {n c d e v : ℕ} {x y z : PerfInstr w}

section Passes

/-- A flush from Branch discards what was let go one or two cycles before. -/
def discarded (d : ℕ) : Bool :=
  (run.core (d + 1)).backend.fromBranch.flushAll || (run.core (d + 2)).backend.fromBranch.flushAll

/-- The instruction that is let go in a cycle and not discarded. -/
def passes (d : ℕ) : Option (PerfInstr w) := if run.discarded d then none else run.sent d

/-- What has passed before a cycle, with its results. -/
def passed (n : ℕ) : List (PerfInstr w) :=
  (List.range n).filterMap fun d => (run.passes d).map (run.outcome d)

/-- Nothing has trapped by cycle `n`; the target before the run is signalled as a trap too. -/
structure Calm (n : ℕ) : Prop where
  first : run.sent 0 = none
  trap : ∀ v, 2 ≤ v → v ≤ n → (run.core v).fromWriteback.trap = false
  target : ∀ v, 2 ≤ v → v ≤ n → (run.core v).fromWriteback.target = none

variable {run}

theorem passes_eq_some_iff :
    run.passes d = some x ↔ run.discarded d = false ∧ run.sent d = some x := by
  unfold passes
  split_ifs with h <;> simp [h]

theorem Calm.mono (h : run.Calm n) (hc : c ≤ n) : run.Calm c :=
  ⟨h.first, fun v hv hvc => h.trap v hv (hvc.trans hc),
    fun v hv hvc => h.target v hv (hvc.trans hc)⟩

theorem Calm.flush_eq (h : run.Calm n) (hv : 2 ≤ v) (hvn : v ≤ n) :
    (run.core v).flush = (run.core v).backend.fromBranch.flushAll := by
  rw [Core.flush, h.trap v hv hvn, Bool.or_false]

theorem Calm.pos_of_sent (h : run.Calm n) (hx : run.sent d = some x) : 0 < d := by
  rcases d with _ | d
  · rw [h.first] at hx
    cases hx
  · exact Nat.succ_pos d

/-- A flush is because of a branch that was let go three cycles before. -/
theorem Calm.exists_branch (h : run.Calm n) (hn : n ≤ run.length) (hv : 2 ≤ v) (hvn : v ≤ n)
    (hf : (run.core v).flush = true) :
    ∃ b y, b + 3 = v ∧ run.Arrives b v y ∧ y.path = .branch := by
  rw [h.flush_eq hv hvn] at hf
  obtain ⟨z, hz⟩ := run.exists_of_flushAll (hvn.trans hn) hf
  obtain ⟨b, y, ha, hp, -⟩ := run.arrives_of_arrivedOn (hvn.trans hn) hz
  have hb := ha.2.1
  rw [hp] at hb
  exact ⟨b, y, hb, ha, hp⟩

theorem started_eq (hx : run.sent d = some x) :
    run.schedule.started d = some (x.path.latency run.longAluLatency) :=
  Option.map_eq_some_iff.2 ⟨x, hx, rfl⟩

/-- What is let go after an instruction that no flush has hit is done after it. -/
theorem done_lt (hx : run.sent d = some x) (hy : run.sent e = some y) (hde : d < e)
    (he : e < run.length) (hquiet : ∀ v, d < v → v < d + 1 + x.path.latency run.longAluLatency →
      v ≤ e → (run.core v).flush = false) :
    d + 1 + x.path.latency run.longAluLatency < e + 1 + y.path.latency run.longAluLatency :=
  Schedule.doneAt_lt (started_eq hx) (started_eq hy) hde he fun v hv hve hlt => hquiet v hv hlt hve

/-- No flush hits what passes. -/
theorem Calm.quiet (h : run.Calm n) (hn : n ≤ run.length) (hx : run.passes d = some x) (v : ℕ)
    (hdv : d < v) (hv : v < d + 1 + x.path.latency run.longAluLatency) (hvn : v ≤ n) :
    (run.core v).flush = false := by
  obtain ⟨hd, hx⟩ := passes_eq_some_iff.1 hx
  obtain ⟨h₁, h₂⟩ := Bool.or_eq_false_iff.1 hd
  have hpos := h.pos_of_sent hx
  induction v using Nat.strong_induction_on with
  | _ v ih =>
    by_contra hf
    rw [Bool.not_eq_false] at hf
    have hall := h.flush_eq (by omega) hvn
    rw [hf] at hall
    obtain ⟨b, y, rfl, ⟨hy, hlat, -⟩, hp⟩ := h.exists_branch hn (by omega) hvn hf
    have hne₁ : b + 3 ≠ d + 1 := by
      intro heq
      rw [heq, h₁] at hall
      cases hall
    have hne₂ : b + 3 ≠ d + 2 := by
      intro heq
      rw [heq, h₂] at hall
      cases hall
    rcases Nat.lt_or_eq_of_le (show d ≤ b by omega) with hlt | rfl
    · have := done_lt hx hy hlt (by omega) fun v hdv hv hvb => ih v (by omega) hdv hv (by omega)
      omega
    · obtain rfl : x = y := Option.some.inj (hx.symm.trans hy)
      omega

theorem Calm.arrives (h : run.Calm n) (hn : n ≤ run.length) (hx : run.passes d = some x)
    (hc : d + 1 + x.path.latency run.longAluLatency = c) (hcn : c ≤ n) : run.Arrives d c x :=
  ⟨(passes_eq_some_iff.1 hx).2, hc, fun v hv hvc => h.quiet hn hx v hv (by omega) (by omega)⟩

theorem flushAll_of_flush (hf : (run.core v).flush = false) :
    (run.core v).backend.fromBranch.flushAll = false := (Bool.or_eq_false_iff.1 hf).1

/-- What gets to Writeback has passed. -/
theorem Calm.passes (h : run.Calm n) (hn : n ≤ run.length) (ha : run.Arrives d c x) (hc : c ≤ n) :
    run.passes d = some x := by
  obtain ⟨hx, hd, hlive⟩ := ha
  have hpos := x.path.latency_pos run.latency_ge
  refine passes_eq_some_iff.2 ⟨Bool.or_eq_false_iff.2 ⟨?_, ?_⟩, hx⟩
  · exact flushAll_of_flush (hlive (d + 1) (by omega) (by omega))
  · rcases Nat.lt_or_ge (d + 2) c with hlt | hge
    · exact flushAll_of_flush (hlive (d + 2) (by omega) hlt)
    · -- it takes one cycle; a branch would arrive with it
      obtain rfl : d + 2 = c := by omega
      by_contra hf
      rw [Bool.not_eq_false, ← h.flush_eq (by omega) hc] at hf
      obtain ⟨b, y, hb, ha', -⟩ := h.exists_branch hn (by omega) hc hf
      obtain ⟨rfl, -⟩ := run.arrives_unique (hc.trans hn) ⟨hx, hd, hlive⟩ ha'
      omega

/-- What passes later is done later. -/
theorem Calm.done_lt (h : run.Calm n) (hn : n ≤ run.length) (hx : run.passes d = some x)
    (hy : run.passes e = some y) (hde : d < e) (he : e < n) :
    d + 1 + x.path.latency run.longAluLatency < e + 1 + y.path.latency run.longAluLatency :=
  CoreRun.done_lt (passes_eq_some_iff.1 hx).2 (passes_eq_some_iff.1 hy).2 hde (he.trans_le hn)
    fun v hv hlt hve => h.quiet hn hx v hv hlt (by omega)

end Passes

section Pending

/-- What has passed before cycle `c`, in cycle `d`, and is not written back yet. -/
def pendingOf (c d : ℕ) : Option (PerfInstr w) :=
  ((run.passes d).filter fun y => c ≤ d + 1 + y.path.latency run.longAluLatency).map (run.outcome d)

def pending (c : ℕ) : List (PerfInstr w) := (List.range c).filterMap (run.pendingOf c)

variable {run}

theorem pendingOf_eq_some_iff : run.pendingOf c d = some z ↔ ∃ y, run.passes d = some y
    ∧ c ≤ d + 1 + y.path.latency run.longAluLatency ∧ run.outcome d y = z := by
  simp only [pendingOf, Option.map_eq_some_iff, Option.filter_eq_some_iff, decide_eq_true_eq,
    and_assoc]

theorem pendingOf_eq_none_iff : run.pendingOf c d = none
    ↔ ∀ y, run.passes d = some y → d + 1 + y.path.latency run.longAluLatency < c := by
  simp [pendingOf]

/-- What passes in a cycle is pending in the next one. -/
theorem pendingOf_succ_self : run.pendingOf (c + 1) c = (run.passes c).map (run.outcome c) := by
  unfold pendingOf
  rcases run.passes c with _ | x
  · rfl
  · simp

theorem pending_succ : run.pending (c + 1)
    = (List.range c).filterMap (run.pendingOf (c + 1))
      ++ ((run.passes c).map (run.outcome c)).toList := by
  rw [pending, filterMap_range_succ, pendingOf_succ_self]

theorem passed_succ : run.passed (c + 1)
    = run.passed c ++ ((run.passes c).map (run.outcome c)).toList := filterMap_range_succ _ _

/-- What passes arrives when it is done. -/
theorem Calm.arrived_eq (h : run.Calm n) (hn : n ≤ run.length) (hx : run.passes d = some x)
    (hc : d + 1 + x.path.latency run.longAluLatency = c) (hcn : c ≤ n) :
    (run.core c).backend.arrived = [run.outcome d x] := by
  have hpos := x.path.latency_pos run.latency_ge
  have hflight : run.InFlight (d + x.path.latency run.longAluLatency) d x :=
    ⟨(passes_eq_some_iff.1 hx).2, by omega, by omega,
      fun v hv hvc => h.quiet hn hx v hv (by omega) (by omega)⟩
  exact hflight.arrived_eq hc (by omega) (hcn.trans hn)

/-- What arrives has passed. -/
theorem Calm.exists_passes (h : run.Calm n) (hn : n ≤ run.length) (hc : c ≤ n)
    (hz : z ∈ (run.core c).backend.arrived) : ∃ d x, run.passes d = some x
      ∧ d + 1 + x.path.latency run.longAluLatency = c ∧ run.outcome d x = z := by
  obtain ⟨path, hp⟩ := (run.toBackendRun.mem_arrived_iff (hc.trans hn)).1 hz
  obtain ⟨d, x, ha, -⟩ := run.arrives_of_arrivedOn (hc.trans hn) hp
  have hx := h.passes hn ha hc
  rw [h.arrived_eq hn hx ha.2.1 hc, List.mem_singleton] at hz
  exact ⟨d, x, hx, ha.2.1, hz.symm⟩

/-- Nothing arrives: all stays pending. -/
theorem Calm.pending_succ_of_bubble (h : run.Calm n) (hn : n ≤ run.length) (hc : c ≤ n)
    (hnil : (run.core c).backend.arrived = []) : run.pending (c + 1)
      = run.pending c ++ ((run.passes c).map (run.outcome c)).toList := by
  rw [pending_succ, pending]
  congr 1
  refine List.filterMap_congr fun d _ => Option.ext fun z => ?_
  simp only [pendingOf_eq_some_iff]
  refine exists_congr fun y => and_congr_right fun hy => and_congr_left fun _ => ?_
  have hne : d + 1 + y.path.latency run.longAluLatency ≠ c := by
    intro hd
    rw [h.arrived_eq hn hy hd hc] at hnil
    cases hnil
  omega

/-- What arrives is what has been pending for longest. -/
theorem Calm.pending_succ_of_arrived (h : run.Calm n) (hn : n ≤ run.length) (hc : c ≤ n)
    (hone : (run.core c).backend.arrived = [z]) : ∃ rest, run.pending c = z :: rest
      ∧ run.pending (c + 1) = rest ++ ((run.passes c).map (run.outcome c)).toList := by
  have hz : z ∈ (run.core c).backend.arrived := by
    rw [hone]
    exact List.mem_singleton_self z
  obtain ⟨d, x, hx, hd, rfl⟩ := h.exists_passes hn hc hz
  refine ⟨(List.range c).filterMap (run.pendingOf (c + 1)), ?_, pending_succ⟩
  refine filterMap_range_cons (d := d) (by omega) (pendingOf_eq_some_iff.2 ⟨x, hx, hd.ge, rfl⟩)
    (pendingOf_eq_none_iff.2 fun y hy => ?_) (fun e he => ?_) fun e hde hec => ?_
  · obtain rfl : x = y := Option.some.inj (hx.symm.trans hy)
    omega
  · have hdone : ∀ y, run.passes e = some y → e + 1 + y.path.latency run.longAluLatency < c := by
      intro y hy
      have := h.done_lt hn hy hx he (by omega)
      omega
    exact ⟨pendingOf_eq_none_iff.2 hdone,
      pendingOf_eq_none_iff.2 fun y hy => Nat.lt_succ_of_lt (hdone y hy)⟩
  · refine Option.ext fun z => ?_
    simp only [pendingOf_eq_some_iff]
    refine exists_congr fun y => and_congr_right fun hy => and_congr_left fun _ => ?_
    have := h.done_lt hn hx hy hde (by omega)
    omega

end Pending

section Settled

variable {run}

/-- Without a flush in this or the next two cycles, what is on its way is what is pending. -/
theorem Calm.inFlightResults_eq (h : run.Calm n) (hn : n ≤ run.length) (hc : c + 1 ≤ n)
    (hflush : (run.core c).flush = false) (hnext : (run.core (c + 1)).flush = false) :
    run.inFlightResults c = run.pending c := by
  refine List.filterMap_congr fun d hd => Option.ext fun z => ?_
  have hdc : d < c := List.mem_range.1 hd
  rw [resultOf_eq_some_iff hdc, pendingOf_eq_some_iff]
  constructor
  · rintro ⟨y, hy, rfl⟩
    refine ⟨y, passes_eq_some_iff.2 ⟨Bool.or_eq_false_iff.2 ⟨?_, ?_⟩, hy.sent⟩, hy.le, rfl⟩
    · exact flushAll_of_flush (hy.quiet (d + 1) (by omega) (by omega))
    · rcases Nat.lt_or_eq_of_le (show d + 2 ≤ c + 1 by omega) with hlt | heq
      · exact flushAll_of_flush (hy.quiet (d + 2) (by omega) (by omega))
      · rw [heq]
        exact flushAll_of_flush hnext
  · rintro ⟨y, hy, hle, rfl⟩
    refine ⟨y, ⟨(passes_eq_some_iff.1 hy).2, hdc, hle, fun v hdv hvc => ?_⟩, rfl⟩
    rcases Nat.lt_or_eq_of_le hvc with hlt | rfl
    · exact h.quiet hn hy v hdv (by omega) (by omega)
    · exact hflush

end Settled

end CoreRun

end MiptMips
