import MiptMips.Modules.Fetch

/-!
# A cycle of Fetch

Fetch is idle, or it waits for a line: then its long port holds the one address that missed. The
lemmas below say all that a cycle of either state can do.
-/

namespace MiptMips

open Machines

variable {w : ℕ} {E : Type}

namespace Fetch

section States

/-- No miss is going on. -/
structure Idle (fetch : Fetch w E) (ports : FetchOut w) : Prop where
  hitOrMiss : ports.hitOrMiss = false
  latency : fetch.longLatencyPCHolder.latency = longLatency
  holder : ∀ r, fetch.longLatencyPCHolder.item r = none

/-- The line of `target` comes in after `n` more cycles. -/
structure Missing (n : ℕ) (target : Target) (fetch : Fetch w E) (ports : FetchOut w) : Prop where
  hitOrMiss : ports.hitOrMiss = true
  latency : fetch.longLatencyPCHolder.latency = longLatency
  bound : n < longLatency
  holder : ∀ r, fetch.longLatencyPCHolder.item r = if r = n then some target else none

end States

section Keeps

/-- The parts of Fetch that choosing a target and prefetching leave alone. -/
structure Keeps (fetch fetch' : Fetch w E) : Prop where
  holder : fetch'.longLatencyPCHolder = fetch.longLatencyPCHolder
  memory : fetch'.memory = fetch.memory
  bp : fetch'.bp = fetch.bp

variable (fetch : Fetch w E)

theorem keeps_prefetch (addr : Addr) : Keeps fetch (fetch.prefetch addr) := ⟨rfl, rfl, rfl⟩

theorem keeps_getTarget (input : FetchIn) (ports : FetchOut w) :
    Keeps fetch (fetch.getTarget input ports).2 := by
  unfold getTarget
  dsimp only
  split_ifs
  · split <;> exact ⟨rfl, rfl, rfl⟩
  · exact ⟨rfl, rfl, rfl⟩

@[simp]
theorem fst_getTarget (input : FetchIn) (ports : FetchOut w) :
    (fetch.getTarget input ports).1 = selectTarget input ports := by
  unfold getTarget
  dsimp only
  split_ifs
  · split <;> rfl
  · rfl

theorem keeps_prefetchNextLine (addr : Addr) : Keeps fetch (fetch.prefetchNextLine addr) := by
  unfold prefetchNextLine
  dsimp only
  split_ifs
  · exact fetch.keeps_prefetch _
  · exact ⟨rfl, rfl, rfl⟩

/-- Prefetching the next line or not. -/
theorem keeps_ite (c : Prop) [Decidable c] (addr : Addr) :
    Keeps fetch (if c then fetch.prefetchNextLine addr else fetch) := by
  split_ifs
  · exact fetch.keeps_prefetchNextLine addr
  · exact ⟨rfl, rfl, rfl⟩

end Keeps

section Clock

variable {M : Type} [BPEntry E] [FuncMemory M] (fetch : Fetch w E) {ports : FetchOut w}
  {target : Target} {n : ℕ} (input : FetchIn) (isa : ISA w) (mem : M)

/-- The instruction that Fetch sends when it fetches a target. -/
def sent (target : Target) : PerfInstr w :=
  { (fetchInstr isa fetch.memory.endian mem target.address).setSequenceId target.sequenceId with
    bpData := (fetch.clockBp input).bp.getBpInfo target.address }

/-- What a cycle of a miss writes. -/
theorem clock_of_miss (h : ports.hitOrMiss = true) :
    (fetch.clock input ports isa mem).1
        = { target := saveFlush input ports
            holdPC := fetch.longLatencyPCHolder.out
            hitOrMiss := fetch.longLatencyPCHolder.out.isNone }
      ∧ (fetch.clock input ports isa mem).2.longLatencyPCHolder
        = fetch.longLatencyPCHolder.shift none
      ∧ (fetch.clock input ports isa mem).2.memory = fetch.memory := by
  unfold clock getCachedTarget clockInstrCache shiftHolder
  simp only [h, if_true, clockBp]
  rcases fetch.longLatencyPCHolder.out with _ | t <;> simp

variable {fetch}

/-- One more cycle of a miss. -/
theorem Missing.clock_succ (h : Missing (n + 1) target fetch ports) :
    (fetch.clock input ports isa mem).1 = { target := saveFlush input ports, hitOrMiss := true }
      ∧ Missing n target (fetch.clock input ports isa mem).2
        (fetch.clock input ports isa mem).1 := by
  obtain ⟨ho, hl, -⟩ := fetch.clock_of_miss input isa mem h.hitOrMiss
  have hout : fetch.longLatencyPCHolder.out = none := by
    rw [DelayLine.out, h.holder, if_neg (by omega)]
  rw [hout] at ho
  refine ⟨ho, by rw [ho]; rfl, by rw [hl]; exact h.latency, by have := h.bound; omega, fun r => ?_⟩
  have := h.bound
  rw [hl, DelayLine.item_shift, h.latency, h.holder]
  split_ifs <;> first | rfl | omega

/-- The last cycle of a miss. -/
theorem Missing.clock_zero (h : Missing 0 target fetch ports) :
    (fetch.clock input ports isa mem).1
        = { target := saveFlush input ports, holdPC := some target }
      ∧ Idle (fetch.clock input ports isa mem).2 (fetch.clock input ports isa mem).1 := by
  obtain ⟨ho, hl, -⟩ := fetch.clock_of_miss input isa mem h.hitOrMiss
  have hout : fetch.longLatencyPCHolder.out = some target := by
    rw [DelayLine.out, h.holder, if_pos rfl]
  rw [hout] at ho
  refine ⟨ho, by rw [ho]; rfl, by rw [hl]; exact h.latency, fun r => ?_⟩
  rw [hl, DelayLine.item_shift, h.latency, h.holder]
  split_ifs <;> first | rfl | omega

omit [BPEntry E] in
theorem Idle.shift_none (h : Idle fetch ports) (r : ℕ) :
    (fetch.longLatencyPCHolder.shift none).item r = none := by
  rw [DelayLine.item_shift, h.holder, ite_self]

/-- A cycle without a target. -/
theorem Idle.clock_bubble (h : Idle fetch ports) (ht : selectTarget input ports = none) :
    (fetch.clock input ports isa mem).1 = {}
      ∧ Idle (fetch.clock input ports isa mem).2 (fetch.clock input ports isa mem).1
      ∧ (fetch.clock input ports isa mem).2.memory = fetch.memory := by
  have hg := (fetch.clockBp input).fst_getTarget input ports
  obtain ⟨hh, hm, -⟩ := (fetch.clockBp input).keeps_getTarget input ports
  unfold clock getCachedTarget
  rcases hp : (fetch.clockBp input).getTarget input ports with ⟨_ | t, fetch'⟩
  · rw [hp] at hh hm
    simp only [h.hitOrMiss, hp, shiftHolder, Bool.false_eq_true, if_false, true_and]
    refine ⟨⟨rfl, ?_, fun r => ?_⟩, hm⟩
    · rw [hh]
      exact h.latency
    · rw [hh]
      exact h.shift_none r
  · simp [hp, ht] at hg

/-- A cycle with a target: its line is in the cache, or Fetch begins to wait for it. -/
theorem Idle.clock_target (h : Idle fetch ports) (hc : fetch.memory.Coherent isa)
    (ht : selectTarget input ports = some target) :
    ((fetch.clock input ports isa mem).1 = { hitOrMiss := true }
        ∧ Missing (longLatency - 1) target (fetch.clock input ports isa mem).2
          (fetch.clock input ports isa mem).1
        ∧ (fetch.clock input ports isa mem).2.memory = fetch.memory)
      ∨ (fetch.clock input ports isa mem).1
          = { holdPC := some target
              target := some (fetch.sent input isa mem target).getPredictedTarget
              datapath := some (fetch.sent input isa mem target) }
        ∧ Idle (fetch.clock input ports isa mem).2 (fetch.clock input ports isa mem).1
        ∧ (fetch.clock input ports isa mem).2.memory.Coherent isa
        ∧ (fetch.clock input ports isa mem).2.memory.endian = fetch.memory.endian := by
  have hg := (fetch.clockBp input).fst_getTarget input ports
  obtain ⟨hh, hm, hb⟩ := (fetch.clockBp input).keeps_getTarget input ports
  unfold clock getCachedTarget
  rcases hp : (fetch.clockBp input).getTarget input ports with ⟨_ | t, fetch'⟩
  · simp [hp, ht] at hg
  rw [hp] at hg hh hm hb
  obtain rfl : t = target := by simpa [ht] using hg
  have hcoh : fetch'.memory.Coherent isa := by
    rw [hm]
    exact hc
  rcases hl : fetch'.tags.lookup t.address with ⟨_ | _, tags⟩
  · left
    simp only [h.hitOrMiss, hp, hl, shiftHolder, Bool.false_eq_true, if_false, true_and]
    refine ⟨⟨rfl, ?_, by decide, fun r => ?_⟩, hm⟩
    · rw [hh]
      exact h.latency
    · rw [hh]
      show (fetch.longLatencyPCHolder.shift (some t)).item r = _
      rw [DelayLine.item_shift, h.latency, h.holder]
      have : longLatency = 30 := rfl
      split_ifs <;> first | rfl | omega
  · right
    have hi : (fetch'.memory.fetchInstr isa mem t.address).1
        = fetchInstr isa fetch.memory.endian mem t.address := by
      rw [fetchInstr_eq hcoh, hm]
      rfl
    have he : (fetch'.memory.fetchInstr isa mem t.address).2.endian = fetch.memory.endian := by
      rw [endian_fetchInstr, hm]
      rfl
    have hk := fetchInstr_coherent hcoh mem t.address
    have hbp : fetch'.bp = (fetch.clockBp input).bp := hb
    simp only [h.hitOrMiss, hp, hl, shiftHolder, fetchTarget, Bool.false_eq_true, if_false, if_true,
      hi, hbp]
    refine ⟨rfl, ⟨rfl, ?_, fun r => ?_⟩, ?_, ?_⟩
    · rw [(keeps_ite _ _ _).holder, hh]
      exact h.latency
    · rw [(keeps_ite _ _ _).holder, hh]
      exact h.shift_none r
    · rw [(keeps_ite _ _ _).memory]
      exact hk
    · rw [(keeps_ite _ _ _).memory]
      exact he

end Clock

end Fetch

end MiptMips
