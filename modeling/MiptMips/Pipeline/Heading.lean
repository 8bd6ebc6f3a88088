import MiptMips.Pipeline.TrapStores

/-!
# Where Fetch is headed

What Fetch reads in a cycle steers it to one target: it takes the target at once, or it will when
the miss that it waits for is over. After that cycle it delivers the instruction at the target, or
awaits the target still. Without a redirect it stays headed there, unless Decode signals a stall
just when a miss is over during which another target was kept.
-/

namespace MiptMips

namespace Fetch

variable {w : ℕ} {E M : Type} [BPEntry E] [FuncMemory M] {fetch : Fetch w E} {ports : FetchOut w}
  {input : FetchIn} {target : Target} {x : PerfInstr w}

/-- Fetch has sent an instruction, and predicts where it goes on. -/
structure Delivers (target : Target) (x : PerfInstr w) (fetch : Fetch w E) (ports : FetchOut w) :
    Prop where
  idle : Idle fetch ports
  ports : ports
    = { holdPC := some target, target := some x.getPredictedTarget, datapath := some x }

/-- Fetch goes to the target with what it reads in this cycle, at once or when the miss is over. -/
inductive Steered (target : Target) (fetch : Fetch w E) (input : FetchIn) (ports : FetchOut w) :
    Prop
  | idle : Idle fetch ports → selectTarget input ports = some target →
    Steered target fetch input ports
  | missing (n : ℕ) (missed : Target) : Missing n missed fetch ports →
    (saveFlush input ports).getD missed = target → Steered target fetch input ports

/-- Fetch is not sent back to the address that missed although it has kept another target. -/
def KeepsRedirect (input : FetchIn) (ports : FetchOut w) : Prop :=
  redirect input = none → input.stall = true → ports.hitOrMiss = false → ports.datapath = none →
    ∀ target, ports.target = some target → ports.holdPC = some target

section Steered

theorem Steered.clock (h : Steered target fetch input ports) {isa : ISA w}
    (hc : fetch.memory.Coherent isa) (mem : M) :
    Delivers target (fetch.sent input isa mem target) (fetch.clock input ports isa mem).2
        (fetch.clock input ports isa mem).1
      ∨ Awaits target (fetch.clock input ports isa mem).2 (fetch.clock input ports isa mem).1 := by
  cases h with
  | idle hi ht =>
    rcases hi.clock_target input isa mem hc ht with ⟨ho, hm, -⟩ | ⟨ho, hi', -⟩
    · exact .inr ⟨by rw [ho], .missing _ hm (by rw [ho])⟩
    · exact .inl ⟨hi', ho⟩
  | missing n missed hm ht =>
    rcases hs : saveFlush input ports with _ | kept
    · rw [hs, Option.getD_none] at ht
      subst ht
      cases n with
      | zero =>
        obtain ⟨ho, hi⟩ := hm.clock_zero input isa mem
        exact .inr ⟨by rw [ho], .next hi (by rw [ho, hs]; rfl)⟩
      | succ n =>
        obtain ⟨ho, hm'⟩ := hm.clock_succ input isa mem
        exact .inr ⟨by rw [ho], .missing n hm' (by rw [ho, hs])⟩
    · rw [hs, Option.getD_some] at ht
      exact .inr (hm.clock_awaits isa mem (by rw [hs, ht]))

omit [BPEntry E] in
/-- A redirect steers Fetch, whatever it did before. -/
theorem steered_of_redirect (hstates : Idle fetch ports ∨ ∃ n missed, Missing n missed fetch ports)
    (hr : redirect input = some target)
    (hext : input.externalTarget = none ∨ ports.hitOrMiss = false) :
    Steered target fetch input ports := by
  rcases hstates with hi | ⟨n, missed, hm⟩
  · exact .idle hi (by rw [selectTarget_eq, hr]; rfl)
  · rcases hext with he | hno
    · have hint : internalRedirect input = some target := by
        rwa [redirect, he] at hr
      exact .missing n missed hm (by rw [saveFlush_eq, hint]; rfl)
    · rw [hm.hitOrMiss] at hno
      cases hno

omit [BPEntry E] in
/-- Without a redirect Fetch stays headed to the target that it awaits. -/
theorem Awaits.steered (h : Awaits target fetch ports) (hquiet : redirect input = none)
    (hkeep : KeepsRedirect input ports) : Steered target fetch input ports := by
  have hsave : saveFlush input ports = ports.target := by
    rw [saveFlush_eq, internalRedirect_eq_none hquiet, externalTarget_eq_none hquiet]
    simp
  cases h.heads with
  | next hi ht =>
    refine .idle hi ?_
    rw [selectTarget_eq, hquiet, Option.none_or]
    rcases hs : input.stall with _ | _
    · exact ht
    · rcases hp : ports.target with _ | kept
      · rwa [hp] at ht
      · rw [hp, Option.some_or] at ht
        cases ht
        exact hkeep hquiet hs hi.hitOrMiss h.datapath target hp
  | missing n hm ht => exact .missing n target hm (by rw [hsave, ht]; rfl)
  | kept n missed hm ht => exact .missing n missed hm (by rw [hsave, ht]; rfl)

omit [BPEntry E] in
/-- After an instruction that goes on, Fetch takes the predicted target. -/
theorem Delivers.steered (h : Delivers target x fetch ports) (hquiet : redirect input = none)
    (hstall : input.stall = false) : Steered x.getPredictedTarget fetch input ports :=
  .idle h.idle (by rw [selectTarget_eq, hquiet, hstall, h.ports]; rfl)

omit [BPEntry E] in
/-- In a stall it fetches the same target again. -/
theorem Delivers.steered_again (h : Delivers target x fetch ports) (hquiet : redirect input = none)
    (hstall : input.stall = true) : Steered target fetch input ports :=
  .idle h.idle (by rw [selectTarget_eq, hquiet, hstall, h.ports]; rfl)

end Steered

end Fetch

end MiptMips
