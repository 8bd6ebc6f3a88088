import MiptMips.Pipeline.FlushFilter
import MiptMips.Pipeline.Redirect

/-!
# Stores behind a trap

When Writeback finds a trap, the modules see it in the next cycle. The instructions behind the one
that trapped are then on their way, but only one of them can be as far as Mem: the one that was let
go two cycles before, and its store is not stopped (`storesIn_iff`). All others are dropped, and
from then on nothing happens until Fetch sends an instruction. That is the one at the target of the
trap, unless Fetch is waiting for a line and has another redirect at hand.
-/

namespace MiptMips

open Machines

variable {w : ℕ} {E M K : Type} [FuncMemory M]

namespace CoreRun

variable (run : CoreRun w M K) {c d e : ℕ} {x : PerfInstr w}

section Stores

/-- Mem performs a store, of the instruction that was let go two cycles before. -/
def StoresIn (c : ℕ) : Prop := (run.core c).flush = false
  ∧ ∃ y, (run.core c).backend.fromExecute.mem = some y ∧ y.isStore = true

/-- In all other cycles Mem leaves the memory alone. -/
theorem memAfter_eq (hc : c < run.length) (h : ¬ run.StoresIn c) :
    run.memAfter c = (run.core c).mem := by
  rcases run.toBackendRun.fromMem_cases hc with ⟨-, -, hm⟩ | ⟨y, f, hf, hy, hl, -⟩
  · exact hm
  · have hstore : y.isStore = false := by
      rcases hs : y.isStore with _ | _
      · rfl
      · exact absurd ⟨hf, y, hy, hs⟩ h
    unfold FuncMemory.loadStore at hl
    rw [hstore] at hl
    split_ifs at hl with hload hs
    · exact (congrArg Prod.snd (Except.ok.inj hl)).symm
    · exact absurd hs (by decide)
    · exact (congrArg Prod.snd (Except.ok.inj hl)).symm

/-- A store has been let go and not flushed before Mem performs it. -/
theorem storesIn_iff (hc : d + 2 ≤ run.length) : run.StoresIn (d + 2)
    ↔ ∃ x, run.sent d = some x ∧ x.isStore = true ∧ x.path = .mem
      ∧ (run.core (d + 1)).flush = false ∧ (run.core (d + 2)).flush = false := by
  have hports := (run.toBackendRun.fromExecute_eq (c := d + 1) hc).1
  have hmem : (run.core (d + 2)).backend.fromExecute.mem
      = run.toBackendRun.executedOn .mem (d + 1) := congrArg ExecuteOut.mem hports
  unfold StoresIn
  rw [hmem]
  constructor
  · rintro ⟨hf, y, hy, hs⟩
    obtain ⟨hex, hp⟩ := run.toBackendRun.executedOn_iff.1 hy
    obtain ⟨hf', x, hx, rfl⟩ := run.executed_succ_iff.1 hex
    have hcarried := run.carried_execution d x
    refine ⟨x, hx, ?_, by rw [← hcarried.path, hp], hf', hf⟩
    simpa [FuncInstr.isStore, hcarried.operation] using hs
  · rintro ⟨x, hx, hs, hp, hf', hf⟩
    have hcarried := run.carried_execution d x
    refine ⟨hf, run.execution d x, ?_, by simpa [FuncInstr.isStore, hcarried.operation] using hs⟩
    exact run.toBackendRun.executedOn_iff.2
      ⟨run.executed_succ_iff.2 ⟨hf', x, hx, rfl⟩, by rw [hcarried.path, hp]⟩

/-- A store in the first two cycles would have been let go before the run. -/
theorem exists_of_storesIn (hc : c ≤ run.length) (h : run.StoresIn c) : ∃ d, d + 2 = c := by
  obtain ⟨-, y, hy, -⟩ := h
  rcases c with _ | _ | d
  · rw [run.start.backend] at hy
    cases hy
  · have hports := (run.toBackendRun.fromExecute_eq (c := 0) hc).1
    have hmem : (run.core 1).backend.fromExecute.mem = run.toBackendRun.executedOn .mem 0 :=
      congrArg ExecuteOut.mem hports
    rw [hmem] at hy
    have hex := (run.toBackendRun.executedOn_iff.1 hy).1
    rw [run.executed_zero] at hex
    cases hex
  · exact ⟨d, rfl⟩

end Stores

section Trap

/-- What is let go after an instruction and before that is done, cannot store before. -/
theorem le_of_storesIn (hc : c < run.length) (h : run.Arrives d c x) (hde : d < e) (hec : e ≤ c)
    (hlen : e + 2 ≤ run.length) (hs : run.StoresIn (e + 2)) : c ≤ e + 2 := by
  obtain ⟨y, hy, -, hp, -⟩ := (run.storesIn_iff hlen).1 hs
  obtain ⟨hx, hd, hlive⟩ := h
  have hstart : run.schedule.started d = some (x.path.latency run.longAluLatency) := by
    show (run.sent d).map _ = _
    rw [hx, Option.map_some]
  have hstart' : run.schedule.started e = some 2 := by
    show (run.sent e).map _ = _
    rw [hy, Option.map_some, hp]
    rfl
  have hlen' : e < run.schedule.length := hec.trans_lt hc
  have hdone := Schedule.doneAt_lt hstart hstart' hde hlen' fun v hv _ hlt =>
    hlive v hv (by unfold Schedule.doneAt at hlt; omega)
  unfold Schedule.doneAt at hdone
  omega

/-- What Mem stores when an instruction arrives has been let go after that. -/
theorem lt_of_storesIn (hc : c ≤ run.length) (h : run.Arrives d c x) (hs : run.StoresIn c) :
    ∃ e, e + 2 = c ∧ d < e := by
  obtain ⟨e, rfl⟩ := run.exists_of_storesIn hc hs
  refine ⟨e, rfl, ?_⟩
  obtain ⟨y, hy, -, hp, hf, hf'⟩ := (run.storesIn_iff hc).1 hs
  obtain ⟨hx, hd, -⟩ := h
  have hpos := x.path.latency_pos run.latency_ge
  rcases Nat.lt_trichotomy d e with hlt | rfl | hgt
  · exact hlt
  · obtain rfl : x = y := Option.some.inj (hx.symm.trans hy)
    rw [hp] at hd
    simp only [ExecutionPath.latency] at hd
    omega
  · -- the store would arrive after an instruction that was let go later
    omega

/-- The instruction that was let go in cycle `d` gets to Writeback in cycle `c` and traps, and
Fetch is sent to a target. -/
structure Traps (d c : ℕ) (target : Target) : Prop where
  arrives : ∃ x, run.Arrives d c x
  trap : (run.core (c + 1)).fromWriteback.trap = true
  target : (run.core (c + 1)).fromWriteback.target = some target

/-- Of what has been let go behind a trap, only what Mem stores in the very cycle is not stopped. -/
theorem storesIn_of_trap (hc : c < run.length) (h : run.Arrives d c x)
    (htrap : (run.core (c + 1)).fromWriteback.trap = true) (hde : d < e) (hec : e ≤ c + 1)
    (hlen : e + 2 ≤ run.length) (hs : run.StoresIn (e + 2)) : e + 2 = c := by
  have hflush : (run.core (c + 1)).flush = true := by
    unfold Core.flush
    rw [htrap, Bool.or_true]
  obtain ⟨y, hy, -, -, hf, hf'⟩ := (run.storesIn_iff hlen).1 hs
  rcases Nat.lt_or_eq_of_le hec with hlt | rfl
  · have hle := run.le_of_storesIn hc h hde (Nat.le_of_lt_succ hlt) hlen hs
    rcases Nat.lt_or_eq_of_le hle with hlt' | heq
    · have hcases : c + 1 = e + 1 ∨ c + 1 = e + 2 := by omega
      rcases hcases with heq | heq
      · rw [heq, hf] at hflush
        cases hflush
      · rw [heq, hf'] at hflush
        cases hflush
    · exact heq.symm
  · rw [run.flush_of_sent (by omega) hy] at hflush
    cases hflush

end Trap

section Silence

/-- Decode has let nothing go since the trap, and done nothing else. -/
def SilentSince (c v : ℕ) : Prop := ∀ u, c < u → u < v → (run.core (u + 1)).fromDecode = {}

variable {run} {v : ℕ}

theorem SilentSince.sent (h : run.SilentSince c v) {u : ℕ} (hcu : c < u) (huv : u < v) :
    run.sent u = none := by
  unfold CoreRun.sent
  rw [h u hcu huv]

variable (run)

/-- Decode does nothing as long as it gets nothing from Fetch. -/
theorem silentSince (htrap : (run.core (c + 1)).fromWriteback.trap = true) : ∀ {v}, v ≤ run.length →
    (∀ g, c + 1 < g → g < v → run.fetched g = none) → run.SilentSince c v
  | 0, _, _ => fun u _ hu => absurd hu (Nat.not_lt_zero u)
  | v + 1, hv, hg => fun u hcu hu => by
    have ih := silentSince htrap (v := v) (by omega) fun g hcg hgv => hg g hcg (by omega)
    rcases Nat.lt_or_eq_of_le (Nat.le_of_lt_succ hu) with hlt | rfl
    · exact ih u hcu hlt
    · have hempty : Decode.hasFlush ((run.core u).decodeIn (run.fetched u)) = true
          ∨ Decode.readInstr ((run.core u).decodeIn (run.fetched u)) = none := by
        rcases Nat.lt_or_eq_of_le (Nat.succ_le_of_lt hcu) with hlt | rfl
        · obtain ⟨t, rfl⟩ : ∃ t, u = t + 1 := ⟨u - 1, by omega⟩
          right
          unfold Decode.readInstr Core.decodeIn
          rw [ih t (by omega) (by omega), hg (t + 1) hlt hu]
          rfl
        · left
          simp [Decode.hasFlush, Core.decodeIn, htrap]
      rcases (run.decode_cases (c := u) (by omega)).2 with ⟨-, ho⟩ | ⟨_, hh⟩ | ⟨_, _, hl⟩
      · exact ho
      · rcases hempty with hf | hn
        · rw [hh.noFlush] at hf
          cases hf
        · rw [hh.readInstr] at hn
          cases hn
      · rcases hempty with hf | hn
        · rw [hl.noFlush] at hf
          cases hf
        · rw [hl.readInstr] at hn
          cases hn

variable {run}

/-- Nothing arrives then. -/
theorem SilentSince.arrived_eq_nil (h : run.SilentSince c v) (hv : v ≤ run.length)
    (htrap : (run.core (c + 1)).fromWriteback.trap = true) (hcv : c + 1 < v) :
    (run.core v).backend.arrived = [] := by
  refine List.eq_nil_iff_forall_not_mem.2 fun y hy => ?_
  obtain ⟨path, hy⟩ := (run.toBackendRun.mem_arrived_iff hv).1 hy
  obtain ⟨d, x, ⟨hx, hd, hlive⟩, -⟩ := run.arrives_of_arrivedOn hv hy
  have hpos := x.path.latency_pos run.latency_ge
  rcases Nat.lt_or_ge c d with hcd | hdc
  · rw [h.sent hcd (by omega)] at hx
    cases hx
  · have hflush := hlive (c + 1) (by omega) hcv
    unfold Core.flush at hflush
    rw [htrap, Bool.or_true] at hflush
    cases hflush

/-- And the modules get no signals. -/
theorem SilentSince.quiet (h : run.SilentSince c v) (hv : v ≤ run.length)
    (htrap : (run.core (c + 1)).fromWriteback.trap = true) (hcv : c + 1 < v) :
    (run.core v).fetchIn.stall = false ∧ Fetch.redirect (run.core v).fetchIn = none := by
  obtain ⟨a, rfl⟩ : ∃ a, v = a + 2 := ⟨v - 2, by omega⟩
  have hdecode : (run.core (a + 2)).fromDecode = {} := h (a + 1) (by omega) (by omega)
  have hwriteback : (run.core (a + 2)).fromWriteback = {} := by
    refine run.fromWriteback_of_bubble hv ?_
    rcases Nat.lt_or_eq_of_le (show c + 1 ≤ a + 1 by omega) with hlt | heq
    · have hbefore : run.SilentSince c (a + 1) := fun u hcu hu => h u hcu (by omega)
      rw [hbefore.arrived_eq_nil (by omega) htrap hlt, ite_self]
    · rw [← heq, htrap, if_pos rfl]
  have hbranch : (run.core (a + 2)).backend.fromBranch.flushTarget = none := by
    have hnone := List.append_eq_nil_iff.1 (h.arrived_eq_nil hv htrap hcv)
    have hdata := Option.toList_eq_nil_iff.1 (List.append_eq_nil_iff.1 hnone.1).1
    obtain ⟨-, -, hb⟩ := run.toBackendRun.cycle (c := a + 1) hv
    have hb' : (run.core (a + 2)).backend.fromBranch = _ := hb
    rw [hb'] at hdata ⊢
    unfold Branch.clock at hdata ⊢
    split at hdata
    · rfl
    · split_ifs at hdata with hf
      rw [if_pos hf]
  unfold Core.fetchIn Fetch.redirect
  rw [hdecode, hwriteback, hbranch]
  exact ⟨rfl, rfl⟩

end Silence

end CoreRun

namespace Fetch

variable [BPEntry E] {fetch : Fetch w E} {ports : FetchOut w} {target : Target} {input : FetchIn}

/-- Fetch sends the instruction at a target. -/
def Sends (target : Target) (ports : FetchOut w) : Prop :=
  ports.datapath.isSome = true ∧ ports.holdPC = some target

/-- The target that Fetch goes on at: it takes it next, or waits for its line, or keeps it while it
waits for another line. -/
inductive Heads (target : Target) (fetch : Fetch w E) (ports : FetchOut w) : Prop
  | next : Idle fetch ports → ports.target.or ports.holdPC = some target → Heads target fetch ports
  | missing (n : ℕ) : Missing n target fetch ports → ports.target = none →
    Heads target fetch ports
  | kept (n : ℕ) (missed : Target) : Missing n missed fetch ports → ports.target = some target →
    Heads target fetch ports

/-- Fetch sends nothing, and has nothing but a target to go on at. -/
structure Awaits (target : Target) (fetch : Fetch w E) (ports : FetchOut w) : Prop where
  datapath : ports.datapath = none
  heads : Heads target fetch ports

/-- A target that is taken is sent, or waited for. -/
theorem Idle.clock_awaits (h : Idle fetch ports) {isa : ISA w} (hc : fetch.memory.Coherent isa)
    (mem : M) (ht : selectTarget input ports = some target) :
    Sends target (fetch.clock input ports isa mem).1
      ∨ Awaits target (fetch.clock input ports isa mem).2 (fetch.clock input ports isa mem).1 := by
  rcases h.clock_target input isa mem hc ht with ⟨ho, hm, -⟩ | ⟨ho, -⟩
  · exact .inr ⟨by rw [ho], .missing _ hm (by rw [ho])⟩
  · exact .inl (by rw [ho]; exact ⟨rfl, rfl⟩)

/-- What is kept in a cycle of a miss is kept until Fetch goes on. -/
theorem Missing.clock_awaits {n : ℕ} {missed : Target} (h : Missing n missed fetch ports)
    (isa : ISA w) (mem : M) (ht : saveFlush input ports = some target) :
    Awaits target (fetch.clock input ports isa mem).2 (fetch.clock input ports isa mem).1 := by
  cases n with
  | zero =>
    obtain ⟨ho, hi⟩ := h.clock_zero input isa mem
    exact ⟨by rw [ho], .next hi (by rw [ho, ht]; rfl)⟩
  | succ n =>
    obtain ⟨ho, hm⟩ := h.clock_succ input isa mem
    exact ⟨by rw [ho], .kept n missed hm (by rw [ho, ht])⟩

/-- A cycle without signals. -/
theorem Awaits.clock (h : Awaits target fetch ports) {isa : ISA w}
    (hc : fetch.memory.Coherent isa) (mem : M) (hstall : input.stall = false)
    (hquiet : redirect input = none) :
    Sends target (fetch.clock input ports isa mem).1
      ∨ Awaits target (fetch.clock input ports isa mem).2 (fetch.clock input ports isa mem).1 := by
  have hsave : saveFlush input ports = ports.target := by
    rw [saveFlush_eq, internalRedirect_eq_none hquiet, externalTarget_eq_none hquiet]
    simp
  cases h.heads with
  | next hi ht =>
    refine hi.clock_awaits hc mem ?_
    rw [selectTarget_eq, hquiet, hstall]
    exact ht
  | missing n hm ht =>
    refine .inr ?_
    cases n with
    | zero =>
      obtain ⟨ho, hi⟩ := hm.clock_zero input isa mem
      exact ⟨by rw [ho], .next hi (by rw [ho, hsave, ht]; rfl)⟩
    | succ n =>
      obtain ⟨ho, hm⟩ := hm.clock_succ input isa mem
      exact ⟨by rw [ho], .missing n hm (by rw [ho, hsave, ht])⟩
  | kept n missed hm ht => exact .inr (hm.clock_awaits isa mem (by rw [hsave, ht]))

end Fetch

variable [BPEntry E]

/-- All that a cycle of the simulator does. -/
theorem PerfSim.clock_cases {sim next : PerfSim w E M K} {kernel : Kernel w M K} {isa : ISA w}
    (h : sim.clock kernel isa = .ok next) :
    (next.fromFetch, next.fetch)
        = sim.fetch.clock sim.core.fetchIn sim.fromFetch isa sim.core.mem
      ∧ sim.core.clock kernel isa sim.fromFetch.datapath = .ok next.core := by
  unfold PerfSim.clock at h
  obtain ⟨core, hc, h⟩ := bind_eq_ok.1 h
  cases h
  exact ⟨rfl, hc⟩

/-- A run of the whole simulator; Fetch may have been running before it. -/
structure PerfRun (w : ℕ) (E M K : Type) [BPEntry E] [FuncMemory M] where
  kernel : Kernel w M K
  isa : ISA w
  longAluLatency : ℕ
  length : ℕ
  sim : ℕ → PerfSim w E M K
  latency_ge : 2 ≤ longAluLatency
  latency_lt : longAluLatency < 64
  start : (sim 0).core.AtStart longAluLatency
  fetch : Fetch.Reachable M isa ((sim 0).fetch, (sim 0).fromFetch)
  step : ∀ c < length, (sim c).clock kernel isa = .ok (sim (c + 1))

section Trajectory

variable (kernel : Kernel w M K) (isa : ISA w) (start : PerfSim w E M K)

/-- The states of the simulator, up to the first cycle that throws. -/
def PerfSim.trajectory : ℕ → PerfSim w E M K
  | 0 => start
  | c + 1 =>
    match (PerfSim.trajectory c).clock kernel isa with
    | .ok sim => sim
    | .error _ => PerfSim.trajectory c

/-- The run from a state, as long as nothing throws. -/
def PerfRun.ofStart (longAluLatency length : ℕ) (hge : 2 ≤ longAluLatency)
    (hlt : longAluLatency < 64) (hstart : start.core.AtStart longAluLatency)
    (hfetch : Fetch.Reachable M isa (start.fetch, start.fromFetch))
    (hok : ∀ c < length, ((start.trajectory kernel isa c).clock kernel isa).isOk) :
    PerfRun w E M K where
  kernel := kernel
  isa := isa
  longAluLatency := longAluLatency
  length := length
  sim := start.trajectory kernel isa
  latency_ge := hge
  latency_lt := hlt
  start := hstart
  fetch := hfetch
  step c hc := by
    have hok := hok c hc
    rw [PerfSim.trajectory]
    rcases h : (start.trajectory kernel isa c).clock kernel isa with e | sim
    · rw [h] at hok
      cases hok
    · rfl

end Trajectory

namespace PerfRun

variable (run : PerfRun w E M K) {c d e f v : ℕ} {target : Target}

def toCoreRun : CoreRun w M K where
  kernel := run.kernel
  isa := run.isa
  longAluLatency := run.longAluLatency
  length := run.length
  core c := (run.sim c).core
  fetched c := (run.sim c).fromFetch.datapath
  latency_ge := run.latency_ge
  latency_lt := run.latency_lt
  start := run.start
  step c hc := (PerfSim.clock_cases (run.step c hc)).2

/-- The first instruction that Decode gets from Fetch after the trap of cycle `c` is the one at the
target, in cycle `f`. -/
structure RestartsAt (c : ℕ) (target : Target) (f : ℕ) : Prop where
  lt : c + 1 < f
  sends : Fetch.Sends target (run.sim f).fromFetch
  first : ∀ g, c + 1 < g → g < f → (run.sim g).fromFetch.datapath = none

/-- Fetch does not wait for a line, or nothing that it would keep before the target of a trap is
at hand. -/
def KeepsTarget (c : ℕ) (target : Target) : Prop :=
  (run.sim c).fromFetch.hitOrMiss = true → ∀ other, other ≠ target →
    (Fetch.internalRedirect (run.sim c).core.fetchIn).or (run.sim c).fromFetch.target ≠ some other

section Restart

theorem reachable : ∀ {c}, c ≤ run.length →
    Fetch.Reachable M run.isa ((run.sim c).fetch, (run.sim c).fromFetch)
  | 0, _ => run.fetch
  | c + 1, hc => by
    have heq := (PerfSim.clock_cases (run.step c hc)).1
    have h := (reachable (c := c) (by omega)).clock (run.sim c).core.fetchIn (run.sim c).core.mem
    rw [← heq] at h
    exact h

theorem length_retired_le (hc : c ≤ run.length) : (run.sim c).retired.length ≤ 1 := by
  refine le_trans ?_ (run.toCoreRun.length_arrived_le hc)
  unfold PerfSim.retired
  split_ifs
  · exact Nat.zero_le _
  · exact le_rfl

/-- In the cycle in which Fetch sees the trap it takes up the target. -/
theorem awaits_of_trap (hc : c + 1 < run.length) (h : run.toCoreRun.Traps d c target)
    (hkeep : run.KeepsTarget (c + 1) target) : Fetch.Sends target (run.sim (c + 2)).fromFetch
      ∨ Fetch.Awaits target (run.sim (c + 2)).fetch (run.sim (c + 2)).fromFetch := by
  have heq := (PerfSim.clock_cases (run.step (c + 1) hc)).1
  rw [show (run.sim (c + 2)).fromFetch = _ from congrArg Prod.fst heq,
    show (run.sim (c + 2)).fetch = _ from congrArg Prod.snd heq]
  have hext : (run.sim (c + 1)).core.fetchIn.externalTarget = some target := h.target
  obtain ⟨hcoh, hi | ⟨n, missed, hm⟩⟩ := (run.reachable (c := c + 1) hc.le).states
  · exact hi.clock_awaits hcoh _ (by simp [Fetch.selectTarget, hext])
  · refine .inr (hm.clock_awaits run.isa _ ?_)
    rw [Fetch.saveFlush_eq, hext, ← Option.or_assoc]
    rcases hother : (Fetch.internalRedirect (run.sim (c + 1)).core.fetchIn).or
      (run.sim (c + 1)).fromFetch.target with _ | other
    · rfl
    · by_cases ho : other = target
      · rw [ho]
        rfl
      · exact absurd hother (hkeep hm.hitOrMiss other ho)

/-- Until Fetch sends something it awaits the target. -/
theorem awaits_of_silent (h : run.toCoreRun.Traps d c target)
    (hkeep : run.KeepsTarget (c + 1) target) : ∀ {v}, c + 1 < v → v ≤ run.length →
      (∀ g, c + 1 < g → g < v → (run.sim g).fromFetch.datapath = none) →
      Fetch.Sends target (run.sim v).fromFetch
        ∨ Fetch.Awaits target (run.sim v).fetch (run.sim v).fromFetch
  | 0, hv, _, _ => absurd hv (Nat.not_lt_zero _)
  | v + 1, hcv, hv, hg => by
    rcases Nat.lt_or_eq_of_le (Nat.le_of_lt_succ hcv) with hlt | rfl
    · have hbefore : ∀ g, c + 1 < g → g < v → (run.sim g).fromFetch.datapath = none :=
        fun g hcg hgv => hg g hcg (by omega)
      have hnone := hg v hlt (Nat.lt_succ_self v)
      rcases awaits_of_silent h hkeep hlt (by omega) hbefore with hs | ha
      · rw [Fetch.Sends, hnone] at hs
        cases hs.1
      · obtain ⟨hstall, hquiet⟩ := (run.toCoreRun.silentSince h.trap
          (Nat.le_of_succ_le hv) hbefore).quiet (Nat.le_of_succ_le hv) h.trap hlt
        have heq := (PerfSim.clock_cases (run.step v hv)).1
        rw [show (run.sim (v + 1)).fromFetch = _ from congrArg Prod.fst heq,
          show (run.sim (v + 1)).fetch = _ from congrArg Prod.snd heq]
        exact ha.clock (run.reachable (Nat.le_of_succ_le hv)).states.1 _ hstall hquiet
    · exact run.awaits_of_trap hv h hkeep

/-- What is let go after the trap comes from its target on. -/
theorem restartsAt_of_sent (h : run.toCoreRun.Traps d c target)
    (hkeep : run.KeepsTarget (c + 1) target) (hce : c + 1 < e) (he : e < run.length)
    {x : PerfInstr w} (hx : run.toCoreRun.sent e = some x) : ∃ f ≤ e, run.RestartsAt c target f := by
  have hsome : ∃ f, c + 1 < f ∧ f ≤ e ∧ (run.sim f).fromFetch.datapath ≠ none := by
    by_contra hno
    have hg : ∀ g, c + 1 < g → g < e + 1 → (run.sim g).fromFetch.datapath = none :=
      fun g hcg hge => not_not.1 fun hg => hno ⟨g, hcg, Nat.le_of_lt_succ hge, hg⟩
    have hsilent := run.toCoreRun.silentSince (v := e + 1) h.trap he hg
    rw [hsilent.sent (by omega) (Nat.lt_succ_self e)] at hx
    cases hx
  classical
  obtain ⟨hcf, hfe, hne⟩ := Nat.find_spec hsome
  have hfirst : ∀ g, c + 1 < g → g < Nat.find hsome → (run.sim g).fromFetch.datapath = none :=
    fun g hcg hgf => not_not.1 fun hg => Nat.find_min hsome hgf ⟨hcg, by omega, hg⟩
  rcases run.awaits_of_silent h hkeep hcf (hfe.trans he.le) hfirst with hs | ha
  · exact ⟨Nat.find hsome, hfe, hcf, hs, hfirst⟩
  · exact absurd ha.datapath hne

end Restart

/-- When Fetch keeps the target of a trap, nothing that has been let go behind the instruction that
trapped and before Fetch goes on at the target is stored, exactly when Mem does not store in the
cycle in which the instruction traps. -/
theorem no_younger_store_iff (hc : c < run.length) (h : run.toCoreRun.Traps d c target)
    (hkeep : run.KeepsTarget (c + 1) target) :
    (∀ e, d < e → e + 2 ≤ run.length → run.toCoreRun.StoresIn (e + 2) →
        ∃ f ≤ e, run.RestartsAt c target f)
      ↔ ¬ run.toCoreRun.StoresIn c := by
  obtain ⟨x, hx⟩ := h.arrives
  constructor
  · intro hall hs
    obtain ⟨e, rfl, hde⟩ := run.toCoreRun.lt_of_storesIn hc.le hx hs
    obtain ⟨f, hfe, hf⟩ := hall e hde hc.le hs
    have := hf.lt
    omega
  · intro hno e hde he hs
    rcases Nat.lt_or_ge (c + 1) e with hlt | hle
    · obtain ⟨y, hy, -⟩ := (run.toCoreRun.storesIn_iff he).1 hs
      exact run.restartsAt_of_sent h hkeep hlt (by omega) hy
    · have heq := run.toCoreRun.storesIn_of_trap hc hx h.trap hde hle he hs
      rw [heq] at hs
      exact absurd hs hno

section Example

/-- `ori $t0, $zero, 1; teq $zero, $zero` from the address 16 on, and then `sw $t0, 8($zero)` or
`lw $t0, 8($zero)`, by the last byte of the word. -/
def teqMemory (last : Byte) : PlainMemory where
  addrBits := 5
  arena := List.replicate 16 0#8 ++ [0x01#8, 0x00#8, 0x08#8, 0x34#8, 0x34#8, 0x00#8, 0x00#8, 0x00#8,
    0x08#8, 0x00#8, 0x08#8, last] ++ List.replicate 4 0#8
  host _ := 0#8
  bits_lt := PlainMemory.five_bits_lt
  length_arena := rfl

/-- A MIPS32 simulator that starts at that address; its cache always hits. -/
def teqSim (last : Byte) : PerfSim 32 (BPEntryAlways false) PlainMemory Unit :=
  PerfSim.setTarget
    { fetch :=
        { config := ⟨.noPrefetch, 32#32, 64#32⟩
          bp := ⟨fun _ _ => .mk, fun _ _ => 0#64, .infinite .create⟩
          tags := .alwaysHit
          memory := .create 32 .little 16 }
      core := .create (Mips.isa .v32) 3 (teqMemory last) () } ⟨16#64, 0#64⟩

def teqStore : PerfRun 32 (BPEntryAlways false) PlainMemory Unit :=
  .ofStart (.dummy 32 PlainMemory) (Mips.isa .v32) (teqSim 0xac#8) 3 10
    CoreRun.latency_three_ge CoreRun.latency_three_lt
    ((Core.atStart_create _ _ _ _).setTarget _) (.create _ _ _ _ _) (by decide +kernel)

def teqLoad : PerfRun 32 (BPEntryAlways false) PlainMemory Unit :=
  .ofStart (.dummy 32 PlainMemory) (Mips.isa .v32) (teqSim 0x8c#8) 3 10
    CoreRun.latency_three_ge CoreRun.latency_three_lt
    ((Core.atStart_create _ _ _ _).setTarget _) (.create _ _ _ _ _) (by decide +kernel)

theorem traps_teqLoad : teqLoad.toCoreRun.Traps 3 6 ⟨Mips.trapVector, 0#64⟩ := by
  obtain ⟨x, hx, -⟩ := teqLoad.toCoreRun.exists_arrives (d := 3) (c := 6) (p := .mem)
    (by decide +kernel) rfl (by decide +kernel)
  exact ⟨⟨x, hx⟩, by decide +kernel, by decide +kernel⟩

theorem traps_teqStore : teqStore.toCoreRun.Traps 3 6 ⟨Mips.trapVector, 0#64⟩ := by
  obtain ⟨x, hx, -⟩ := teqStore.toCoreRun.exists_arrives (d := 3) (c := 6) (p := .mem)
    (by decide +kernel) rfl (by decide +kernel)
  exact ⟨⟨x, hx⟩, by decide +kernel, by decide +kernel⟩

/-- A load behind the instruction that traps is harmless. -/
theorem no_younger_store_iff_teqLoad : ¬ teqLoad.toCoreRun.StoresIn 6
    ∧ ∀ e, 3 < e → e + 2 ≤ 10 → teqLoad.toCoreRun.StoresIn (e + 2) →
      ∃ f ≤ e, teqLoad.RestartsAt 6 ⟨Mips.trapVector, 0#64⟩ f := by
  have hhit : (teqLoad.sim 7).fromFetch.hitOrMiss = false := by decide +kernel
  have hload : (teqLoad.toCoreRun.core 6).backend.fromExecute.mem.map (·.isStore) = some false := by
    decide +kernel
  have hno : ¬ teqLoad.toCoreRun.StoresIn 6 := by
    rintro ⟨-, y, hy, hs⟩
    rw [hy, Option.map_some, hs] at hload
    cases hload
  refine ⟨hno, (teqLoad.no_younger_store_iff (by decide) traps_teqLoad fun h => ?_).2 hno⟩
  rw [hhit] at h
  cases h

/-- A store behind the instruction that traps is performed. -/
theorem younger_store_escapes : teqStore.toCoreRun.Traps 3 6 ⟨Mips.trapVector, 0#64⟩
    ∧ teqStore.KeepsTarget 7 ⟨Mips.trapVector, 0#64⟩
    ∧ teqStore.toCoreRun.StoresIn (4 + 2)
    ∧ (∀ f ≤ 4, ¬ teqStore.RestartsAt 6 ⟨Mips.trapVector, 0#64⟩ f)
    ∧ FuncMemory.byteAt (teqStore.sim 6).core.mem 8#64 = 0#8
    ∧ FuncMemory.byteAt (teqStore.sim 7).core.mem 8#64 = 1#8 := by
  have hhit : (teqStore.sim 7).fromFetch.hitOrMiss = false := by decide +kernel
  have hstore : (teqStore.toCoreRun.core 6).backend.fromExecute.mem.map (·.isStore) = some true := by
    decide +kernel
  obtain ⟨y, hy, hs⟩ := Option.map_eq_some_iff.1 hstore
  refine ⟨traps_teqStore, fun h => ?_, ⟨by decide +kernel, y, hy, hs⟩, fun f hf hr => ?_,
    by decide +kernel, by decide +kernel⟩
  · rw [hhit] at h
    cases h
  · have := hr.lt
    omega

end Example

end PerfRun

end MiptMips
