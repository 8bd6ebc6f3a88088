import MiptMips.Memory.PlainMemory
import MiptMips.Mips.Instr
import MiptMips.Pipeline.CoreRun

/-!
# In-order write-back

The instructions that Decode lets go arrive at Writeback one at a time and in program order, each
of them once, and only those that a flush reaches on the way do not arrive.
-/

namespace MiptMips

open Machines

variable {w : ℕ} {M K : Type} [FuncMemory M]

theorem Carried.of_result {run : BackendRun w M} {c : ℕ} {x y : PerfInstr w}
    (h : run.Result c x y) : Carried x y := by
  unfold BackendRun.Result at h
  split_ifs at h
  · obtain ⟨f, hl, rfl⟩ := h
    exact .loadStore hl
  · rw [h]
    exact .refl x

namespace BackendRun

variable (run : BackendRun w M) {c e : ℕ} {path : ExecutionPath} {x : PerfInstr w}

/-- Accesses to memory do not throw in a run. -/
theorem exists_result (he : run.executedOn path e = some x) (hq : run.Quiet e c)
    (hc : e + path.latency run.longAluLatency = c) (hle : c ≤ run.length) :
    ∃ y, run.Result e x y := by
  by_cases hp : path = .mem
  · subst hp
    simp only [ExecutionPath.latency] at hc
    have hmem : (run.backend (e + 1)).fromExecute.mem = some x := by
      rw [(run.fromExecute_eq (by omega)).1]
      exact he
    rcases run.fromMem_cases (c := e + 1) (by omega) with ⟨hf | hn, -⟩ | ⟨x', f, -, hx, hl, -⟩
    · rw [hq (e + 1) (by omega) (by omega)] at hf
      cases hf
    · rw [hmem] at hn
      cases hn
    · obtain rfl : x = x' := Option.some.inj (hmem.symm.trans hx)
      refine ⟨x.withInstr f, ?_⟩
      rw [Result, if_pos (run.executedOn_iff.1 he).2]
      exact ⟨f, hl, rfl⟩
  · exact ⟨x, (run.result_iff hp he).2 rfl⟩

theorem mem_arrived_iff (hc : c ≤ run.length) {y : PerfInstr w} :
    y ∈ (run.backend c).arrived ↔ ∃ path, run.arrivedOn path c = some y := by
  rw [run.arrived_eq hc]
  simp only [List.mem_append, Option.mem_toList]
  constructor
  · rintro ((h | h) | (h | h)) <;> exact ⟨_, h⟩
  · rintro ⟨path, h⟩
    cases path <;> simp [h]

end BackendRun

namespace CoreRun

variable (run : CoreRun w M K) {c d : ℕ} {x y : PerfInstr w}

/-- The results of the instruction that was let go in a cycle, with what Execute takes from the
bypass ports in the next one. -/
def execution (d : ℕ) (x : PerfInstr w) : PerfInstr w :=
  x.withInstr (Execute.readOperands
    ((run.core (d + 1)).backend.bypassData (run.core (d + 1)).fromWriteback.bypass)
    (run.core (d + 1)).fromDecode.commands x.toFuncInstr).execute

theorem carried_execution (d : ℕ) (x : PerfInstr w) : Carried x (run.execution d x) :=
  (Carried.readOperands _ _ x).trans (.execute _)

theorem executed_succ_iff :
    run.toBackendRun.executed (d + 1) = some y
      ↔ (run.core (d + 1)).flush = false ∧ ∃ x, run.sent d = some x ∧ run.execution d x = y := by
  show (if (run.core (d + 1)).flush then none
    else (run.sent d).map (run.execution d)) = some y ↔ _
  rcases (run.core (d + 1)).flush with _ | _ <;> simp

theorem executed_zero : run.toBackendRun.executed 0 = none := by
  show (if (run.core 0).flush then none else ((run.core 0).fromDecode.datapath).map _) = none
  rw [run.start.fromDecode]
  split_ifs <;> rfl

/-- The instruction that is let go in cycle `d` gets to Writeback in cycle `c`. -/
def Arrives (d c : ℕ) (x : PerfInstr w) : Prop :=
  run.sent d = some x ∧ d + 1 + x.path.latency run.longAluLatency = c
    ∧ ∀ v, d < v → v < c → (run.core v).flush = false

theorem doneIn_iff : run.schedule.DoneIn c d ↔ ∃ x, run.Arrives d c x := by
  constructor
  · rintro ⟨l, hl, hd, ha⟩
    obtain ⟨x, hx, rfl⟩ := Option.map_eq_some_iff.1 hl
    exact ⟨x, hx, hd, fun v hv hvc => ha v hv hvc.le (by rw [hd]; exact hvc)⟩
  · rintro ⟨x, hx, hd, ha⟩
    exact ⟨_, Option.map_eq_some_iff.2 ⟨x, hx, rfl⟩, hd,
      fun v hv _ hlt => ha v hv (hd ▸ hlt)⟩

theorem doneBy_iff : run.schedule.DoneBy c d ↔ ∃ x, run.sent d = some x
    ∧ d + 1 + x.path.latency run.longAluLatency ≤ c
    ∧ ∀ v, d < v → v < d + 1 + x.path.latency run.longAluLatency → (run.core v).flush = false := by
  constructor
  · rintro ⟨l, hl, hd, ha⟩
    obtain ⟨x, hx, rfl⟩ := Option.map_eq_some_iff.1 hl
    exact ⟨x, hx, hd, fun v hv hvc => ha v hv (hvc.le.trans hd) hvc⟩
  · rintro ⟨x, hx, hd, ha⟩
    exact ⟨_, Option.map_eq_some_iff.2 ⟨x, hx, rfl⟩, hd, fun v hv _ hlt => ha v hv hlt⟩

/-- What arrives in a cycle is what was let go so many cycles before. -/
theorem arrives_of_arrivedOn (hc : c ≤ run.length) {path : ExecutionPath}
    (h : run.toBackendRun.arrivedOn path c = some y) :
    ∃ d x, run.Arrives d c x ∧ x.path = path ∧ Carried x y := by
  obtain ⟨e, x', he, hx', hq, hr⟩ := (run.toBackendRun.arrivedOn_iff hc).1 h
  obtain ⟨hex, hp⟩ := run.toBackendRun.executedOn_iff.1 hx'
  rcases e with _ | d
  · rw [run.executed_zero] at hex
    cases hex
  · obtain ⟨hf, x, hx, rfl⟩ := run.executed_succ_iff.1 hex
    rw [(run.carried_execution d x).path] at hp
    refine ⟨d, x, ⟨hx, by rw [hp]; exact he, fun v hv hvc => ?_⟩, hp,
      (run.carried_execution d x).trans (.of_result hr)⟩
    rcases Nat.lt_or_eq_of_le (Nat.succ_le_of_lt hv) with hv | rfl
    · exact hq v hv hvc
    · exact hf

/-- What is let go and not flushed arrives. -/
theorem arrived_of_arrives (hc : c ≤ run.length) (h : run.Arrives d c x) :
    ∃ y ∈ (run.core c).backend.arrived, Carried x y := by
  obtain ⟨hx, hd, ha⟩ := h
  have hpos := x.path.latency_pos run.latency_ge
  have hpath := (run.carried_execution d x).path
  have hex : run.toBackendRun.executedOn x.path (d + 1) = some (run.execution d x) :=
    run.toBackendRun.executedOn_iff.2
      ⟨run.executed_succ_iff.2 ⟨ha (d + 1) (by omega) (by omega), x, hx, rfl⟩, hpath⟩
  have hq : run.toBackendRun.Quiet (d + 1) c := fun v hv hvc => ha v (by omega) hvc
  obtain ⟨y, hr⟩ := run.toBackendRun.exists_result hex hq hd hc
  refine ⟨y, (run.toBackendRun.mem_arrived_iff hc).2 ⟨x.path, ?_⟩,
    (run.carried_execution d x).trans (.of_result hr)⟩
  exact (run.toBackendRun.arrivedOn_iff hc).2 ⟨d + 1, _, hd, hex, hq, hr⟩

theorem exists_arrives {p : ExecutionPath} (hpath : (run.sent d).map (·.path) = some p)
    (hd : d + 1 + p.latency run.longAluLatency = c)
    (hquiet : ∀ v < c, d < v → (run.core v).flush = false) :
    ∃ x, run.Arrives d c x ∧ x.path = p := by
  obtain ⟨x, hx, rfl⟩ := Option.map_eq_some_iff.1 hpath
  exact ⟨x, ⟨hx, hd, fun v hv hvc => hquiet v hvc hv⟩, rfl⟩

theorem arrives_unique (hc : c ≤ run.length) {d' : ℕ} {x' : PerfInstr w} (h : run.Arrives d c x)
    (h' : run.Arrives d' c x') : d = d' ∧ x = x' := by
  obtain rfl := Schedule.doneIn_unique hc (run.doneIn_iff.2 ⟨x, h⟩) (run.doneIn_iff.2 ⟨x', h'⟩)
  exact ⟨rfl, Option.some.inj (h.1.symm.trans h'.1)⟩

/-- Two of the paths never end in the same cycle. -/
theorem path_unique (hc : c ≤ run.length) {p q : ExecutionPath} {z : PerfInstr w}
    (h : run.toBackendRun.arrivedOn p c = some y) (h' : run.toBackendRun.arrivedOn q c = some z) :
    p = q := by
  obtain ⟨d, x, ha, rfl, -⟩ := run.arrives_of_arrivedOn hc h
  obtain ⟨d', x', ha', rfl, -⟩ := run.arrives_of_arrivedOn hc h'
  rw [(run.arrives_unique hc ha ha').2]

theorem length_arrived_le (hc : c ≤ run.length) : (run.core c).backend.arrived.length ≤ 1 := by
  have harr := run.toBackendRun.arrived_eq hc
  rw [show (run.core c).backend.arrived = _ from harr]
  rcases hb : run.toBackendRun.arrivedOn .branch c with _ | b
    <;> rcases hm : run.toBackendRun.arrivedOn .mem c with _ | m
    <;> rcases hl : run.toBackendRun.arrivedOn .long c with _ | l
    <;> rcases hw : run.toBackendRun.arrivedOn .writeback c with _ | k
    <;> simp
  all_goals
    first
    | cases run.path_unique hc hb hm
    | cases run.path_unique hc hb hl
    | cases run.path_unique hc hb hw
    | cases run.path_unique hc hm hl
    | cases run.path_unique hc hm hw
    | cases run.path_unique hc hl hw

/-- The instructions that were let go and have got to Writeback by cycle `n`, without a flush on
the way, in program order. -/
def retired (n : ℕ) : List (PerfInstr w) :=
  (List.range n).filterMap fun d => (run.sent d).filter fun x =>
    d + 1 + x.path.latency run.longAluLatency ≤ n
      ∧ ∀ v < d + 1 + x.path.latency run.longAluLatency, d < v → (run.core v).flush = false

theorem retired_eq (n : ℕ) : run.retired n = (run.schedule.doneBy n).filterMap run.sent := by
  unfold retired Schedule.doneBy
  rw [List.filterMap_filter]
  refine List.filterMap_congr fun d _ => ?_
  by_cases h : run.schedule.DoneBy n d
  · obtain ⟨x, hx, hd, ha⟩ := run.doneBy_iff.1 h
    simp only [hx, decide_eq_true h, if_true]
    exact Option.filter_some_pos (decide_eq_true ⟨hd, fun v hv hvd => ha v hvd hv⟩)
  · simp only [h, decide_false, Bool.false_eq_true, if_false, Option.filter_eq_none_iff]
    intro x hx hx'
    obtain ⟨hd, ha⟩ := of_decide_eq_true hx'
    exact h (run.doneBy_iff.2 ⟨x, hx, hd, fun v hvd hv => ha v hv hvd⟩)

/-- What arrives in a cycle is what is due in it. -/
theorem forall₂_doneIn (hc : c ≤ run.length) :
    List.Forall₂ Carried ((run.schedule.doneIn c).filterMap run.sent)
      (run.core c).backend.arrived := by
  rcases h : (run.core c).backend.arrived with _ | ⟨y, _ | ⟨z, ys⟩⟩
  · rw [Schedule.doneIn_eq_nil fun d hd => ?_]
    · exact .nil
    · obtain ⟨x, hx⟩ := run.doneIn_iff.1 hd
      obtain ⟨y, hy, -⟩ := run.arrived_of_arrives hc hx
      rw [h] at hy
      cases hy
  · have hy : y ∈ (run.core c).backend.arrived := by simp [h]
    obtain ⟨path, hp⟩ := (run.toBackendRun.mem_arrived_iff hc).1 hy
    obtain ⟨d, x, ha, -, hxy⟩ := run.arrives_of_arrivedOn hc hp
    rw [Schedule.doneIn_eq hc (run.doneIn_iff.2 ⟨x, ha⟩)]
    simpa [ha.1] using hxy
  · have := run.length_arrived_le hc
    simp [h] at this

/-- At most one instruction arrives at Writeback in a cycle, and in order and each once arrive
those that Decode let go and no flush reached. -/
theorem in_order_single_writeback (n : ℕ) (hn : n ≤ run.length) :
    (run.core n).backend.arrived.length ≤ 1
      ∧ List.Forall₂ Carried (run.retired n)
        ((List.range (n + 1)).flatMap fun c => (run.core c).backend.arrived) := by
  refine ⟨run.length_arrived_le hn, ?_⟩
  rw [retired_eq]
  induction n with
  | zero => simp [Schedule.doneBy, run.start.backend, Backend.create, Backend.arrived]
  | succ n ih =>
    rw [run.schedule.doneBy_succ hn, List.filterMap_append,
      List.range_succ, List.flatMap_append, List.flatMap_singleton]
    exact List.rel_append (ih (by omega)) (run.forall₂_doneIn hn)

end CoreRun

section Example

/-- A program of MARS words that comes in one word a cycle. -/
def marsStream (words : List (BitVec 32)) (c : ℕ) : Option (PerfInstr 32) :=
  words[c]?.map fun word =>
    ⟨Mips.createInstr .mars .little word (BitVec.ofNat 64 (4 * c)) 32, ⟨0#64, false, 0#64, false⟩⟩

def zeroCore : Core 32 PlainMemory Unit :=
  .create (Mips.isa .mars) 3 (.create 4 PlainMemory.four_bits_lt fun _ => 0#8) ()

/-- `mult $t0, $t1; addu $t2, $t0, $t1` with a latency of three. -/
def multRun : CoreRun 32 PlainMemory Unit :=
  .ofStart (.dummy 32 PlainMemory) (Mips.isa .mars) (marsStream [0x01090018#32, 0x01095021#32])
    zeroCore 3 6 CoreRun.latency_three_ge CoreRun.latency_three_lt
    (Core.atStart_create _ _ _ _) (by decide +kernel)

/-- The short instruction is held back until it can arrive right after the long one. -/
theorem in_order_single_writeback_mult :
    (multRun.core 5).backend.arrived.length ≤ 1
      ∧ List.Forall₂ Carried (multRun.retired 5)
        ((List.range 6).flatMap fun c => (multRun.core c).backend.arrived) :=
  multRun.in_order_single_writeback 5 (by decide)

example : (multRun.retired 4).length = 1 ∧ (multRun.retired 5).length = 2 := by decide +kernel

end Example

end MiptMips
