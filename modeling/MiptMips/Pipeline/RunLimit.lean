import MiptMips.Pipeline.InOrder

/-!
# Runs with a limit

`run` sets the limit of instructions and clocks until a halt message arrives. Nothing but that
message depends on the limit: with the limit, the messages and the trap put aside, all runs from a
state are the same run of the pipeline, and they differ in where they stop. The count of executed
instructions is not reset between two runs.

On a new simulator the message is written with the instruction that reaches the limit, and it is
read one cycle later; what is written back in that cycle has retired as well.
-/

namespace MiptMips

open Machines

variable {w : ℕ} {E M K : Type}

section Limits

/-- The state but for what limits a run. -/
def WritebackState.withLimits (s : WritebackState w M K) (instrsToRun : ℕ) (halt : Option Trap) :
    WritebackState w M K :=
  { s with
    unit := { s.unit with instrsToRun }
    out := { s.out with halt } }

namespace WritebackState

variable {s t : WritebackState w M K} {kernel : Kernel w M K} {isa : ISA w} {instr : PerfInstr w}
  {cycle n : ℕ} {h : Option Trap}

theorem writebackInstruction_withLimits (hs : s.writebackInstruction instr cycle = .ok t) :
    (s.withLimits n h).writebackInstruction instr cycle = .ok (t.withLimits n h) := by
  obtain ⟨rf, hrf, hs⟩ := bind_eq_ok.1 hs
  cases hs
  exact bind_eq_ok.2 ⟨rf, hrf, rfl⟩

theorem handleInstruction_withLimits {instr' : PerfInstr w}
    (hs : s.handleInstruction kernel instr = .ok (instr', t)) :
    (s.withLimits n h).handleInstruction kernel instr = .ok (instr', t.withLimits n h) := by
  unfold handleInstruction at hs ⊢
  split_ifs at hs ⊢
  · cases hs
    rfl
  · obtain ⟨k, hk, hs⟩ := bind_eq_ok.1 hs
    cases hs
    exact bind_eq_ok.2 ⟨k, hk, rfl⟩

theorem handleTrap_withLimits {trap : Trap} (hs : s.handleTrap isa instr = .ok (trap, t)) :
    (s.withLimits n h).handleTrap isa instr = .ok (trap, t.withLimits n h) := by
  obtain ⟨result, hr, hs⟩ := bind_eq_ok.1 hs
  cases hs
  refine bind_eq_ok.2 ⟨result, hr, ?_⟩
  cases result.pc <;> rfl

theorem writebackInstructionSystem_withLimits
    (hs : s.writebackInstructionSystem kernel isa instr cycle = .ok t) : ∃ h',
    (s.withLimits n h).writebackInstructionSystem kernel isa instr cycle
      = .ok (t.withLimits n h') := by
  obtain ⟨s₁, h₁, hs⟩ := bind_eq_ok.1 hs
  obtain ⟨⟨instr', s₂⟩, h₂, hs⟩ := bind_eq_ok.1 hs
  obtain ⟨⟨resultTrap, s₃⟩, h₃, hs⟩ := bind_eq_ok.1 hs
  cases hs
  refine ⟨((s₃.withLimits n h).writeHalt resultTrap).out.halt, ?_⟩
  refine bind_eq_ok.2 ⟨_, writebackInstruction_withLimits h₁, ?_⟩
  refine bind_eq_ok.2 ⟨_, handleInstruction_withLimits h₂, ?_⟩
  refine bind_eq_ok.2 ⟨_, handleTrap_withLimits h₃, ?_⟩
  dsimp only
  split_ifs <;> rfl

theorem halt_handleTrap {trap : Trap} (hs : s.handleTrap isa instr = .ok (trap, t)) :
    t.unit.executedInstrs = s.unit.executedInstrs ∧ t.unit.instrsToRun = s.unit.instrsToRun
      ∧ t.out.halt = s.out.halt := by
  obtain ⟨result, -, hs⟩ := bind_eq_ok.1 hs
  cases hs
  cases result.pc <;> exact ⟨rfl, rfl, rfl⟩

/-- What an instruction does to the count of instructions and to the halt message. -/
theorem halt_writebackInstructionSystem (hh : s.out.halt = none)
    (hs : s.writebackInstructionSystem kernel isa instr cycle = .ok t) :
    t.unit.executedInstrs = s.unit.executedInstrs + 1 ∧ t.unit.instrsToRun = s.unit.instrsToRun
      ∧ ∃ resultTrap, (resultTrap ≠ .noTrap → t.out.trap = true)
        ∧ t.out.halt = some (if s.unit.executedInstrs + 1 ≥ s.unit.instrsToRun then .breakpoint
          else resultTrap) := by
  obtain ⟨s₁, h₁, hs⟩ := bind_eq_ok.1 hs
  obtain ⟨⟨instr', s₂⟩, h₂, hs⟩ := bind_eq_ok.1 hs
  obtain ⟨⟨resultTrap, s₃⟩, h₃, hs⟩ := bind_eq_ok.1 hs
  cases hs
  obtain ⟨hunit, hout⟩ := unit_handleInstruction h₂
  obtain ⟨he, hi, hn⟩ := halt_handleTrap h₃
  obtain ⟨rf, -, h₁⟩ := bind_eq_ok.1 h₁
  cases h₁
  rw [hunit] at he hi
  rw [hout] at hn
  dsimp only at he hi hn
  have hhalt : (s₃.writeHalt resultTrap).out.halt
      = some (if s.unit.executedInstrs + 1 ≥ s.unit.instrsToRun then .breakpoint
        else resultTrap) := by
    unfold writeHalt
    rw [he, hi, hn, hh]
    rfl
  split
  · exact ⟨he, hi, resultTrap, fun _ => rfl, hhalt⟩
  · rename_i hno
    exact ⟨he, hi, resultTrap, fun hr => absurd (.inr hr) hno, hhalt⟩

theorem clock_withLimits {trap : Bool} {instrs : List (PerfInstr w)}
    (hs : s.clock kernel isa trap instrs cycle = .ok t) :
    ∃ h', (s.withLimits n h).clock kernel isa trap instrs cycle = .ok (t.withLimits n h') := by
  have hbubble : s.writebackBubble cycle = .ok t → ∃ h',
      (s.withLimits n h).writebackBubble cycle = .ok (t.withLimits n h') := by
    intro hb
    unfold writebackBubble at hb ⊢
    split_ifs at hb with hd
    cases hb
    exact ⟨h, if_neg hd⟩
  have hfold : ∀ {instrs : List (PerfInstr w)} {s : WritebackState w M K} {h : Option Trap},
      instrs.foldlM (fun s instr => s.writebackInstructionSystem kernel isa instr cycle) s = .ok t →
      ∃ h', instrs.foldlM (fun s instr => s.writebackInstructionSystem kernel isa instr cycle)
        (s.withLimits n h) = .ok (t.withLimits n h') := by
    intro instrs
    induction instrs with
    | nil =>
      intro s h hs
      cases hs
      exact ⟨h, rfl⟩
    | cons instr instrs ih =>
      intro s h hs
      rw [List.foldlM_cons] at hs
      obtain ⟨u, hu, hs⟩ := bind_eq_ok.1 hs
      obtain ⟨h₁, hu'⟩ := writebackInstructionSystem_withLimits (n := n) (h := h) hu
      obtain ⟨h₂, hs'⟩ := ih (h := h₁) hs
      exact ⟨h₂, by rw [List.foldlM_cons]; exact bind_eq_ok.2 ⟨_, hu', hs'⟩⟩
  unfold clock at hs ⊢
  split_ifs at hs ⊢
  · exact hbubble hs
  · exact hbubble hs
  · exact hfold hs

end WritebackState

/-- The state but for what limits a run. -/
def PerfSim.withLimits (sim : PerfSim w E M K) (instrsToRun : ℕ) (halt pending : Option Trap)
    (currentTrap : Trap) : PerfSim w E M K :=
  { sim with
    currentTrap
    core := { sim.core with
      writeback := { sim.core.writeback with instrsToRun }
      fromWriteback := { sim.core.fromWriteback with halt }
      pending := { sim.core.pending with halt := pending } } }

namespace PerfSim

/-- With the limit, the halt messages and the trap put aside. -/
def unlimited (sim : PerfSim w E M K) : PerfSim w E M K := sim.withLimits 0 none none .noTrap

variable [BPEntry E] [FuncMemory M] {sim sim' next : PerfSim w E M K} {kernel : Kernel w M K}
  {isa : ISA w}

/-- What a cycle writes back, and the state after it. -/
def clockRetired (kernel : Kernel w M K) (isa : ISA w) (sim : PerfSim w E M K) :
    Except SimException (List (PerfInstr w) × PerfSim w E M K) := do
  let next ← sim.clock kernel isa
  return (sim.retired, next)

theorem clockRetired_cases {o : List (PerfInstr w)}
    (h : sim.clockRetired kernel isa = .ok (o, next)) :
    o = sim.retired ∧ sim.core.clock kernel isa sim.fromFetch.datapath = .ok next.core := by
  obtain ⟨next', hn, h⟩ := bind_eq_ok.1 h
  cases h
  obtain ⟨core, hc, hn⟩ := bind_eq_ok.1 hn
  cases hn
  exact ⟨rfl, hc⟩

omit [BPEntry E] [FuncMemory M] in
theorem withLimits_unlimited (h : sim'.unlimited = sim.unlimited) : ∃ n halt pending trap,
    sim' = sim.withLimits n halt pending trap := by
  refine ⟨sim'.core.writeback.instrsToRun, sim'.core.fromWriteback.halt, sim'.core.pending.halt,
    sim'.currentTrap, ?_⟩
  have h' := congrArg (fun s : PerfSim w E M K => s.withLimits sim'.core.writeback.instrsToRun
    sim'.core.fromWriteback.halt sim'.core.pending.halt sim'.currentTrap) h
  exact h'

theorem clock_withLimits (n : ℕ) (halt pending : Option Trap) (trap : Trap)
    (h : sim.clock kernel isa = .ok next) : ∃ halt' trap',
    (sim.withLimits n halt pending trap).clock kernel isa
      = .ok (next.withLimits n halt' none trap') := by
  obtain ⟨core, hc, h⟩ := bind_eq_ok.1 h
  cases h
  obtain ⟨⟨fromDecode, decode⟩, hd, hc⟩ := bind_eq_ok.1 hc
  obtain ⟨⟨backend, mem⟩, hb, hc⟩ := bind_eq_ok.1 hc
  obtain ⟨wb, hw, hc⟩ := bind_eq_ok.1 hc
  cases hc
  obtain ⟨halt', hw'⟩ := WritebackState.clock_withLimits (n := n) (h := pending) hw
  refine ⟨halt', halt.getD trap, ?_⟩
  refine bind_eq_ok.2
    ⟨_, bind_eq_ok.2 ⟨_, hd, bind_eq_ok.2 ⟨_, hb, bind_eq_ok.2 ⟨_, hw', rfl⟩⟩⟩, rfl⟩

/-- What limits a run does not change what a cycle does otherwise. -/
theorem clockRetired_unlimited {o : List (PerfInstr w)} (hsim : sim'.unlimited = sim.unlimited)
    (h : sim.clockRetired kernel isa = .ok (o, next)) : ∃ next',
    sim'.clockRetired kernel isa = .ok (o, next') ∧ next'.unlimited = next.unlimited := by
  obtain ⟨n, halt, pending, trap, rfl⟩ := withLimits_unlimited hsim
  obtain ⟨next', hn, h⟩ := bind_eq_ok.1 h
  cases h
  obtain ⟨halt', trap', h'⟩ := clock_withLimits n halt pending trap hn
  exact ⟨_, bind_eq_ok.2 ⟨_, h', rfl⟩, rfl⟩

end PerfSim

end Limits

namespace PerfSim

variable [BPEntry E] [FuncMemory M] {sim next t u : PerfSim w E M K} {kernel : Kernel w M K}
  {isa : ISA w} {os ps : List (List (PerfInstr w))}

section Compose

/-- The pipeline goes from one state to the other, whatever limits its runs. -/
def Follows (kernel : Kernel w M K) (isa : ISA w) (sim : PerfSim w E M K)
    (os : List (List (PerfInstr w))) (t : PerfSim w E M K) : Prop :=
  ∃ t', Steps (clockRetired kernel isa) sim os t' ∧ t'.unlimited = t.unlimited

theorem steps_of_runLoop : ∀ {cycles : ℕ} {sim : PerfSim w E M K}
    {os : List (List (PerfInstr w))}, runLoop kernel isa cycles sim = .ok (os, t) →
    Steps (clockRetired kernel isa) sim os t
  | 0, _, _, h => by
    cases h
    exact .nil _
  | cycles + 1, _, _, h => by
    unfold runLoop at h
    split_ifs at h
    · cases h
      exact .nil _
    · obtain ⟨next, hn, h⟩ := bind_eq_ok.1 h
      obtain ⟨⟨os, t⟩, hr, h⟩ := bind_eq_ok.1 h
      cases h
      exact .cons (bind_eq_ok.2 ⟨next, hn, rfl⟩) (steps_of_runLoop hr)

/-- A run from a state can be made from every state that is the same but for the limits. -/
theorem follows_of_steps (h : Steps (clockRetired kernel isa) sim os t)
    (hu : u.unlimited = sim.unlimited) : Follows kernel isa u os t :=
  h.follows (R := fun s s' : PerfSim w E M K => s'.unlimited = s.unlimited)
    clockRetired_unlimited hu

theorem follows_of_runs {n : ℕ} (h : sim.Runs kernel isa n os t) : Follows kernel isa sim os t := by
  obtain ⟨cycles, hr, -⟩ := h
  exact follows_of_steps (steps_of_runLoop hr) rfl

theorem Follows.append (h : Follows kernel isa sim os t) (h' : Follows kernel isa t ps u) :
    Follows kernel isa sim (os ++ ps) u := by
  obtain ⟨t', ht, heq⟩ := h
  obtain ⟨u', hu, hequ⟩ := h'
  obtain ⟨u'', hu', heq'⟩ := follows_of_steps hu heq
  exact ⟨u'', ht.append hu', heq'.trans hequ⟩

/-- Of two runs of the pipeline from one state the longer one goes on from where the shorter ends. -/
theorem Follows.extends_of_le (h : Follows kernel isa sim os t) (h' : Follows kernel isa sim ps u)
    (hle : os.length ≤ ps.length) : ∃ qs, ps = os ++ qs ∧ Follows kernel isa t qs u := by
  obtain ⟨t', ht, heq⟩ := h
  obtain ⟨u', hu, hequ⟩ := h'
  obtain ⟨qs, rfl, hq⟩ := ht.extends_of_le hu hle
  obtain ⟨u'', hu', heq'⟩ := follows_of_steps hq heq.symm
  exact ⟨qs, rfl, u'', hu', heq'.trans hequ⟩

end Compose

section Counters

/-- What a cycle does to the counters, when it writes back at most one instruction. -/
structure Counted (sim : PerfSim w E M K) (o : List (PerfInstr w)) (next : PerfSim w E M K) :
    Prop where
  currentTrap : next.currentTrap = sim.core.fromWriteback.halt.getD sim.currentTrap
  pending : next.core.pending = {}
  instrsToRun : next.core.writeback.instrsToRun = sim.core.writeback.instrsToRun
  executedInstrs : next.core.writeback.executedInstrs = sim.core.writeback.executedInstrs + o.length
  bubble : o = [] → next.core.fromWriteback.halt = none
  halt : o ≠ [] → ∃ resultTrap, (resultTrap ≠ .noTrap → next.core.fromWriteback.trap = true)
    ∧ next.core.fromWriteback.halt
      = some (if sim.core.writeback.executedInstrs + 1 ≥ sim.core.writeback.instrsToRun
        then .breakpoint else resultTrap)

theorem counted_clockRetired {o : List (PerfInstr w)} (hp : sim.core.pending.halt = none)
    (ho : o.length ≤ 1) (h : sim.clockRetired kernel isa = .ok (o, next)) : Counted sim o next := by
  obtain ⟨next', hn, h⟩ := bind_eq_ok.1 h
  cases h
  obtain ⟨core, hc, hn⟩ := bind_eq_ok.1 hn
  cases hn
  obtain ⟨e⟩ := Core.clock_cases hc
  rcases WritebackState.clock_cases ho e.writeback with ⟨hnil, hwb⟩ | ⟨instr, hone, hwb⟩
  · have hretired : sim.retired = [] := hnil
    have hunit : core.writeback = sim.core.writeback := by rw [e.unit, hwb]
    have hhalt : core.fromWriteback.halt = none := by rw [e.fromWriteback, hwb, hp]
    refine ⟨rfl, e.pending, ?_, ?_, fun _ => hhalt, fun hn => absurd hretired hn⟩
    · dsimp only
      rw [hunit]
    · rw [hretired]
      dsimp only
      rw [hunit]
      rfl
  · have hretired : sim.retired = [instr] := hone
    obtain ⟨he, hi, resultTrap, htrap, hhalt⟩ :=
      WritebackState.halt_writebackInstructionSystem hp hwb
    rw [← e.unit] at he hi
    rw [← e.fromWriteback] at htrap hhalt
    refine ⟨rfl, e.pending, hi, ?_, fun hn => ?_, fun _ => ⟨resultTrap, htrap, hhalt⟩⟩
    · rw [hretired]
      exact he
    · rw [hretired] at hn
      cases hn

/-- A bubble leaves the registers and the kernel alone. -/
theorem rf_of_bubble (h : sim.clockRetired kernel isa = .ok ([], next)) :
    next.core.rf = sim.core.rf ∧ next.core.kernelState = sim.core.kernelState := by
  obtain ⟨hnil, hc⟩ := clockRetired_cases h
  obtain ⟨e⟩ := Core.clock_cases hc
  have hle : sim.retired.length ≤ 1 := by simp [← hnil]
  rcases WritebackState.clock_cases hle e.writeback with ⟨-, hwb⟩ | ⟨instr, hone, -⟩
  · rw [e.rf, e.kernelState, hwb]
    exact ⟨rfl, rfl⟩
  · have hone' : sim.retired = [instr] := hone
    rw [hone'] at hnil
    cases hnil

theorem runLoop_stop (cycles : ℕ) (h : sim.currentTrap ≠ .noTrap) :
    runLoop kernel isa cycles sim = .ok ([], sim) := by
  cases cycles with
  | zero => rfl
  | succ cycles => exact if_pos h

/-- The loop goes on as long as there is no trap. -/
theorem runLoop_next {cycles : ℕ} (h : runLoop kernel isa cycles sim = .ok (os, t))
    (ht : t.currentTrap ≠ .noTrap) (hs : sim.currentTrap = .noTrap) : ∃ cycles' next os',
    sim.clockRetired kernel isa = .ok (sim.retired, next)
      ∧ runLoop kernel isa cycles' next = .ok (os', t) ∧ os = sim.retired :: os' := by
  cases cycles with
  | zero =>
    cases h
    exact absurd hs ht
  | succ cycles =>
    unfold runLoop at h
    rw [if_neg (by simp [hs])] at h
    obtain ⟨next, hn, h⟩ := bind_eq_ok.1 h
    obtain ⟨⟨os', t'⟩, hr, h⟩ := bind_eq_ok.1 h
    cases h
    exact ⟨cycles, next, os', bind_eq_ok.2 ⟨next, hn, rfl⟩, hr, rfl⟩

/-- The loop is under way: no trap has come, and no message of one is on the way. -/
structure Running (n : ℕ) (sim : PerfSim w E M K) : Prop where
  currentTrap : sim.currentTrap = .noTrap
  halt : sim.core.fromWriteback.halt.getD .noTrap = .noTrap
  pending : sim.core.pending.halt = none
  instrsToRun : sim.core.writeback.instrsToRun = n
  executedInstrs : sim.core.writeback.executedInstrs < n

/-- With a halt message on the way one more cycle is made. -/
theorem last_cycle {trap : Trap} {cycles : ℕ} (hs : sim.currentTrap = .noTrap)
    (hp : sim.core.pending = {}) (hhalt : sim.core.fromWriteback.halt = some trap)
    (htrap : trap ≠ .noTrap) (hone : ∀ o ∈ os, o.length ≤ 1)
    (h : runLoop kernel isa cycles sim = .ok (os, t)) (ht : t.currentTrap ≠ .noTrap) :
    os = [sim.retired] ∧ t.core.writeback.executedInstrs
      = sim.core.writeback.executedInstrs + sim.retired.length := by
  obtain ⟨cycles', next, os', hstep, hrest, rfl⟩ := runLoop_next h ht hs
  have hc := counted_clockRetired (by rw [hp]) (hone _ List.mem_cons_self) hstep
  have hnext : next.currentTrap ≠ .noTrap := by
    rw [hc.currentTrap, hhalt]
    exact htrap
  rw [runLoop_stop cycles' hnext] at hrest
  cases hrest
  exact ⟨rfl, hc.executedInstrs⟩

/-- A loop that ends with the limit reached: what it writes back before its last cycle is as much
as the limit still allows. -/
theorem length_retired_of_limit {n : ℕ} : ∀ {os : List (List (PerfInstr w))}
    {sim : PerfSim w E M K} {cycles : ℕ}, Running n sim → (∀ o ∈ os, o.length ≤ 1) →
    runLoop kernel isa cycles sim = .ok (os, t) → t.currentTrap ≠ .noTrap →
    n ≤ t.core.writeback.executedInstrs →
    ∃ os' o, os = os' ++ [o] ∧ sim.core.writeback.executedInstrs + os'.flatten.length = n
  | [], _, _, hr, _, h, ht, _ => by
    obtain ⟨_, _, _, _, _, hos⟩ := runLoop_next h ht hr.currentTrap
    cases hos
  | o :: os, sim, _, hr, hone, h, ht, hn => by
    obtain ⟨cycles', next, _, hstep, hrest, hos⟩ := runLoop_next h ht hr.currentTrap
    cases hos
    have hone' : ∀ o ∈ os, o.length ≤ 1 := fun o ho => hone o (List.mem_cons_of_mem _ ho)
    have hc := counted_clockRetired hr.pending (hone _ List.mem_cons_self) hstep
    have hnext : next.currentTrap = .noTrap := by
      rw [hc.currentTrap, hr.currentTrap]
      exact hr.halt
    have hpending : next.core.pending.halt = none := by rw [hc.pending]
    have hlimit : next.core.writeback.instrsToRun = n := hc.instrsToRun.trans hr.instrsToRun
    have hexecuted := hc.executedInstrs
    have hrunning : next.core.fromWriteback.halt.getD .noTrap = .noTrap →
        next.core.writeback.executedInstrs < n →
        ∃ os' o, sim.retired :: os = os' ++ [o]
          ∧ sim.core.writeback.executedInstrs + os'.flatten.length = n := by
      intro hhalt hlt
      obtain ⟨os', o, rfl, hsum⟩ := length_retired_of_limit
        ⟨hnext, hhalt, hpending, hlimit, hlt⟩ hone' hrest ht hn
      refine ⟨sim.retired :: os', o, rfl, ?_⟩
      rw [List.flatten_cons, List.length_append]
      omega
    by_cases hnil : sim.retired = []
    · have hlt := hr.executedInstrs
      rw [hnil] at hexecuted
      exact hrunning (by rw [hc.bubble hnil]; rfl) (by rw [hexecuted]; exact hlt)
    · obtain ⟨resultTrap, htrap, hhalt⟩ := hc.halt hnil
      have hlen : sim.retired.length = 1 :=
        le_antisymm (hone _ List.mem_cons_self) (List.length_pos_of_ne_nil hnil)
      have hlt := hr.executedInstrs
      rw [hr.instrsToRun] at hhalt
      by_cases hlim : sim.core.writeback.executedInstrs + 1 ≥ n
      · -- the limit is reached, and the message of it arrives in the next cycle
        rw [if_pos hlim] at hhalt
        obtain ⟨rfl, -⟩ := last_cycle hnext hc.pending hhalt (by decide) hone' hrest ht
        refine ⟨[sim.retired], next.retired, rfl, ?_⟩
        simp only [List.flatten_cons, List.flatten_nil, List.append_nil, hlen]
        omega
      · rw [if_neg hlim] at hhalt
        by_cases hno : resultTrap = .noTrap
        · exact hrunning (by rw [hhalt, hno]; rfl) (by omega)
        · -- a trap: nothing is written back in the cycle after it
          obtain ⟨-, hlast⟩ := last_cycle hnext hc.pending hhalt hno hone' hrest ht
          have hflushed : next.retired = [] := if_pos (htrap hno)
          rw [hflushed, List.length_nil] at hlast
          omega

end Counters

section Result

/-- Nothing has been executed yet, whatever the program, the registers and the predictor are. -/
structure New (longAluLatency : ℕ) (sim : PerfSim w E M K) : Prop where
  atStart : sim.core.AtStart longAluLatency
  executedInstrs : sim.core.writeback.executedInstrs = 0
  pending : sim.core.pending.halt = none

/-- At most one instruction is written back in a cycle. -/
theorem length_retired_le {longAluLatency : ℕ} (hge : 2 ≤ longAluLatency)
    (hlt : longAluLatency < 64) (hstart : sim.core.AtStart longAluLatency)
    (h : Steps (clockRetired kernel isa) sim os t) : ∀ o ∈ os, o.length ≤ 1 := by
  obtain ⟨state, rfl, -, hstep⟩ := h.states
  let run : CoreRun w M K :=
    { kernel, isa, longAluLatency
      length := os.length
      core c := (state c).core
      fetched c := (state c).fromFetch.datapath
      latency_ge := hge
      latency_lt := hlt
      start := hstart
      step c hc := (clockRetired_cases (hstep c hc)).2 }
  intro o ho
  obtain ⟨c, hc, rfl⟩ := List.getElem_of_mem ho
  rw [(clockRetired_cases (hstep c hc)).1]
  have harrived := run.length_arrived_le (c := c) hc.le
  unfold retired
  split_ifs
  · exact Nat.zero_le 1
  · exact harrived

theorem Follows.rf_eq (h : Follows kernel isa t os u) (hos : os.flatten = []) :
    u.core.rf = t.core.rf ∧ u.core.kernelState = t.core.kernelState := by
  obtain ⟨u', hu, heq⟩ := h
  have hsame : u'.core.rf = t.core.rf ∧ u'.core.kernelState = t.core.kernelState := by
    clear heq
    induction hu with
    | nil => exact ⟨rfl, rfl⟩
    | cons hstep _ ih =>
      rw [List.flatten_cons, List.append_eq_nil_iff] at hos
      obtain ⟨rfl, hos⟩ := hos
      obtain ⟨hrf, hk⟩ := ih hos
      obtain ⟨hrf', hk'⟩ := rf_of_bubble hstep
      exact ⟨hrf.trans hrf', hk.trans hk'⟩
  have hrf := congrArg (fun s : PerfSim w E M K => s.core.rf) heq
  have hk := congrArg (fun s : PerfSim w E M K => s.core.kernelState) heq
  exact ⟨hrf.symm.trans hsame.1, hk.symm.trans hsame.2⟩

/-- The shorter of two runs from a state, and the longer one. -/
theorem Follows.compare (h : Follows kernel isa sim os t) (h' : Follows kernel isa sim ps u)
    (hle : os.length ≤ ps.length) :
    os <+: ps
      ∧ (os.flatten = ps.flatten →
        u.core.rf = t.core.rf ∧ u.core.kernelState = t.core.kernelState)
      ∧ (os.length = ps.length → os = ps ∧ u.unlimited = t.unlimited) := by
  obtain ⟨qs, rfl, hq⟩ := h.extends_of_le h' hle
  refine ⟨List.prefix_append os qs, fun hflat => hq.rf_eq ?_, fun hlen => ?_⟩
  · rw [List.flatten_append] at hflat
    simpa using hflat
  · obtain rfl : qs = [] := by simpa using hlen
    obtain ⟨u', hu, heq⟩ := hq
    cases hu
    exact ⟨by simp, heq.symm⟩

/-- Two runs one after the other and a single run are runs of one pipeline, stopped after so many
cycles. -/
theorem runs_share_pipeline {a b n : ℕ} {os₁ os₂ : List (List (PerfInstr w))}
    {t₁ t₂ : PerfSim w E M K} (h₁ : sim.Runs kernel isa a os₁ t₁) (h₂ : t₁.Runs kernel isa b os₂ t₂)
    (h : sim.Runs kernel isa n os t) :
    (os₁ ++ os₂ <+: os ∨ os <+: os₁ ++ os₂)
      ∧ ((os₁ ++ os₂).flatten = os.flatten →
        t.core.rf = t₂.core.rf ∧ t.core.kernelState = t₂.core.kernelState)
      ∧ ((os₁ ++ os₂).length = os.length →
        os₁ ++ os₂ = os ∧ t.unlimited = t₂.unlimited) := by
  have hboth := (follows_of_runs h₁).append (follows_of_runs h₂)
  have hsingle := follows_of_runs h
  rcases le_total (os₁ ++ os₂).length os.length with hle | hle
  · obtain ⟨hp, hrf, hall⟩ := hboth.compare hsingle hle
    exact ⟨.inl hp, hrf, hall⟩
  · obtain ⟨hp, hrf, hall⟩ := hsingle.compare hboth hle
    refine ⟨.inr hp, fun hflat => ?_, fun hlen => ?_⟩
    · obtain ⟨h₁, h₂⟩ := hrf hflat.symm
      exact ⟨h₁.symm, h₂.symm⟩
    · obtain ⟨h₁, h₂⟩ := hall hlen.symm
      exact ⟨h₁.symm, h₂.symm⟩

/-- The first run of a simulator, when it ends with its limit reached: the last cycle is the one in
which the halt message arrives. -/
theorem limit_of_first_run {longAluLatency n : ℕ} (hge : 2 ≤ longAluLatency)
    (hlt : longAluLatency < 64) (hnew : sim.New longAluLatency) (hn : 0 < n)
    (h : sim.Runs kernel isa n os t) (hlimit : n ≤ t.core.writeback.executedInstrs) :
    ∃ os' o, os = os' ++ [o] ∧ os'.flatten.length = n ∧ o.length ≤ 1 := by
  obtain ⟨cycles, hr, ht⟩ := h
  have hstart : (sim.beginRun n).core.AtStart longAluLatency :=
    ⟨hnew.atStart.decode, hnew.atStart.backend, hnew.atStart.fromDecode,
      hnew.atStart.fromWriteback⟩
  have hone := length_retired_le hge hlt hstart (steps_of_runLoop hr)
  have hhalt : (sim.beginRun n).core.fromWriteback.halt.getD .noTrap = .noTrap := by
    rw [hstart.fromWriteback]
    rfl
  have hrunning : Running n (sim.beginRun n) :=
    ⟨rfl, hhalt, hnew.pending, rfl, hnew.executedInstrs.trans_lt hn⟩
  obtain ⟨os', o, rfl, hsum⟩ := length_retired_of_limit hrunning hone hr ht hlimit
  have hzero : (sim.beginRun n).core.writeback.executedInstrs = 0 := hnew.executedInstrs
  rw [hzero, Nat.zero_add] at hsum
  exact ⟨os', o, rfl, hsum, hone o (by simp)⟩

/-- Runs are stops of one pipeline. What two runs one after the other write back and what a single
run writes back is one the beginning of the other, the registers are the same when they write back
the same, and all of the state is after as many cycles. A first run that ends with its limit reached
writes back as many instructions as the limit, and what arrives in one cycle more. -/
theorem runs_compose (kernel : Kernel w M K) (isa : ISA w) :
    (∀ {sim t₁ t₂ t : PerfSim w E M K} {a b : ℕ} {os₁ os₂ os : List (List (PerfInstr w))},
      sim.Runs kernel isa a os₁ t₁ → t₁.Runs kernel isa b os₂ t₂ →
      sim.Runs kernel isa (a + b) os t →
      (os₁ ++ os₂ <+: os ∨ os <+: os₁ ++ os₂)
        ∧ ((os₁ ++ os₂).flatten = os.flatten →
          t.core.rf = t₂.core.rf ∧ t.core.kernelState = t₂.core.kernelState)
        ∧ ((os₁ ++ os₂).length = os.length → os₁ ++ os₂ = os ∧ t.unlimited = t₂.unlimited))
      ∧ ∀ {sim t : PerfSim w E M K} {longAluLatency n : ℕ} {os : List (List (PerfInstr w))},
        2 ≤ longAluLatency → longAluLatency < 64 → sim.New longAluLatency → 0 < n →
        sim.Runs kernel isa n os t → n ≤ t.core.writeback.executedInstrs →
        ∃ os' o, os = os' ++ [o] ∧ os'.flatten.length = n ∧ o.length ≤ 1 :=
  ⟨runs_share_pipeline, limit_of_first_run⟩

end Result

section Example

/-- `beq $zero, $zero, 0x20` at the address 16, and zeroes everywhere else. -/
def branchMemory : PlainMemory where
  addrBits := 6
  arena := List.replicate 16 0#8 ++ [0x03#8, 0x00#8, 0x00#8, 0x10#8] ++ List.replicate 44 0#8
  host _ := 0#8
  bits_lt := PlainMemory.six_bits_lt
  length_arena := rfl

/-- A MARS simulator that starts at that address; its cache always hits. -/
def branchSim : PerfSim 32 (BPEntryAlways false) PlainMemory Unit :=
  setTarget
    { fetch :=
        { config := ⟨.noPrefetch, 32#32, 64#32⟩
          bp := ⟨fun _ _ => .mk, fun _ _ => 0#64, .infinite .create⟩
          tags := .alwaysHit
          memory := .create 32 .little 16 }
      core := .create (Mips.isa .mars) 3 branchMemory () } ⟨16#64, 0#64⟩

/-- Three runs that end by their limits: of one instruction, of two more, and of three at once. -/
theorem runs_branchSim : ∃ os₁ os₂ os t₁ t₂ t,
    branchSim.Runs (.dummy 32 PlainMemory) (Mips.isa .mars) 1 os₁ t₁
      ∧ t₁.Runs (.dummy 32 PlainMemory) (Mips.isa .mars) 2 os₂ t₂
      ∧ branchSim.Runs (.dummy 32 PlainMemory) (Mips.isa .mars) 3 os t
      ∧ (t₁.currentTrap = .breakpoint ∧ 1 ≤ t₁.core.writeback.executedInstrs)
      ∧ (t₂.currentTrap = .breakpoint ∧ 1 + 2 ≤ t₂.core.writeback.executedInstrs)
      ∧ (t.currentTrap = .breakpoint ∧ 3 ≤ t.core.writeback.executedInstrs)
      ∧ os₁.flatten.length = 1 ∧ os₂.flatten.length = 2 ∧ os.flatten.length = 4 :=
  ⟨_, _, _, _, _, _, ⟨12, rfl, by decide⟩, ⟨12, rfl, by decide⟩, ⟨12, rfl, by decide⟩,
    ⟨rfl, by decide⟩, ⟨rfl, by decide⟩, ⟨rfl, by decide⟩, rfl, rfl, rfl⟩

theorem new_branchSim : branchSim.New 3 :=
  ⟨(Core.atStart_create _ _ _ _).setTarget _, rfl, rfl⟩

/-- Three instructions and four, and the one that arrived in the cycle of the halt message. -/
theorem runs_compose_branch : ∃ os₁ os₂ os t₁ t₂ t,
    branchSim.Runs (.dummy 32 PlainMemory) (Mips.isa .mars) 1 os₁ t₁
      ∧ t₁.Runs (.dummy 32 PlainMemory) (Mips.isa .mars) 2 os₂ t₂
      ∧ branchSim.Runs (.dummy 32 PlainMemory) (Mips.isa .mars) (1 + 2) os t
      ∧ (os₁ ++ os₂ <+: os ∨ os <+: os₁ ++ os₂)
      ∧ ∃ os' o, os = os' ++ [o] ∧ os'.flatten.length = 3 ∧ o.length ≤ 1 := by
  obtain ⟨os₁, os₂, os, t₁, t₂, t, h₁, h₂, h, -, -, ⟨-, hlimit⟩, -⟩ := runs_branchSim
  obtain ⟨hshare, hfirst⟩ := runs_compose (w := 32) (E := BPEntryAlways false) (M := PlainMemory)
    (.dummy 32 PlainMemory) (Mips.isa .mars)
  exact ⟨os₁, os₂, os, t₁, t₂, t, h₁, h₂, h, (hshare h₁ h₂ h).1,
    hfirst (by decide) (by decide) new_branchSim (by decide) h hlimit⟩

/-- Runs of one instruction and of two write back three, and a run of three writes back four. -/
theorem not_runs_compose : ∃ os₁ os₂ os t₁ t₂ t,
    branchSim.Runs (.dummy 32 PlainMemory) (Mips.isa .mars) 1 os₁ t₁
      ∧ t₁.Runs (.dummy 32 PlainMemory) (Mips.isa .mars) 2 os₂ t₂
      ∧ branchSim.Runs (.dummy 32 PlainMemory) (Mips.isa .mars) (1 + 2) os t
      ∧ t₁.currentTrap = .breakpoint ∧ t₂.currentTrap = .breakpoint ∧ t.currentTrap = .breakpoint
      ∧ (os₁ ++ os₂).flatten ≠ os.flatten ∧ os.flatten.length ≠ 3 := by
  obtain ⟨os₁, os₂, os, t₁, t₂, t, h₁, h₂, h, ⟨hb₁, -⟩, ⟨hb₂, -⟩, ⟨hb, -⟩, hl₁, hl₂, hl⟩ :=
    runs_branchSim
  refine ⟨os₁, os₂, os, t₁, t₂, t, h₁, h₂, h, hb₁, hb₂, hb, fun heq => ?_, by omega⟩
  rw [← heq, List.flatten_append, List.length_append, hl₁, hl₂] at hl
  cases hl

end Example

end PerfSim

end MiptMips
