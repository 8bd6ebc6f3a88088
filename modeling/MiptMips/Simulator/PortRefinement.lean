import MiptMips.Modules.PortEval
import MiptMips.Pipeline.InOrder
import MiptMips.Simulator.Following

/-!
# The ports give what the other modules have written

The simulator with its ports does in a cycle what the simulator does in which every module finds
what the others wrote in the cycle before. No ring runs over, no write is refused and nothing is
read that is not there: a port is written once in a cycle, but for those of Writeback, and these
are empty when they are written twice.
-/

namespace MiptMips

open Machines PortProg

variable {w : ℕ} {E M K : Type} [BPEntry E] [FuncMemory M]

section Phases

/-- The place of a module in the clock tree. -/
def Rp.phase : Rp → ℕ
  | .fetch _ => 0
  | .decode _ => 1
  | .execute _ => 2
  | .mem _ => 3
  | .branch _ => 4
  | .writeback _ => 5
  | .halt => 6

def Wp.phase : Wp → ℕ
  | .fetch _ => 0
  | .decode _ => 1
  | .execute _ => 2
  | .mem _ => 3
  | .branch _ => 4
  | .writeback _ => 5

/-- Values on all ports. -/
abbrev PortValues (w : ℕ) := (k : Wp) → List (Wp.T w k)

variable {longAluLatency cycle n : ℕ} {due start final : PortValues w}
  {onWay : OnWay (Wp.T w) Rp.writer} {ports : PortSystem (Wp.T w) Rp.writer}

/-- Within a cycle, when the first modules of the clock tree have run: the others find what was to
be read in the cycle, and the ports of the others are as in the beginning. -/
structure Phase (longAluLatency cycle : ℕ) (due start final : PortValues w)
    (onWay : OnWay (Wp.T w) Rp.writer) (n : ℕ) (ports : PortSystem (Wp.T w) Rp.writer) : Prop where
  shows : ∃ unread, ports.Shows Wp.bandwidth (Rp.latency longAluLatency) cycle unread onWay
      (fun k => if k.phase < n then final k else start k)
    ∧ (∀ i, (unread i).length ≤ (due i.writer).length)
    ∧ ∀ i, n ≤ i.phase → unread i = due i.writer

/-- What is written to a port is let through and fits into the rings. -/
structure HasRoom (cycle : ℕ) (due final : PortValues w) (k : Wp) : Prop where
  counter : counterOf cycle (final k).length ≤ 1
  room : (due k).length + (final k).length ≤ 2

theorem hasRoom_of_le_one {k : Wp} (hd : (due k).length ≤ 1) (hf : (final k).length ≤ 1) :
    HasRoom cycle due final k := by
  refine ⟨?_, by omega⟩
  unfold counterOf
  split_ifs <;> omega

variable {In Out α : Type} [DecidableEq In] [DecidableEq Out] {wire : In → Rp} {out : Out → Wp}
  {p : PortProg (fun i => Wp.T w (wire i).writer) (fun o => Wp.T w (out o)) α} {a : α}

variable (wire out) in
/-- The next module of the clock tree runs. -/
theorem Phase.run
    (hload : ∀ i, ReadPort.load (i.latency longAluLatency) (onWay i) + 1
      ≤ i.latency longAluLatency)
    (h : Phase longAluLatency cycle due start final onWay n ports)
    (hwire : Function.Injective wire) (hout : Function.Injective out)
    (hin : ∀ i, (wire i).phase = n) (hk : ∀ k : Wp, k.phase = n ↔ ∃ o, out o = k)
    (hends : p.Ends ⟨fun i => due (wire i).writer, fun o => start (out o)⟩ a
      fun o => final (out o))
    (hroom : ∀ o, HasRoom cycle due final (out o)) :
    ∃ ports', PortSim.runModule wire out cycle p ports = .ok (a, ports')
      ∧ Phase longAluLatency cycle due start final onWay (n + 1) ports' := by
  obtain ⟨unread, hshows, hle, hkept⟩ := h.shows
  set written : PortValues w := fun k => if k.phase < n then final k else start k with hwritten
  have hview : PortSystem.viewOf wire out unread written
      = ⟨fun i => due (wire i).writer, fun o => start (out o)⟩ := by
    unfold PortSystem.viewOf
    congr 1
    · funext i
      exact hkept _ (hin i).ge
    · funext o
      exact if_neg ((hk (out o)).2 ⟨o, rfl⟩).not_lt
  obtain ⟨u, heval⟩ := hends
  rw [← hview] at heval
  have hfits : PortSystem.Fits Wp.bandwidth (Rp.latency longAluLatency) cycle unread onWay out
      fun o => final (out o) := by
    refine ⟨fun o => (hroom o).counter, fun o i hi => ?_⟩
    have hdue := (hle i).trans_eq (congrArg (fun k => (due k).length) hi)
    have := (hroom o).room
    have := hload i
    show _ ≤ (i.latency longAluLatency + 1) * 1
    omega
  obtain ⟨ports', unread', written', hrun, hshows', hleaves⟩ := hshows.run hwire hout
    (fun i => (hload i).trans' (Nat.le_add_left _ _)) p (by rw [heval]; nofun)
    (by rw [heval]; exact hfits)
  rw [heval] at hrun hleaves
  refine ⟨ports', ?_, ⟨unread', ?_, fun i => ?_, fun i hi => ?_⟩⟩
  · unfold PortSim.runModule
    rw [hrun]
  · have hwritten' : written' = fun k => if k.phase < n + 1 then final k else start k := by
      funext k
      by_cases hphase : k.phase = n
      · obtain ⟨o, rfl⟩ := (hk k).1 hphase
        rw [if_pos (by omega)]
        exact congrFun (congrArg PortView.written hleaves.view) o
      · rw [hleaves.written_eq k fun o ho => hphase ((hk k).2 ⟨o, ho⟩), hwritten]
        exact if_congr (by omega) rfl rfl
    rw [← hwritten']
    exact hshows'
  · refine le_trans ?_ (hle i)
    by_cases hi : ∃ j, wire j = i
    · obtain ⟨j, rfl⟩ := hi
      have := PortProg.length_unread_eval j p (PortSystem.viewOf wire out unread written)
      rw [heval] at this
      have hu : unread' (wire j) = u j := congrFun (congrArg PortView.unread hleaves.view) j
      rw [hu]
      exact this
    · rw [hleaves.unread_eq i fun j hj => hi ⟨j, hj⟩]
  · rw [hleaves.unread_eq i fun j hj => by rw [← hj, hin] at hi; omega]
    exact hkept i (by omega)

end Phases

section Values

/-- What is on the ports when the modules have written so. -/
def portValues (fetch : FetchOut w) (held : Option Target) (decode : DecodeOut w)
    (execute : ExecuteOut w) (long : Option (PerfInstr w)) (mem : MemOut w) (branch : BranchOut w)
    (writeback : Writeback.Written w) : PortValues w
  | .fetch p => Fetch.outputs fetch held p
  | .decode p => Decode.outputs decode p
  | .execute p => Execute.outputs execute long p
  | .mem p => Mem.outputs mem p
  | .branch p => Branch.outputs branch p
  | .writeback p => writeback p

/-- What only Writeback has written. -/
def pendingValues (writeback : Writeback.Written w) : PortValues w :=
  portValues {} none {} {} none {} {} writeback

theorem pendingValues_empty :
    pendingValues (fun _ => []) = fun k : Wp => ([] : List (Wp.T w k)) := by
  funext k
  rcases k with p | p | p | p | p | p
  · exact congrFun Fetch.outputs_empty p
  · exact congrFun Decode.outputs_empty p
  · exact congrFun Execute.outputs_empty p
  · exact congrFun Mem.outputs_empty p
  · exact congrFun Branch.outputs_empty p
  · rfl

theorem length_toList_le {α : Type} (o : Option α) : o.toList.length ≤ 1 := by
  cases o <;> simp

theorem length_signal_le (b : Bool) : (signal b).length ≤ 1 := by cases b <;> simp

/-- A module but Writeback writes to a port once. -/
theorem length_portValues_le {fetch : FetchOut w} {held : Option Target} {decode : DecodeOut w}
    {execute : ExecuteOut w} {long : Option (PerfInstr w)} {mem : MemOut w} {branch : BranchOut w}
    {writeback : Writeback.Written w} (hone : execute.writeback.length ≤ 1) (k : Wp)
    (hk : k.phase ≠ 5) :
    (portValues fetch held decode execute long mem branch writeback k).length ≤ 1 := by
  rcases k with p | p | p | p | p | p
  · rcases p
    case hitOrMiss =>
      show (if fetch.hitOrMiss then [false] else []).length ≤ 1
      split_ifs <;> simp
    all_goals exact length_toList_le _
  · cases p
    case stall => exact length_signal_le _
    case flushFetch => exact length_signal_le _
    all_goals exact length_toList_le _
  · cases p
    case writebackDatapath => exact hone
    all_goals exact length_toList_le _
  · cases p <;> exact length_toList_le _
  · cases p
    case flushAll => exact length_signal_le _
    case bypassingUnitFlushNotify => exact length_signal_le _
    all_goals exact length_toList_le _
  · exact absurd rfl hk

end Values

section Directions

/-- The stages on the scoreboard name one of the bypass ports. -/
def DataBypass.HasDirections (unit : DataBypass) : Prop :=
  ∀ i, (unit.scoreboard i).currentStage.bypassDirection ≤ 4
    ∧ (unit.scoreboard i).nextStageAfterFirstExecutionStage.bypassDirection ≤ 4

namespace DataBypass

variable {unit : DataBypass}

/-- An entry that names bypass ports. -/
def EntryHasDirections (entry : RegisterInfo) : Prop :=
  entry.currentStage.bypassDirection ≤ 4
    ∧ entry.nextStageAfterFirstExecutionStage.bypassDirection ≤ 4

theorem HasDirections.setEntry (h : unit.HasDirections) (num : Register) {entry : RegisterInfo}
    (hentry : EntryHasDirections entry) : (unit.setEntry num entry).HasDirections := by
  intro i
  unfold DataBypass.setEntry
  dsimp only
  split_ifs
  · exact hentry
  · exact h i

theorem direction_setNextStage (entry : RegisterInfo) (instr : PerfInstr w) :
    ((entry.setNextStageAfterFirstExecutionStage instr).nextStageAfterFirstExecutionStage
      ).bypassDirection ≤ 4 := by
  unfold RegisterInfo.setNextStageAfterFirstExecutionStage
  dsimp only
  split_ifs
  · exact Nat.zero_le _
  · exact (by decide : 4 ≤ 4)
  · exact (by decide : 2 ≤ 4)
  · exact (by decide : 3 ≤ 4)

theorem HasDirections.traceNewInstr (h : unit.HasDirections) (instr : PerfInstr w) :
    (unit.traceNewInstr instr).HasDirections := by
  have hfirst (unit : DataBypass) (h : unit.HasDirections) (num : Register) :
      (unit.traceNewDstRegister instr num).HasDirections := by
    unfold traceNewDstRegister
    refine h.setEntry num ⟨?_, direction_setNextStage _ instr⟩
    exact (by decide : 0 ≤ 4)
  have hsecond (unit : DataBypass) (h : unit.HasDirections) (num : Register) :
      (unit.traceNewDst2Register instr num).HasDirections := by
    unfold traceNewDst2Register
    refine h.setEntry num ⟨?_, direction_setNextStage _ instr⟩
    exact (by decide : 0 ≤ 4)
  unfold DataBypass.traceNewInstr
  dsimp only
  have hunit : ({ unit with operationLatency := unit.getInstructionLatency instr } :
      DataBypass).HasDirections := h
  split_ifs
  · exact hunit
  · exact hfirst _ hunit _
  · exact hsecond _ hunit _
  · exact hsecond _ (hfirst _ hunit _) _

theorem HasDirections.update (h : unit.HasDirections) : unit.update.HasDirections := by
  intro i
  obtain ⟨hc, hn⟩ := h i
  show EntryHasDirections (unit.updateEntry (unit.scoreboard i))
  unfold updateEntry
  dsimp only
  split_ifs
  · exact ⟨hc, hn⟩
  · exact ⟨Nat.zero_le _, Nat.zero_le _⟩
  · exact ⟨hn, hn⟩
  · exact ⟨(by decide : 3 ≤ 4), hn⟩
  · exact ⟨hc, hn⟩

theorem HasDirections.handleFlush (h : unit.HasDirections) : unit.handleFlush.HasDirections := by
  intro i
  unfold DataBypass.handleFlush
  dsimp only
  split_ifs
  · exact ⟨Nat.zero_le _, Nat.zero_le _⟩
  · exact h i

theorem HasDirections.clockUnit (h : unit.HasDirections) (input : DecodeIn w) :
    (Decode.clockUnit unit input).HasDirections := by
  unfold Decode.clockUnit
  rcases input.bypassingUnitNotify with _ | notified <;> dsimp only <;> split_ifs
  · exact h.update.handleFlush
  · exact h.update
  · exact (h.update.traceNewInstr notified).handleFlush
  · exact h.update.traceNewInstr notified

theorem HasDirections.command (h : unit.HasDirections) {instr : PerfInstr w} {index : Fin 2}
    {command : BypassCommand} (hc : command ∈ Decode.command unit instr index) :
    command.getBypassDirection ≤ 4 := by
  unfold Decode.command at hc
  split_ifs at hc
  · obtain rfl := Option.some.inj hc
    unfold BypassCommand.getBypassDirection
    split_ifs
    · decide
    · exact (h _).1
  · cases hc

end DataBypass

theorem Decode.hasDirections_clock {unit unit' : DataBypass} {rf : RF w} {input : DecodeIn w}
    {out : DecodeOut w} (h : unit.HasDirections) (hs : clock unit rf input = .ok (out, unit')) :
    unit'.HasDirections ∧ ∀ index, ∀ command ∈ out.commands index,
      command.getBypassDirection ≤ 4 := by
  have hcommands (instr : PerfInstr w) : (handleMisprediction unit' input instr).commands
      = fun _ => none := by
    unfold handleMisprediction
    split_ifs <;> rfl
  obtain ⟨hunit, hcases⟩ := clock_cases hs
  have hunit' : unit'.HasDirections := hunit ▸ h.clockUnit input
  refine ⟨hunit', fun index command hc => ?_⟩
  rcases hcases with ⟨-, rfl⟩ | ⟨instr, hb⟩ | ⟨instr, read, hl⟩
  · cases hc
  · rw [hb.out, show ({ handleMisprediction unit' input instr with
      stall := true, stallDatapath := some instr } : DecodeOut w).commands = _ from
      hcommands instr] at hc
    cases hc
  · rw [hl.out] at hc
    exact hunit'.command hc

end Directions

section Matches

variable (longAluLatency : ℕ) (s : PortSim w E M K) (sim : PerfSim w E M K)

/-- What has been written in a cycle. -/
def PerfSim.written (next : PerfSim w E M K) (held : Option Target) (long : Option (PerfInstr w))
    (writeback : Writeback.Written w) : PortValues w :=
  portValues next.fromFetch held next.core.fromDecode next.core.backend.fromExecute long
    next.core.backend.fromMem next.core.backend.fromBranch writeback

/-- What is to be read from the ports in a cycle. -/
def PerfSim.due (sim : PerfSim w E M K) (writeback : Writeback.Written w) : PortValues w :=
  sim.written sim.fetch.longLatencyPCHolder.out
    sim.core.backend.execute.longLatencyExecutionUnit.out writeback

/-- The ports of the units with a latency hold what is in the units. -/
structure PerfSim.HoldsUnits (sim : PerfSim w E M K) (onWay : OnWay (Wp.T w) Rp.writer) : Prop where
  pcHolder : ∀ j, onWay (.fetch .longLatencyPCHolder) j
    = (sim.fetch.longLatencyPCHolder.item (j + 1)).toList
  executionUnit : ∀ j, onWay (.execute .longLatencyExecutionUnit) j
    = (sim.core.backend.execute.longLatencyExecutionUnit.item (j + 1)).toList

/-- What Writeback has written, before the cycle and already in it. -/
structure PerfSim.WritebackPorts (sim : PerfSim w E M K) (n m k : ℕ)
    (due pending : Writeback.Written w) : Prop where
  due : Writeback.Wrote n m sim.core.fromWriteback due
  pending : Writeback.Wrote k 0 sim.core.pending pending
  targets_le : n ≤ 2
  halts_le : m ≤ 1
  results_le : sim.core.fromWriteback.bypass.length ≤ 1
  pending_le : k ≤ 1
  pending_bypass : sim.core.pending.bypass = []
  pending_first : k = 0 ∨ sim.core.currCycle = 0 ∧ n = 0

/-- The simulator with its ports and the one without are in the same state. -/
structure PortSim.Matches : Prop where
  currCycle : s.currCycle = sim.core.currCycle
  fetch : s.fetch = sim.fetch.unit
  decode : s.decode = sim.core.decode
  execute : s.execute = sim.core.backend.execute.unit
  writeback : s.writeback = sim.core.writeback
  rf : s.rf = sim.core.rf
  mem : s.mem = sim.core.mem
  kernelState : s.kernelState = sim.core.kernelState
  currentTrap : s.currentTrap = sim.currentTrap
  pcHolder : sim.fetch.longLatencyPCHolder.latency = longLatency
  executionUnit : sim.core.backend.execute.longLatencyExecutionUnit.latency = longAluLatency - 1
  directions : sim.core.decode.HasDirections
  commands : ∀ index, ∀ command ∈ sim.core.fromDecode.commands index,
    command.getBypassDirection ≤ 4
  ports : ∃ n m k due pending onWay, sim.WritebackPorts n m k due pending ∧ sim.HoldsUnits onWay
    ∧ s.ports.Shows Wp.bandwidth (Rp.latency longAluLatency) s.currCycle
      (fun i => sim.due due i.writer) onWay (pendingValues pending)

end Matches

section Cycle

variable {longAluLatency n m k : ℕ} {sim next : PerfSim w E M K} {due pending : Writeback.Written w}
  {kernel : Kernel w M K} {isa : ISA w}

namespace PerfSim.WritebackPorts

theorem ends_fetch (h : sim.WritebackPorts n m k due pending) (hs : sim.clock kernel isa = .ok next) :
    ∃ long, next.fetch.longLatencyPCHolder = sim.fetch.longLatencyPCHolder.shift long
      ∧ (sim.fetch.unit.clock isa sim.core.mem).Ends
        ⟨fun i => sim.due due (Rp.fetch i).writer, fun _ => []⟩ next.fetch.unit
        (Fetch.outputs next.fromFetch long) := by
  refine Fetch.ends_clock ?_ (PerfSim.clock_cases hs).1.symm
  exact ⟨head_signal _, h.due.target, rfl, rfl, rfl, rfl, rfl, rfl, rfl, rfl⟩

theorem ends_decode (h : sim.WritebackPorts n m k due pending)
    (hs : sim.clock kernel isa = .ok next) :
    (Decode.clockPorts sim.core.decode sim.core.rf).Ends
      ⟨fun i => sim.due due (Rp.decode i).writer, fun _ => []⟩ next.core.decode
      (Decode.outputs next.core.fromDecode) := by
  obtain ⟨step⟩ := Core.clock_cases (PerfSim.clock_cases hs).2
  refine Decode.ends_clockPorts ?_ step.decode
  exact ⟨rfl, rfl, head_signal _, rfl, rfl, head_signal _, h.due.trap_head⟩

omit [BPEntry E] in
theorem ends_backend (h : sim.WritebackPorts n m k due pending) {backend : Backend w} {mem : M}
    (hle : ∀ index, ∀ command ∈ sim.core.fromDecode.commands index, command.getBypassDirection ≤ 4)
    (hs : sim.core.backend.clock sim.core.flush sim.core.fromDecode.datapath
      sim.core.fromDecode.commands sim.core.fromWriteback.bypass sim.core.mem
      = .ok (backend, mem)) :
    (∃ long, backend.execute.longLatencyExecutionUnit
        = sim.core.backend.execute.longLatencyExecutionUnit.shift long
      ∧ sim.core.backend.execute.unit.clock.Ends
        ⟨fun i => sim.due due (Rp.execute i).writer, fun _ => []⟩ backend.execute.unit
        (Execute.outputs backend.fromExecute long))
    ∧ (Mem.clockPorts w sim.core.mem).Ends ⟨fun i => sim.due due (Rp.mem i).writer, fun _ => []⟩ mem
      (Mem.outputs backend.fromMem)
    ∧ (Branch.clockPorts w).Ends ⟨fun i => sim.due due (Rp.branch i).writer, fun _ => []⟩ ()
      (Branch.outputs backend.fromBranch) := by
  unfold Backend.clock at hs
  rcases hexecute : sim.core.backend.execute.clock sim.core.flush sim.core.fromDecode.datapath
    sim.core.fromDecode.commands (sim.core.backend.bypassData sim.core.fromWriteback.bypass)
    with ⟨fromExecute, execute⟩
  rw [hexecute] at hs
  obtain ⟨⟨fromMem, mem'⟩, hmem, hs⟩ := bind_eq_ok.1 hs
  cases hs
  refine ⟨?_, ?_, ?_⟩
  · refine Execute.ends_clock rfl rfl (head_signal _) h.due.trap_head (fun _ => rfl) hle ?_ hexecute
    exact fun index => ⟨rfl, rfl, rfl, h.due.bypass, rfl⟩
  · exact Mem.ends_clockPorts rfl (head_signal _) h.due.trap_head hmem
  · exact Branch.ends_clockPorts rfl (head_signal _) h.due.trap_head

omit [BPEntry E] [FuncMemory M] in
/-- What Writeback leaves on its ports: no more than the rings have room for. -/
theorem ends_writeback (h : sim.WritebackPorts n m k due pending)
    (hone : sim.core.backend.arrived.length ≤ 1)
    (hfirst : sim.core.currCycle = 0 → sim.core.backend.arrived = [])
    {mem : M} {wb : WritebackState w M K}
    (hs : WritebackState.clock { unit := sim.core.writeback, rf := sim.core.rf, mem
                                 kernelState := sim.core.kernelState, out := sim.core.pending }
      kernel isa sim.core.fromWriteback.trap sim.core.backend.arrived sim.core.currCycle = .ok wb)
    (hw : next.core.fromWriteback = wb.out) (hp : next.core.pending = {}) :
    ∃ n' m' due', next.WritebackPorts n' m' 0 due' (fun _ => [])
      ∧ (∀ p, HasRoom sim.core.currCycle (sim.due due) (pendingValues due') (.writeback p))
      ∧ (Retirement.clock ⟨sim.core.writeback, sim.core.rf, mem, sim.core.kernelState⟩ kernel isa
          sim.core.currCycle).Ends ⟨fun i => sim.due due (Rp.writeback i).writer, pending⟩
        wb.retirement due' := by
  have hexecute : sim.core.backend.fromExecute.writeback.length ≤ 1 := by
    unfold Backend.arrived at hone
    rw [List.length_append] at hone
    omega
  have harrived : (if sim.core.fromWriteback.trap then [] else sim.core.backend.arrived).length
      ≤ 1 := by
    split_ifs
    · exact Nat.zero_le _
    · exact hone
  obtain ⟨n', due', hn', hdue', hends⟩ := WritebackState.ends_clock
    (u := fun i => sim.due due (Rp.writeback i).writer) rfl rfl rfl hexecute h.due.trap_head
    (show sim.core.backend.arrived = _ from rfl) hs h.pending
  rw [Nat.zero_add] at hdue'
  -- a target is set twice only when there is nothing to be read on the port
  have htargets : n + n' ≤ 2 ∧ counterOf sim.core.currCycle n' ≤ 1 := by
    have hk := h.pending_first
    have hle := h.pending_le
    have hn := h.targets_le
    have htrap : sim.core.fromWriteback.trap = true ↔ 0 < n := by
      rw [h.due.trap_eq, decide_eq_true_iff]
    have hnone : sim.core.currCycle = 0 →
        (if sim.core.fromWriteback.trap then [] else sim.core.backend.arrived).length = 0 := by
      intro h₀
      rw [hfirst h₀, ite_self, List.length_nil]
    have hflushed : sim.core.fromWriteback.trap = true →
        (if sim.core.fromWriteback.trap then [] else sim.core.backend.arrived).length = 0 := by
      intro ht
      rw [if_pos ht, List.length_nil]
    unfold counterOf
    rcases Nat.eq_zero_or_pos n with rfl | hpos
    · split_ifs with h₀
      · have := hnone h₀
        omega
      · omega
    · have := hflushed (htrap.2 hpos)
      split_ifs <;> omega
  have hbypass : wb.out.bypass.length ≤ 1 := by
    rcases WritebackState.clock_cases harrived hs with ⟨-, rfl⟩ | ⟨instr, -, hsystem⟩
    · rw [h.pending_bypass]
      exact Nat.zero_le _
    · rw [WritebackState.bypass_writebackInstructionSystem hsystem, List.length_append,
        h.pending_bypass]
      exact le_rfl
  refine ⟨n', _, due', ⟨hw ▸ hdue', hp ▸ Writeback.wrote_empty, by omega, harrived, hw ▸ hbypass,
    Nat.zero_le 1, by rw [hp], .inl rfl⟩, fun p => ?_, hends⟩
  cases p
  · refine hasRoom_of_le_one ?_ ?_
    · exact (congrArg List.length h.due.bypass).trans_le h.results_le
    · exact (congrArg List.length hdue'.bypass).trans_le hbypass
  · refine hasRoom_of_le_one ?_ ?_
    · exact h.due.halt_length.trans_le h.halts_le
    · exact hdue'.halt_length.trans_le harrived
  · have hlength : (due' .trap).length = n' := by rw [hdue'.trap, List.length_replicate]
    have hlength' : (due .trap).length = n := by rw [h.due.trap, List.length_replicate]
    exact ⟨hlength.symm ▸ htargets.2, (congrArg₂ (· + ·) hlength' hlength).trans_le htargets.1⟩
  · exact ⟨hdue'.target_length.symm ▸ htargets.2,
      (congrArg₂ (· + ·) h.due.target_length hdue'.target_length).trans_le htargets.1⟩

end PerfSim.WritebackPorts

theorem load_le {T : Type} (onWay : ℕ → List T) (h : ∀ j, (onWay j).length ≤ 1) (latency : ℕ) :
    ReadPort.load latency onWay ≤ latency - 1 := by
  unfold ReadPort.load
  refine (Finset.sum_le_card_nsmul _ _ 1 fun j _ => h j).trans ?_
  simp

theorem Rp.one_le_latency (hlat : 2 ≤ longAluLatency) (i : Rp) : 1 ≤ i.latency longAluLatency := by
  unfold Rp.latency
  split
  · decide
  · omega
  · exact le_rfl

omit [BPEntry E] [FuncMemory M] in
/-- There is room for what is on its way. -/
theorem PerfSim.HoldsUnits.load_lt {onWay : OnWay (Wp.T w) Rp.writer} (h : sim.HoldsUnits onWay)
    (hlat : 2 ≤ longAluLatency) (i : Rp) :
    ReadPort.load (i.latency longAluLatency) (onWay i) + 1 ≤ i.latency longAluLatency := by
  have hpos := i.one_le_latency hlat
  by_cases hone : i.latency longAluLatency = 1
  · rw [hone]
    exact le_rfl
  · have hunit : ∀ j, (onWay i j).length ≤ 1 := by
      unfold Rp.latency at hone
      split at hone
      · intro j
        exact (congrArg List.length (h.pcHolder j)).trans_le (length_toList_le _)
      · intro j
        exact (congrArg List.length (h.executionUnit j)).trans_le (length_toList_le _)
      · exact absurd rfl hone
    have := load_le _ hunit (i.latency longAluLatency)
    omega

theorem Backend.length_writeback_le {backend : Backend w} (h : backend.arrived.length ≤ 1) :
    backend.fromExecute.writeback.length ≤ 1 := by
  unfold arrived at h
  rw [List.length_append] at h
  omega

/-- What the modules leave on their ports in a cycle. -/
structure PerfSim.Leaves (sim next : PerfSim w E M K) (due pending : Writeback.Written w)
    (final : PortValues w) (afterMem : M) (kernel : Kernel w M K) (isa : ISA w) : Prop where
  fetch : (sim.fetch.unit.clock isa sim.core.mem).Ends
    ⟨fun i => sim.due due (Rp.fetch i).writer, fun o => pendingValues pending (.fetch o)⟩
    next.fetch.unit fun o => final (.fetch o)
  decode : (Decode.clockPorts sim.core.decode sim.core.rf).Ends
    ⟨fun i => sim.due due (Rp.decode i).writer, fun o => pendingValues pending (.decode o)⟩
    next.core.decode fun o => final (.decode o)
  execute : sim.core.backend.execute.unit.clock.Ends
    ⟨fun i => sim.due due (Rp.execute i).writer, fun o => pendingValues pending (.execute o)⟩
    next.core.backend.execute.unit fun o => final (.execute o)
  mem : (Mem.clockPorts w sim.core.mem).Ends
    ⟨fun i => sim.due due (Rp.mem i).writer, fun o => pendingValues pending (.mem o)⟩ afterMem
    fun o => final (.mem o)
  branch : (Branch.clockPorts w).Ends
    ⟨fun i => sim.due due (Rp.branch i).writer, fun o => pendingValues pending (.branch o)⟩ ()
    fun o => final (.branch o)
  writeback : (Retirement.clock ⟨sim.core.writeback, sim.core.rf, afterMem, sim.core.kernelState⟩
      kernel isa sim.core.currCycle).Ends
    ⟨fun i => sim.due due (Rp.writeback i).writer, fun o => pendingValues pending (.writeback o)⟩
    ⟨next.core.writeback, next.core.rf, next.core.mem, next.core.kernelState⟩
    fun o => final (.writeback o)
  halt : (getIfReady () : PortProg (fun _ : Unit => Wp.T w Rp.halt.writer)
      (fun o : Empty => Wp.T w o.elim) (Option Trap)).Ends
    ⟨fun _ => sim.due due Rp.halt.writer, fun o => pendingValues pending (Empty.elim o)⟩
    sim.core.fromWriteback.halt fun o => final (Empty.elim o)

/-- One module after another runs on the ports. -/
theorem PortSim.clock_of_leaves {s : PortSim w E M K} {final : PortValues w} {afterMem : M}
    {onWay : OnWay (Wp.T w) Rp.writer} (h : s.Matches longAluLatency sim)
    (hl : sim.Leaves next due pending final afterMem kernel isa)
    (hshows : s.ports.Shows Wp.bandwidth (Rp.latency longAluLatency) s.currCycle
      (fun i => sim.due due i.writer) onWay (pendingValues pending))
    (hload : ∀ i, ReadPort.load (i.latency longAluLatency) (onWay i) + 1
      ≤ i.latency longAluLatency)
    (hroom : ∀ k, HasRoom s.currCycle (sim.due due) final k) :
    ∃ ports unread, ports.Shows Wp.bandwidth (Rp.latency longAluLatency) s.currCycle unread onWay
        final
      ∧ s.clock kernel isa = .ok
        { currCycle := s.currCycle + 1
          ports
          fetch := next.fetch.unit
          decode := next.core.decode
          execute := next.core.backend.execute.unit
          writeback := next.core.writeback
          rf := next.core.rf
          mem := next.core.mem
          kernelState := next.core.kernelState
          currentTrap := sim.core.fromWriteback.halt.getD s.currentTrap } := by
  have h₀ : Phase longAluLatency s.currCycle (sim.due due) (pendingValues pending) final onWay 0
      s.ports := ⟨_, by simpa using hshows, fun i => le_rfl, fun i _ => rfl⟩
  obtain ⟨ports₁, hrun₁, h₁⟩ := h₀.run Rp.fetch Wp.fetch hload
    (fun _ _ => Rp.fetch.inj) (fun _ _ => Wp.fetch.inj) (fun _ => rfl)
    (fun k => by cases k <;> simp [Wp.phase]) hl.fetch fun o => hroom _
  obtain ⟨ports₂, hrun₂, h₂⟩ := h₁.run Rp.decode Wp.decode hload
    (fun _ _ => Rp.decode.inj) (fun _ _ => Wp.decode.inj) (fun _ => rfl)
    (fun k => by cases k <;> simp [Wp.phase]) hl.decode fun o => hroom _
  obtain ⟨ports₃, hrun₃, h₃⟩ := h₂.run Rp.execute Wp.execute hload
    (fun _ _ => Rp.execute.inj) (fun _ _ => Wp.execute.inj) (fun _ => rfl)
    (fun k => by cases k <;> simp [Wp.phase]) hl.execute fun o => hroom _
  obtain ⟨ports₄, hrun₄, h₄⟩ := h₃.run Rp.mem Wp.mem hload
    (fun _ _ => Rp.mem.inj) (fun _ _ => Wp.mem.inj) (fun _ => rfl)
    (fun k => by cases k <;> simp [Wp.phase]) hl.mem fun o => hroom _
  obtain ⟨ports₅, hrun₅, h₅⟩ := h₄.run Rp.branch Wp.branch hload
    (fun _ _ => Rp.branch.inj) (fun _ _ => Wp.branch.inj) (fun _ => rfl)
    (fun k => by cases k <;> simp [Wp.phase]) hl.branch fun o => hroom _
  obtain ⟨ports₆, hrun₆, h₆⟩ := h₅.run Rp.writeback Wp.writeback hload
    (fun _ _ => Rp.writeback.inj) (fun _ _ => Wp.writeback.inj) (fun _ => rfl)
    (fun k => by cases k <;> simp [Wp.phase]) hl.writeback fun o => hroom _
  obtain ⟨ports₇, hrun₇, h₇⟩ := h₆.run (fun _ : Unit => Rp.halt)
    (Empty.elim : Empty → Wp) hload (fun _ _ _ => rfl) (fun o => o.elim) (fun _ => rfl)
    (fun k => by cases k <;> simp [Wp.phase]) hl.halt fun o => o.elim
  obtain ⟨unread, hshows, -⟩ := h₇.shows
  refine ⟨ports₇, unread, ?_, ?_⟩
  · have hall : (fun k => if k.phase < 7 then final k else pendingValues pending k) = final := by
      funext k
      rw [if_pos (by cases k <;> simp [Wp.phase])]
    rw [← hall]
    exact hshows
  · rw [h.currCycle] at *
    unfold PortSim.clock PortSim.retirement
    rw [h.currCycle, h.fetch, h.mem, h.decode, h.rf, h.execute, h.writeback, h.kernelState]
    exact bind_eq_ok.2 ⟨_, hrun₁, bind_eq_ok.2 ⟨_, hrun₂, bind_eq_ok.2 ⟨_, hrun₃, bind_eq_ok.2
      ⟨_, hrun₄, bind_eq_ok.2 ⟨_, hrun₅, bind_eq_ok.2 ⟨_, hrun₆, bind_eq_ok.2 ⟨_, hrun₇,
        rfl⟩⟩⟩⟩⟩⟩⟩

/-- What goes into a line is the last of what is on its way through the port. -/
theorem toList_item_shift {T : Type} {line : DelayLine T} {onWay : ℕ → List T} {latency : ℕ}
    (hlat : line.latency = latency) (hitem : ∀ j, onWay j = (line.item (j + 1)).toList)
    (value : Option T) (j : ℕ) :
    ((line.shift value).item j).toList = if j + 1 = latency then value.toList else onWay j := by
  rw [DelayLine.item_shift, hlat, hitem]
  split_ifs <;> rfl

omit [BPEntry E] [FuncMemory M] in
variable (due) in
/-- The next cycle finds what has been written in this one, and what comes out of the units. -/
theorem PerfSim.due_eq {onWay : OnWay (Wp.T w) Rp.writer} {held : Option Target}
    {long : Option (PerfInstr w)} (hunits : sim.HoldsUnits onWay)
    (hpc : sim.fetch.longLatencyPCHolder.latency = longLatency)
    (hunit : sim.core.backend.execute.longLatencyExecutionUnit.latency = longAluLatency - 1)
    (hheld : next.fetch.longLatencyPCHolder = sim.fetch.longLatencyPCHolder.shift held)
    (hlong : next.core.backend.execute.longLatencyExecutionUnit
      = sim.core.backend.execute.longLatencyExecutionUnit.shift long) (i : Rp) :
    next.due due i.writer = if i.latency longAluLatency = 1 then next.written held long due i.writer
      else onWay i 0 := by
  have hout {T : Type} {line : DelayLine T} {onWay : ℕ → List T} {latency : ℕ}
      (hlat : line.latency = latency) (hitem : ∀ j, onWay j = (line.item (j + 1)).toList)
      (value : Option T) : (line.shift value).out.toList
        = if latency = 1 then value.toList else onWay 0 :=
    (toList_item_shift hlat hitem value 0).trans (if_congr eq_comm rfl rfl)
  rcases i with i | i | i | i | i | i | _
  · cases i
    case longLatencyPCHolder =>
      show next.fetch.longLatencyPCHolder.out.toList = _
      rw [hheld]
      exact hout hpc hunits.pcHolder held
    all_goals exact (if_pos rfl).symm
  · cases i <;> exact (if_pos rfl).symm
  · rcases i with _ | _ | _ | _ | _ | ⟨_, source⟩
    case longLatencyExecutionUnit =>
      show next.core.backend.execute.longLatencyExecutionUnit.out.toList = _
      rw [hlong]
      exact hout hunit hunits.executionUnit long
    case data => cases source <;> exact (if_pos rfl).symm
    all_goals exact (if_pos rfl).symm
  · cases i <;> exact (if_pos rfl).symm
  · cases i <;> exact (if_pos rfl).symm
  · cases i <;> exact (if_pos rfl).symm
  · exact (if_pos rfl).symm

theorem PerfSim.currentTrap_clock (hs : sim.clock kernel isa = .ok next) :
    next.currentTrap = sim.core.fromWriteback.halt.getD sim.currentTrap := by
  obtain ⟨core, -, hs⟩ := bind_eq_ok.1 hs
  cases hs
  rfl

/-- The simulator with its ports does what the one without does. -/
theorem PortSim.Matches.clock {s : PortSim w E M K} (hlat : 2 ≤ longAluLatency)
    (h : s.Matches longAluLatency sim) (hs : sim.clock kernel isa = .ok next)
    (hone : sim.core.backend.arrived.length ≤ 1) (hone' : next.core.backend.arrived.length ≤ 1)
    (hfirst : sim.core.currCycle = 0 → sim.core.backend.arrived = []) :
    ∃ s', s.clock kernel isa = .ok s' ∧ s'.Matches longAluLatency next := by
  obtain ⟨n, m, k, due, pending, onWay, hports, hunits, hshows⟩ := h.ports
  obtain ⟨step⟩ := Core.clock_cases (PerfSim.clock_cases hs).2
  obtain ⟨held, hheld, hfetch⟩ := hports.ends_fetch hs
  obtain ⟨⟨long, hlong, hexecute⟩, hmem, hbranch⟩ := hports.ends_backend h.commands step.backend
  obtain ⟨n', m', due', hports', hroom, hwriteback⟩ :=
    hports.ends_writeback hone hfirst step.writeback step.fromWriteback step.pending
  have hroom' (k : Wp) :
      HasRoom s.currCycle (sim.due due) (next.written held long due') k := by
    by_cases hk : k.phase = 5
    · obtain ⟨p, rfl⟩ : ∃ p, k = .writeback p := by
        cases k
        case writeback p => exact ⟨p, rfl⟩
        all_goals cases hk
      rw [h.currCycle]
      exact ⟨(hroom p).counter, (hroom p).room⟩
    · exact hasRoom_of_le_one (length_portValues_le (Backend.length_writeback_le hone) k hk)
        (length_portValues_le (Backend.length_writeback_le hone') k hk)
  have hleaves : sim.Leaves next due pending (next.written held long due') step.mem kernel isa :=
    { fetch := by
        rw [show (fun o => pendingValues pending (Wp.fetch o)) = _ from Fetch.outputs_empty]
        exact hfetch
      decode := by
        rw [show (fun o => pendingValues pending (Wp.decode o)) = _ from Decode.outputs_empty]
        exact hports.ends_decode hs
      execute := by
        rw [show (fun o => pendingValues pending (Wp.execute o)) = _ from Execute.outputs_empty]
        exact hexecute
      mem := by
        rw [show (fun o => pendingValues pending (Wp.mem o)) = _ from Mem.outputs_empty]
        exact hmem
      branch := by
        rw [show (fun o => pendingValues pending (Wp.branch o)) = _ from Branch.outputs_empty]
        exact hbranch
      writeback := by
        rw [step.unit, step.rf, step.mem_eq, step.kernelState]
        exact hwriteback
      halt := by
        rw [← hports.due.halt]
        exact ⟨_, (eval_getIfReady _ _).trans
          (congrArg (fun l => (_, PortView.mk _ l)) (funext fun o => o.elim))⟩ }
  obtain ⟨ports, unread, hshows', hclock⟩ :=
    PortSim.clock_of_leaves h hleaves hshows (hunits.load_lt hlat) hroom'
  have hdirections := Decode.hasDirections_clock h.directions step.decode
  have hnext := hshows'.succ fun i => (hunits.load_lt hlat i).trans' (Nat.le_add_left _ _)
  have hdue := funext fun i => PerfSim.due_eq due' hunits h.pcHolder h.executionUnit hheld
    hlong i
  rw [← hdue, ← pendingValues_empty] at hnext
  refine ⟨_, hclock, ?_⟩
  exact
    { currCycle := by rw [step.currCycle, h.currCycle]
      fetch := rfl
      decode := rfl
      execute := rfl
      writeback := rfl
      rf := rfl
      mem := rfl
      kernelState := rfl
      currentTrap := by rw [PerfSim.currentTrap_clock hs, h.currentTrap]
      pcHolder := by rw [hheld, DelayLine.latency_shift, h.pcHolder]
      executionUnit := by rw [hlong, DelayLine.latency_shift, h.executionUnit]
      directions := hdirections.1
      commands := hdirections.2
      ports := by
        refine ⟨n', m', 0, due', _, _, hports', ⟨fun j => ?_, fun j => ?_⟩, hnext⟩
        · rw [hheld]
          exact (toList_item_shift h.pcHolder hunits.pcHolder held (j + 1)).symm
        · rw [hlong]
          exact (toList_item_shift h.executionUnit hunits.executionUnit long (j + 1)).symm }

end Cycle

section Start

/-- The simulator as it is made: nothing is on the ports. -/
def PortSim.create (longAluLatency : ℕ) (fetch : FetchUnit w E) (rf : RF w) (mem : M)
    (kernelState : K) : PortSim w E M K where
  ports := .create w longAluLatency
  fetch := fetch
  decode := { longAluLatency }
  execute := { lastExecutionStageLatency := longAluLatency - 1 }
  rf := rf
  mem := mem
  kernelState := kernelState

/-- `run` sets the limit and forgets the last trap. -/
def PortSim.beginRun (s : PortSim w E M K) (instrsToRun : ℕ) : PortSim w E M K :=
  { s with
    currentTrap := .noTrap
    writeback := { s.writeback with instrsToRun } }

/-- A simulator that has been made and not been used. -/
structure PerfSim.IsCreated (longAluLatency : ℕ) (sim : PerfSim w E M K) : Prop where
  core : sim.core = { decode := { longAluLatency }, backend := .create w longAluLatency
                      rf := sim.core.rf, mem := sim.core.mem, kernelState := sim.core.kernelState }
  pcHolder : sim.fetch.longLatencyPCHolder = .empty longLatency
  fromFetch : sim.fromFetch = {}
  currentTrap : sim.currentTrap = .noTrap

variable {longAluLatency : ℕ} {sim : PerfSim w E M K} {s : PortSim w E M K}

theorem ReadPort.shows_init {T : Type} (key : String) (latency : ℕ) (bandwidth : BitVec 32) :
    (ReadPort.init { key, latency } bandwidth : ReadPort T).Shows bandwidth.toNat latency 0 []
      (fun _ => []) [] :=
  ⟨rfl, rfl, le_rfl, [], PortQueue.holds_resize _, .nil, nofun, rfl, fun _ _ => rfl, rfl⟩

theorem PortSystem.shows_create (w longAluLatency : ℕ) :
    (PortSystem.create w longAluLatency).Shows Wp.bandwidth (Rp.latency longAluLatency) 0
      (fun _ => []) (fun _ _ => []) fun _ => [] where
  writer _ := ⟨rfl, le_rfl, nofun, fun _ => rfl, fun _ => .inl rfl⟩
  reader i := ReadPort.shows_init i.key _ _

omit [BPEntry E] [FuncMemory M] in
theorem PerfSim.IsCreated.due_eq (h : sim.IsCreated longAluLatency) :
    sim.due (fun _ => []) = fun k : Wp => ([] : List (Wp.T w k)) := by
  rw [← pendingValues_empty]
  unfold PerfSim.due PerfSim.written
  rw [h.fromFetch, h.pcHolder, h.core]
  rfl

omit [BPEntry E] [FuncMemory M] in
theorem PortSim.matches_create (h : sim.IsCreated longAluLatency) :
    (PortSim.create longAluLatency sim.fetch.unit sim.core.rf sim.core.mem sim.core.kernelState :
      PortSim w E M K).Matches longAluLatency sim where
  currCycle := by rw [h.core]; rfl
  fetch := rfl
  decode := by rw [h.core]; rfl
  execute := by rw [h.core]; rfl
  writeback := by rw [h.core]; rfl
  rf := rfl
  mem := rfl
  kernelState := rfl
  currentTrap := h.currentTrap.symm
  pcHolder := by rw [h.pcHolder]; rfl
  executionUnit := by rw [h.core]; rfl
  directions := by
    rw [h.core]
    exact fun _ => ⟨Nat.zero_le _, Nat.zero_le _⟩
  commands := by
    rw [h.core]
    nofun
  ports := by
    refine ⟨0, 0, 0, fun _ => [], fun _ => [], fun _ _ => [], ?_, ⟨fun j => ?_, fun j => ?_⟩, ?_⟩
    · have hdue : sim.core.fromWriteback = {} := by rw [h.core]
      have hpending : sim.core.pending = {} := by rw [h.core]
      exact ⟨hdue ▸ Writeback.wrote_empty, hpending ▸ Writeback.wrote_empty, Nat.zero_le _,
        Nat.zero_le _, hdue ▸ Nat.zero_le _, Nat.zero_le _, hpending ▸ rfl, .inl rfl⟩
    · rw [h.pcHolder]
      rfl
    · rw [h.core]
      rfl
    · rw [h.due_eq, pendingValues_empty]
      exact PortSystem.shows_create w longAluLatency

/-- What Writeback has written when a target has been set. -/
def Writeback.targetValues (w : ℕ) (value : Target) : Writeback.Written w
  | .bypass => []
  | .halt => []
  | .trap => [true]
  | .target => [value]

omit [FuncMemory M] in
theorem Retirement.eval_setTarget (r : Retirement w M K) (value : Target) (u : Writeback.Unread w) :
    (r.setTarget value).eval ⟨u, fun _ => []⟩
      = (.ok { r with unit := { r.unit with nextPC := value.address } },
        ⟨u, Writeback.targetValues w value⟩) := by
  refine Prod.ext rfl (congrArg (PortView.mk _) (funext fun p => ?_))
  cases p <;> rfl

omit [BPEntry E] [FuncMemory M] in
/-- A target is set before the first cycle. -/
theorem PortSim.matches_setTarget (h : sim.IsCreated longAluLatency) (hlat : 2 ≤ longAluLatency)
    (value : Target) :
    ∃ s', (PortSim.create longAluLatency sim.fetch.unit sim.core.rf sim.core.mem
        sim.core.kernelState : PortSim w E M K).setTarget value = .ok s'
      ∧ s'.Matches longAluLatency (sim.setTarget value) := by
  have hcreated := PortSim.matches_create h
  set s : PortSim w E M K := PortSim.create longAluLatency sim.fetch.unit sim.core.rf sim.core.mem
    sim.core.kernelState with hs
  have heval : (s.retirement.setTarget value).eval (@PortSystem.viewOf _ _ _ Rp.writer _ _
      Rp.writeback Wp.writeback (fun _ => []) fun _ => []) = _ :=
    s.retirement.eval_setTarget value fun _ => []
  have hlength (p : Writeback.Wp) : (Writeback.targetValues w value p).length ≤ 1 := by
    cases p <;> simp [Writeback.targetValues]
  obtain ⟨ports, unread, written, hrun, hshows, hleaves⟩ :=
    (PortSystem.shows_create w longAluLatency).run
      (show Function.Injective Rp.writeback from fun _ _ => Rp.writeback.inj)
      (show Function.Injective Wp.writeback from fun _ _ => Wp.writeback.inj)
      (Rp.one_le_latency hlat)
      (s.retirement.setTarget value) (by rw [heval]; nofun) (by
        rw [heval]
        refine ⟨fun p => hlength p, fun p i _ => ?_⟩
        have hone := hlength p
        have hload := load_le (fun _ => ([] : List (Wp.T w i.writer)))
          (fun _ => Nat.zero_le _) (i.latency longAluLatency)
        have hpos := i.one_le_latency hlat
        show 0 + _ + (Writeback.targetValues w value p).length ≤ _ * 1
        omega)
  rw [heval] at hrun hleaves
  have hunread : unread = fun _ => [] := by
    funext i
    by_cases hi : ∃ j, Rp.writeback j = i
    · obtain ⟨j, rfl⟩ := hi
      exact congrFun (congrArg PortView.unread hleaves.view) j
    · exact hleaves.unread_eq i fun j hj => hi ⟨j, hj⟩
  have hwritten : written = pendingValues (Writeback.targetValues w value) := by
    funext k
    by_cases hk : ∃ p, Wp.writeback p = k
    · obtain ⟨p, rfl⟩ := hk
      exact congrFun (congrArg PortView.written hleaves.view) p
    · rw [hleaves.written_eq k fun p hp => hk ⟨p, hp⟩, ← congrFun pendingValues_empty k]
      cases k
      case writeback p => exact absurd ⟨p, rfl⟩ hk
      all_goals rfl
  subst hunread hwritten
  have hmodule : PortSim.runModule Rp.writeback Wp.writeback s.currCycle
      (s.retirement.setTarget value) s.ports = .ok ({ s.retirement with
        unit := { s.retirement.unit with nextPC := value.address } }, ports) := by
    unfold PortSim.runModule
    rw [show s.currCycle = 0 from rfl, show s.ports = PortSystem.create w longAluLatency from rfl,
      hrun]
  have hdue : sim.core.fromWriteback = {} := by rw [h.core]
  have hpending : sim.core.pending = {} := by rw [h.core]
  refine ⟨_, bind_eq_ok.2 ⟨_, hmodule, rfl⟩, { hcreated with
    writeback := congrArg (fun u : Writeback => { u with nextPC := value.address })
      hcreated.writeback
    ports := ⟨0, 0, 1, fun _ => [], Writeback.targetValues w value, fun _ _ => [], ?_,
      ⟨fun j => ?_, fun j => ?_⟩, ?_⟩ }⟩
  · have hset : (sim.setTarget value).core.pending = { trap := true, target := some value } := by
      show ({ sim.core.pending with trap := true, target := _ } : WritebackOut w) = _
      rw [hpending]
      rfl
    have hcycle : (sim.setTarget value).core.currCycle = 0 := hcreated.currCycle.symm
    exact ⟨hdue ▸ Writeback.wrote_empty, hset ▸ ⟨rfl, rfl, rfl, rfl, rfl, rfl, rfl⟩, Nat.zero_le _,
      Nat.zero_le _, hdue ▸ Nat.zero_le _, le_rfl, hset ▸ rfl, .inr ⟨hcycle, rfl⟩⟩
  · show _ = (sim.fetch.longLatencyPCHolder.item (j + 1)).toList
    rw [h.pcHolder]
    rfl
  · show _ = (sim.core.backend.execute.longLatencyExecutionUnit.item (j + 1)).toList
    rw [h.core]
    rfl
  · show ports.Shows _ _ 0 (fun i => sim.due (fun _ => []) i.writer) _ _
    rw [h.due_eq]
    exact hshows

omit [BPEntry E] [FuncMemory M] in
theorem PortSim.Matches.beginRun (h : s.Matches longAluLatency sim) (n : ℕ) :
    (s.beginRun n).Matches longAluLatency (sim.beginRun n) :=
  { h with
    writeback := congrArg (fun u : Writeback => { u with instrsToRun := n }) h.writeback
    currentTrap := rfl
    ports :=
      let ⟨i, m, k, due, pending, onWay, hports, hunits, hshows⟩ := h.ports
      ⟨i, m, k, due, pending, onWay, { hports with }, ⟨hunits.pcHolder, hunits.executionUnit⟩,
        hshows⟩ }

omit [BPEntry E] [FuncMemory M] in
/-- The simulator as it is when a run with a limit of instructions begins. -/
theorem PortSim.matches_start (h : sim.IsCreated longAluLatency) (hlat : 2 ≤ longAluLatency)
    (value : Target) (n : ℕ) :
    ∃ s, (PortSim.create longAluLatency sim.fetch.unit sim.core.rf sim.core.mem
        sim.core.kernelState : PortSim w E M K).setTarget value = .ok s
      ∧ (s.beginRun n).Matches longAluLatency ((sim.setTarget value).beginRun n) :=
  let ⟨s, hs, hmatches⟩ := matches_setTarget h hlat value
  ⟨s, hs, hmatches.beginRun n⟩

omit [BPEntry E] [FuncMemory M] in
theorem PerfSim.IsCreated.currCycle_start (h : sim.IsCreated longAluLatency) (value : Target)
    (n : ℕ) :
    ((sim.setTarget value).beginRun n).core.currCycle = 0 := by
  show sim.core.currCycle = 0
  rw [h.core]

end Start

section Run

/-- So many cycles, if none of them throws. -/
def PortSim.clocks (kernel : Kernel w M K) (isa : ISA w) (s : PortSim w E M K) :
    ℕ → Except PortFault (PortSim w E M K)
  | 0 => .ok s
  | c + 1 => do
    let t ← clocks kernel isa s c
    t.clock kernel isa

theorem PerfRun.currCycle_of_zero (run : PerfRun w E M K) (h : (run.sim 0).core.currCycle = 0) :
    ∀ {c}, c ≤ run.length → (run.sim c).core.currCycle = c
  | 0, _ => h
  | c + 1, hc => by
    have hsucc : (run.sim (c + 1)).core.currCycle = (run.sim c).core.currCycle + 1 :=
      run.toCoreRun.currCycle_succ hc
    rw [hsucc, currCycle_of_zero run h (Nat.le_of_succ_le hc)]

/-- The simulator with its ports follows the one without. -/
theorem PortSim.Matches.clocks {s : PortSim w E M K} (run : PerfRun w E M K)
    (h : s.Matches run.longAluLatency (run.sim 0)) (hzero : (run.sim 0).core.currCycle = 0) :
    ∀ {c}, c ≤ run.length →
      ∃ t, s.clocks run.kernel run.isa c = .ok t ∧ t.Matches run.longAluLatency (run.sim c)
  | 0, _ => ⟨s, rfl, h⟩
  | c + 1, hc => by
    obtain ⟨t, ht, hm⟩ := Matches.clocks run h hzero (Nat.le_of_succ_le hc)
    have hfirst : (run.sim c).core.currCycle = 0 → (run.sim c).core.backend.arrived = [] := by
      intro hfirst
      rw [run.currCycle_of_zero hzero (Nat.le_of_succ_le hc)] at hfirst
      exact PerfRun.arrived_of_lt_two (Nat.le_of_succ_le hc) (by omega)
    obtain ⟨t', ht', hm'⟩ := hm.clock run.latency_ge (run.step c hc)
      (run.toCoreRun.length_arrived_le (Nat.le_of_succ_le hc)) (run.toCoreRun.length_arrived_le hc)
      hfirst
    exact ⟨t', bind_eq_ok.2 ⟨t, ht, ht'⟩, hm'⟩

/-- In a run from a new simulator, the one with its ports goes through the same states, and no port
objects. -/
theorem PerfRun.on_ports (run : PerfRun w E M K) {sim : PerfSim w E M K}
    (hcreated : sim.IsCreated run.longAluLatency) {value : Target} {n : ℕ}
    (hstart : run.sim 0 = (sim.setTarget value).beginRun n) :
    ∃ s, (PortSim.create run.longAluLatency sim.fetch.unit sim.core.rf sim.core.mem
        sim.core.kernelState).setTarget value = .ok s
      ∧ ∀ c ≤ run.length, ∃ t, (s.beginRun n).clocks run.kernel run.isa c = .ok t
        ∧ t.Matches run.longAluLatency (run.sim c) := by
  obtain ⟨s, hs, hmatches⟩ := PortSim.matches_start hcreated run.latency_ge value n
  rw [← hstart] at hmatches
  exact ⟨s, hs, fun c hc => hmatches.clocks run (hstart ▸ hcreated.currCycle_start value n) hc⟩

end Run

end MiptMips
