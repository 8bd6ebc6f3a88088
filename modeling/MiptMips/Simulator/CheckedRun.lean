import MiptMips.Memory.FlatMemory
import MiptMips.Simulator.CheckerUnseen
import MiptMips.Simulator.FrontEnd

/-!
# Runs under the checker

A run of the pipeline with its checker, in which nothing throws. The registers of the pipeline are
those of the checker after every cycle, and so is its memory but for the store that Mem makes a
cycle before it is written back, as long as what the checker does not see has its operands right
and Mem does not store behind an instruction that traps.
-/

namespace MiptMips

open Machines FuncMemory

variable {w : ℕ} {E M K : Type}

section Model

variable [FuncMemory M]

/-- An instruction as Fetch sends it. -/
def ISA.decoded (isa : ISA w) (bytes : BitVec 32) (endian : Endian) (PC : Addr) (id : BitVec 64) :
    FuncInstr w :=
  (isa.createInstr bytes endian PC).setSequenceId id

/-- The instruction was decoded in this order of bytes, and has some operands. -/
def ISA.DecodesIn (isa : ISA w) (endian : Endian) (f : FuncInstr w) : Prop :=
  ∃ bytes PC id vSrc, f = (isa.decoded bytes endian PC id).withSources vSrc

/-- The checker is on, and it has the registers of the pipeline. -/
structure Checker.Tracks (c : Checker w M) (isa : ISA w) (endian : Endian) (rf : RF w) : Prop where
  active : c.active
  reachable : c.sim.Reachable isa
  endian_eq : c.sim.imem.endian = endian
  rf_eq : rf = c.sim.rf

/-- The memory that the instructions written back have left when a cycle begins: Mem may have made
the store of the one behind them. -/
def CoreRun.Committed (run : CoreRun w M K) : ℕ → M → Prop
  | 0, mem => mem = (run.core 0).mem
  | c + 1, mem => (run.StoresIn c → mem = (run.core c).mem)
      ∧ (¬ run.StoresIn c → mem = (run.core (c + 1)).mem)

/-- A run with the checker on, which starts with the registers and the memory of the pipeline. -/
structure CheckedRun (isa : ISA w) (E M K : Type) [BPEntry E] [FuncMemory M] where
  kernel : ReplicantKernel w M K
  longAluLatency : ℕ
  length : ℕ
  sim : ℕ → CheckedSim w E M K
  latency_ge : 2 ≤ longAluLatency
  latency_lt : longAluLatency < 64
  start : (sim 0).sim.core.AtStart longAluLatency
  fetch : Fetch.Reachable M isa ((sim 0).sim.fetch, (sim 0).sim.fromFetch)
  fromFetch : (sim 0).sim.fromFetch = {}
  tracks : (sim 0).checker.Tracks isa (sim 0).sim.fetch.memory.endian (sim 0).sim.core.rf
  mem_eq : (sim 0).checker.sim.mem = (sim 0).sim.core.mem
  step : ∀ c < length, (sim c).clock kernel isa = .ok (sim (c + 1))

namespace CheckedRun

variable [BPEntry E] {isa : ISA w} (run : CheckedRun isa E M K)

/-- The same run without the checker. -/
def toPerfRun : PerfRun w E M K where
  kernel := run.kernel.toKernel
  isa := isa
  longAluLatency := run.longAluLatency
  length := run.length
  sim c := (run.sim c).sim
  latency_ge := run.latency_ge
  latency_lt := run.latency_lt
  start := run.start
  fetch := run.fetch
  step c hc := (CheckedSim.clock_cases (run.step c hc)).1

def toCoreRun : CoreRun w M K := run.toPerfRun.toCoreRun

/-- What is written back in a cycle is seen by the checker or has read its operands right, and
behind an instruction that traps Mem does not store. -/
def Safe (c : ℕ) : Prop := ∀ z ∈ (run.sim c).sim.retired,
  (z.Unseen → z.vSrc0 = (run.sim c).sim.core.rf.get z.src0
    ∧ z.vSrc1 = (run.sim c).sim.core.rf.get z.src1)
  ∧ (z.trap ≠ .noTrap → ¬ run.toCoreRun.StoresIn c)

/-- The pipeline and the checker agree when a cycle begins; behind a trap there is no store that
has not been written back. -/
structure Agrees (c : ℕ) : Prop where
  tracks : (run.sim c).checker.Tracks isa (run.sim 0).sim.fetch.memory.endian
    (run.sim c).sim.core.rf
  committed : run.toCoreRun.Committed c (run.sim c).checker.sim.mem
  trapped : (run.sim c).sim.core.fromWriteback.trap = true →
    (run.sim c).checker.sim.mem = (run.sim c).sim.core.mem

end CheckedRun

end Model

section Memory

variable [FuncMemory M] {run : CoreRun w M K} {c : ℕ} {mem : M} {z : PerfInstr w}

/-- What Mem has stored arrives in the next cycle. -/
theorem CoreRun.Committed.eq_of_idle (hc : c ≤ run.length)
    (hidle : (run.core c).backend.fromMem.datapath = none) (h : run.Committed c mem) :
    mem = (run.core c).mem := by
  rcases c with _ | b
  · exact h
  · refine h.2 fun ⟨hf, y, hy, _⟩ => ?_
    rcases run.toBackendRun.fromMem_cases (c := b) hc with ⟨hf' | hnone, -⟩ | ⟨_, _, -, -, -, hm⟩
    · rw [show (run.core b).flush = true from hf'] at hf
      cases hf
    · rw [show (run.core b).backend.fromExecute.mem = none from hnone] at hy
      cases hy
    · rw [show (run.core (b + 1)).backend.fromMem = _ from hm] at hidle
      cases hidle

/-- What arrives was executed, and its access leads from the memory of the instructions before it
to the one that Writeback finds. -/
theorem CoreRun.Committed.access (hc : c ≤ run.length)
    (hno : (run.core c).fromWriteback.trap = false) (hz : z ∈ (run.core c).backend.arrived)
    (h : run.Committed c mem) : ∃ d < run.length, ∃ y, run.sent d = some y
      ∧ loadStore mem (run.operands d y).execute = .ok (z.toFuncInstr, (run.core c).mem) := by
  obtain ⟨path, hz⟩ := (run.toBackendRun.mem_arrived_iff hc).1 hz
  obtain ⟨e, x, he, hx, -, hr⟩ := (run.toBackendRun.arrivedOn_iff hc).1 hz
  obtain ⟨hex, hp⟩ := run.toBackendRun.executedOn_iff.1 hx
  rcases e with _ | d
  · rw [run.executed_zero] at hex
    cases hex
  obtain ⟨-, y, hy, rfl⟩ := run.executed_succ_iff.1 hex
  refine ⟨d, by omega, y, hy, ?_⟩
  by_cases hmem : path = .mem
  · subst hmem
    obtain rfl : d + 1 + 2 = c := he
    rw [BackendRun.Result, if_pos hp] at hr
    obtain ⟨f, hl, rfl⟩ := hr
    have hafter : (run.core (d + 2 + 1)).mem = run.memAfter (d + 2) := mem_succ hc hno
    have hbefore : mem = (run.core (d + 2)).mem := by
      by_cases hs : run.StoresIn (d + 2)
      · exact h.1 hs
      · rw [h.2 hs, hafter, run.memAfter_eq hc hs]
    rw [hbefore, hafter]
    exact hl
  · have hidle : (run.core c).backend.fromMem.datapath = none := by
      rcases hm : (run.core c).backend.fromMem.datapath with _ | z'
      · rfl
      · exact absurd (run.path_unique hc hz (q := .mem) hm) hmem
    rw [(run.toBackendRun.result_iff hmem hx).1 hr, ← h.eq_of_idle hc hidle]
    exact loadStore_of_path (f := (run.execution d y).toFuncInstr) (by rw [hp]; exact hmem)

end Memory

section Step

open CheckedState

variable [FuncMemory M] {isa : ISA w} {endian : Endian} {kernel : ReplicantKernel w M K}
  {s t : CheckedState w M K} {c : Checker w M} {rf : RF w} {mem : M} {f : FuncInstr w}
  {z : PerfInstr w} {cycle : ℕ}

theorem ISA.DecodesIn.setVSrc (h : isa.DecodesIn endian f) (value : BitVec w) (index : Fin 2) :
    isa.DecodesIn endian (f.setVSrc value index) := by
  obtain ⟨bytes, PC, id, v, rfl⟩ := h
  unfold FuncInstr.setVSrc
  split_ifs
  · exact ⟨bytes, PC, id, (value, v.2), rfl⟩
  · exact ⟨bytes, PC, id, (v.1, value), rfl⟩

theorem ISA.decodesIn_fetchInstr (isa : ISA w) (endian : Endian) (mem : M) (target : Target) :
    isa.DecodesIn endian ((fetchInstr isa endian mem target.address).setSequenceId
      target.sequenceId) :=
  ⟨fetch endian mem target.address, target.address, target.sequenceId,
    ((fetchInstr isa endian mem target.address).vSrc0,
      (fetchInstr isa endian mem target.address).vSrc1), rfl⟩

theorem FuncInstr.Listed.setSequenceId (h : f.Listed) (id : BitVec 64) :
    (f.setSequenceId id).Listed :=
  ⟨⟨h.fresh.trap, h.fresh.memAddr, h.fresh.isTakenBranch, h.fresh.vDst0, h.fresh.vDst1,
    h.fresh.mask, h.fresh.complete⟩, h.storesPart, h.store, h.moves, h.partialLoad, h.csrrs⟩

theorem Checker.Tracks.setTarget (h : c.Tracks isa endian rf) (value : Target) :
    (c.setTarget value).Tracks isa endian rf
      ∧ (c.setTarget value).sim.mem = c.sim.mem := by
  obtain ⟨hactive, hreach, hend, hrf⟩ := h
  unfold Checker.setTarget
  rw [if_pos hactive]
  exact ⟨⟨hactive, .setTarget _ _ hreach, hend, hrf⟩, rfl⟩

/-- What the checker compares says that it executes what the pipeline decoded. -/
theorem current_of_isSameChecker {sim : FuncSim w M} {bytes : BitVec 32} {PC : Addr}
    {id : BitVec 64} {vSrc : BitVec w × BitVec w} {a b : FuncInstr w × RF w × M}
    (hend : sim.imem.endian = endian)
    (hf : f = isa.decoded bytes endian PC id)
    (ha : (sim.current isa).effect rf mem = .ok a) (hb : (f.withSources vSrc).effect rf mem = .ok b)
    (hsame : a.1.isSameChecker b.1) :
    sim.current isa = f.withSources (sim.rf.get f.src0, sim.rf.get f.src1) := by
  have hcurrent : sim.current isa
      = ((fetchInstr isa sim.imem.endian sim.mem sim.getPC).setSequenceId
        sim.sequenceId).withSources ((sim.current isa).vSrc0, (sim.current isa).vSrc1) := rfl
  rw [hcurrent] at ha
  obtain ⟨-, -, -, -, -, -, hPCa, hrawa, hida⟩ := effect_instr ha
  obtain ⟨-, -, -, -, -, -, hPCb, hrawb, hidb⟩ := effect_instr hb
  simp only [FuncInstr.isSameChecker, FuncInstr.isSame, FuncInstr.isSameBytes, Bool.and_eq_true,
    Bool.or_eq_true, beq_iff_eq, hPCa, hPCb, hrawa, hrawb, hida, hidb] at hsame
  obtain ⟨⟨⟨⟨hPC, hraw⟩, hid⟩, -⟩, -⟩ := hsame
  have hPC' : sim.getPC = PC := by
    rw [hf] at hPC
    exact (isa.PC_createInstr _ _ _).symm.trans (hPC.trans (isa.PC_createInstr _ _ _))
  have hraw' : fetch sim.imem.endian sim.mem sim.getPC = bytes := by
    rw [hf] at hraw
    exact (isa.raw_createInstr _ _ _).symm.trans (hraw.trans (isa.raw_createInstr _ _ _))
  have hid' : sim.sequenceId = id := by
    rw [hf] at hid
    exact hid
  have hd : f = (fetchInstr isa sim.imem.endian sim.mem sim.getPC).setSequenceId
      sim.sequenceId := by
    rw [hf, ISA.decoded, fetchInstr, hraw', hPC', hid', hend]
  rw [hd]
  rfl

/-- A check that passes: the checker's own step, and its instruction is the same. -/
theorem check_ok {d : Checker w M} (hactive : c.active) (h : c.check isa f = .ok d) :
    ∃ funcDump sim, c.sim.step isa = .ok (funcDump, sim) ∧ funcDump.isSameChecker f
      ∧ d = { c with sim := sim } := by
  unfold Checker.check at h
  rw [if_pos hactive] at h
  obtain ⟨⟨funcDump, sim⟩, hstep, h⟩ := bind_eq_ok.1 h
  dsimp only at h
  split_ifs at h with hsame
  cases h
  exact ⟨funcDump, sim, hstep, hsame, rfl⟩

/-- Write-back and the check: the checker makes the access that the pipeline has made. -/
theorem Checker.Tracks.writebackInstruction (hisa : IsSupported isa)
    (h : s.checker.Tracks isa endian s.rf) (hdec : isa.DecodesIn endian f)
    (haccess : loadStore s.checker.sim.mem f.execute = .ok (z.toFuncInstr, mem))
    (hcovered : z.Unseen → z.vSrc0 = s.rf.get z.src0 ∧ z.vSrc1 = s.rf.get z.src1)
    (hw : s.writebackInstruction isa z cycle = .ok t) :
    t.checker.Tracks isa endian t.rf ∧ t.checker.sim.mem = mem ∧ t.mem = s.mem := by
  obtain ⟨hactive, hreach, hend, hrf⟩ := h
  obtain ⟨hwb, hcheck⟩ := unchecked_writebackInstruction hw
  obtain ⟨rf, hwrite, hwb⟩ := bind_eq_ok.1 hwb
  obtain ⟨funcDump, sim, hstep, hsame, hchecker⟩ := check_ok hactive hcheck
  have ht : t.rf = rf ∧ t.mem = s.mem := by
    have hwb := Except.ok.inj hwb
    rw [← hwb]
    exact ⟨rfl, rfl⟩
  obtain ⟨e⟩ := FuncSim.step_cases hstep
  obtain ⟨hvalid, hcur, himem⟩ := (FuncSim.fetchOperands_iff hreach.coherent).1 e.fetched
  have hend' : sim.imem.endian = endian := by
    rw [himem, endian_fetchInstr]
    exact hend
  obtain ⟨bytes, PC, id, v, rfl⟩ := hdec
  rw [hrf] at hwrite
  have ha : (s.checker.sim.current isa).effect s.checker.sim.rf s.checker.sim.mem
      = .ok (funcDump, sim.rf, sim.mem) := by
    rw [← hcur]
    exact FuncInstr.effect_eq_ok e.accessed e.written
  have hb := FuncInstr.effect_eq_ok haccess hwrite
  have hd := current_of_isSameChecker hend rfl ha hb hsame
  have hread : s.checker.sim.rf.readSources (isa.decoded bytes endian PC id)
      = .ok (s.checker.sim.current isa) := by
    refine readSources_iff.2 ⟨?_, hd⟩
    rw [hcur, hd] at hvalid
    exact hvalid
  have heq : (rf, mem) = (sim.rf, sim.mem) := by
    obtain ⟨_, _, _, _, _, _, _, _, hz⟩ := accessed_eq haccess
    rw [hz, hrf] at hcovered
    by_cases hunseen : (isa.decoded bytes endian PC id).Unseen
    · obtain ⟨h₀, h₁⟩ := hcovered hunseen
      have hv : v = (s.checker.sim.rf.get (isa.decoded bytes endian PC id).src0,
          s.checker.sim.rf.get (isa.decoded bytes endian PC id).src1) := Prod.ext h₀ h₁
      rw [hv, ← hd, ha] at hb
      exact (congrArg Prod.snd (Except.ok.inj hb)).symm
    · exact agree_of_seen ((hisa.listed _ _ _).setSequenceId _) hunseen hread ha hb hsame
  rw [hchecker, ht.1]
  exact ⟨⟨hactive, hreach.step hstep, hend', congrArg Prod.fst heq⟩,
    (congrArg Prod.snd heq).symm, ht.2⟩

/-- What the kernel writes, it writes on both sides, and it is called for system calls alone. -/
theorem Checker.Tracks.handleInstruction {handled : PerfInstr w}
    (h : s.checker.Tracks isa endian s.rf)
    (hmem : z.trap = .syscall → s.mem = s.checker.sim.mem)
    (hk : s.handleInstruction kernel z = .ok (handled, t)) :
    t.checker.Tracks isa endian t.rf
      ∧ (z.trap ≠ .syscall → t.mem = s.mem ∧ t.checker.sim.mem = s.checker.sim.mem)
      ∧ (z.trap = .syscall → t.mem = t.checker.sim.mem) := by
  unfold CheckedState.handleInstruction at hk
  by_cases hsys : z.trap = .syscall
  · rw [if_neg (not_not.2 hsys)] at hk
    obtain ⟨hactive, hreach, hend, hrf⟩ := h
    obtain ⟨⟨kernelState, writes, trap⟩, -, hk⟩ := bind_eq_ok.1 hk
    obtain ⟨⟨rf, mem⟩, hw, hk⟩ := bind_eq_ok.1 hk
    obtain ⟨⟨simRf, simMem⟩, hw', hk⟩ := bind_eq_ok.1 hk
    rw [hrf, hmem hsys, hw'] at hw
    cases hw
    dsimp only at hk
    rw [if_pos hactive] at hk
    cases hk
    exact ⟨⟨hactive, hreach.host rf mem _, hend, rfl⟩, fun hn => absurd hsys hn, fun _ => rfl⟩
  · rw [if_pos hsys] at hk
    cases hk
    exact ⟨h, fun _ => ⟨rfl, rfl⟩, fun hn => absurd hn hsys⟩

/-- The driver does the same on equal registers. -/
theorem Checker.Tracks.handleTrap {trap : Trap} (h : s.checker.Tracks isa endian s.rf)
    (hd : s.handleTrap isa z = .ok (trap, t)) :
    t.checker.Tracks isa endian t.rf ∧ t.mem = s.mem
      ∧ t.checker.sim.mem = s.checker.sim.mem := by
  obtain ⟨result, hr, hd⟩ := bind_eq_ok.1 hd
  obtain ⟨checker, hstep, hd⟩ := bind_eq_ok.1 hd
  cases hd
  -- where the checker is before its driver steps
  obtain ⟨c, hc, htracks, hmem⟩ : ∃ c : Checker w M, c.driverStep isa z.toFuncInstr = .ok checker
      ∧ c.Tracks isa endian s.rf ∧ c.sim.mem = s.checker.sim.mem := by
    rcases hp : result.pc with _ | pc <;> rw [hp] at hstep
    · exact ⟨_, hstep, h, rfl⟩
    · exact ⟨_, hstep, h.setTarget ⟨pc, 0#64⟩⟩
  obtain ⟨hactive, hreach, hend, hrf⟩ := htracks
  unfold Checker.driverStep at hc
  rw [if_pos hactive] at hc
  obtain ⟨⟨trap, sim⟩, hsim, hc⟩ := bind_eq_ok.1 hc
  cases hc
  have himem := FuncSim.imem_driverStep hsim
  have hreach' := hreach.driverStep hsim
  obtain ⟨result', hr', hsim⟩ := bind_eq_ok.1 hsim
  rw [← hrf, hr] at hr'
  cases hr'
  cases hsim
  rw [← hmem]
  refine ⟨⟨hactive, hreach', ?_, ?_⟩, ?_, ?_⟩
  · rw [himem]
    exact hend
  all_goals cases result.pc <;> rfl

/-- One instruction through Writeback: without a trap the checker catches up with the access that
Mem has made, with a trap both sides have the same memory. -/
theorem Checker.Tracks.writebackInstructionSystem (hisa : IsSupported isa)
    (h : s.checker.Tracks isa endian s.rf) (hdec : isa.DecodesIn endian f)
    (haccess : loadStore s.checker.sim.mem f.execute = .ok (z.toFuncInstr, mem))
    (hcovered : z.Unseen → z.vSrc0 = s.rf.get z.src0 ∧ z.vSrc1 = s.rf.get z.src1)
    (hmem : z.trap ≠ .noTrap → s.mem = mem)
    (hw : s.writebackInstructionSystem isa kernel z cycle = .ok t) :
    t.checker.Tracks isa endian t.rf
      ∧ (z.trap = .noTrap → t.mem = s.mem ∧ t.checker.sim.mem = mem)
      ∧ (z.trap ≠ .noTrap → t.mem = t.checker.sim.mem) := by
  obtain ⟨s₁, h₁, hw⟩ := bind_eq_ok.1 hw
  obtain ⟨⟨handled, s₂⟩, h₂, hw⟩ := bind_eq_ok.1 hw
  obtain ⟨⟨resultTrap, s₃⟩, h₃, hw⟩ := bind_eq_ok.1 hw
  obtain ⟨htracks₁, hchecker₁, hmem₁⟩ := h.writebackInstruction hisa hdec haccess hcovered h₁
  obtain ⟨htracks₂, hother, hsys⟩ := htracks₁.handleInstruction
    (fun hz => by rw [hmem₁, hchecker₁, hmem (by rw [hz]; decide)]) h₂
  obtain ⟨htracks₃, hmem₃, hchecker₃⟩ := htracks₂.handleTrap h₃
  -- the targets change neither the registers nor the memory
  have ht : t.checker.Tracks isa endian t.rf ∧ t.mem = s₃.mem
      ∧ t.checker.sim.mem = s₃.checker.sim.mem := by
    cases hw
    split_ifs
    · exact ⟨htracks₃, rfl, rfl⟩
    · obtain ⟨htracks, hmem⟩ := htracks₃.setTarget handled.getActualTarget
      exact ⟨htracks, rfl, hmem⟩
    · exact ⟨htracks₃, rfl, rfl⟩
  obtain ⟨htracks, htmem, htchecker⟩ := ht
  refine ⟨htracks, fun hz => ?_, fun hz => ?_⟩
  · obtain ⟨hm, hc⟩ := hother (by rw [hz]; decide)
    exact ⟨by rw [htmem, hmem₃, hm, hmem₁], by rw [htchecker, hchecker₃, hc, hchecker₁]⟩
  · rw [htmem, htchecker, hmem₃, hchecker₃]
    by_cases hcall : z.trap = .syscall
    · exact hsys hcall
    · obtain ⟨hm, hc⟩ := hother hcall
      rw [hm, hc, hmem₁, hchecker₁, hmem hz]

end Step

section Run

namespace CheckedRun

variable [BPEntry E] [FuncMemory M] {isa : ISA w} {run : CheckedRun isa E M K} {c : ℕ}

theorem decodesIn_fetched (hc : c < run.length) {x : PerfInstr w}
    (hx : run.toCoreRun.fetched c = some x) :
    isa.DecodesIn (run.sim 0).sim.fetch.memory.endian x.toFuncInstr := by
  have hx' : (run.sim c).sim.fromFetch.datapath = some x := hx
  rcases c with _ | c
  · rw [run.fromFetch] at hx'
    cases hx'
  · have hlt : c < run.toPerfRun.length := Nat.lt_of_succ_lt hc
    obtain ⟨target, rfl⟩ := (PerfRun.fetched_cases hlt).2 x hx'
    have hend : (run.sim c).sim.fetch.memory.endian = (run.sim 0).sim.fetch.memory.endian :=
      PerfRun.endian_fetch hlt.le
    rw [← hend]
    exact isa.decodesIn_fetchInstr _ (run.sim c).sim.core.mem target

/-- What is executed was decoded from a word. -/
theorem decodesIn_operands {d : ℕ} (hd : d < run.length) {y : PerfInstr w}
    (hy : run.toCoreRun.sent d = some y) :
    isa.DecodesIn (run.sim 0).sim.fetch.memory.endian (run.toCoreRun.operands d y) :=
  have hset : ∀ (f : FuncInstr w) value index,
      isa.DecodesIn (run.sim 0).sim.fetch.memory.endian f →
      isa.DecodesIn (run.sim 0).sim.fetch.memory.endian (f.setVSrc value index) :=
    fun _ value index h => h.setVSrc value index
  Execute.keeps_readOperands hset _ _
    (CoreRun.keeps_sent hset (fun _ hc _ hx => decodesIn_fetched hc hx) hd hy)

/-- Writeback's part of a cycle. -/
theorem cycle (hc : c < run.length) : ∃ s wb : CheckedState w M K,
    (s.rf = (run.sim c).sim.core.rf ∧ s.mem = run.toCoreRun.memAfter c
      ∧ s.checker = (run.sim c).checker)
    ∧ s.clock isa run.kernel (run.sim c).sim.core.fromWriteback.trap
      (run.sim c).sim.core.backend.arrived (run.sim c).sim.core.currCycle = .ok wb
    ∧ (run.sim (c + 1)).sim.core.rf = wb.rf ∧ (run.sim (c + 1)).sim.core.mem = wb.mem
    ∧ (run.sim (c + 1)).checker = wb.checker := by
  obtain ⟨-, mem, wb, hb, hw, hrf, hmem, -, hchecker⟩ :=
    Core.checkedClock_cases (CheckedSim.clock_cases (run.step c hc)).2
  obtain ⟨step⟩ := Core.clock_cases (run.toCoreRun.step c hc)
  have hafter : run.toCoreRun.memAfter c = mem :=
    (CoreRun.memAfter_of_clockOf step).trans
      (Prod.mk.inj (Except.ok.inj (step.backend.symm.trans hb))).2
  exact ⟨_, wb, ⟨rfl, hafter.symm, rfl⟩, hw, hrf, hmem, hchecker⟩

/-- Behind a trap Mem has not stored. -/
theorem Safe.not_storesIn (hisa : IsSupported isa) (hc : c < run.length) (h : run.Safe c)
    (htrap : (run.sim (c + 1)).sim.core.fromWriteback.trap = true) :
    ¬ run.toCoreRun.StoresIn c := by
  rcases c with _ | b
  · intro hs
    obtain ⟨d, hd⟩ := run.toCoreRun.exists_of_storesIn (Nat.zero_le _) hs
    cases hd
  · have hlt : b < run.toCoreRun.length := Nat.lt_of_succ_lt hc
    have hpending : (run.toCoreRun.core (b + 1)).pending.trap = false := by
      rw [CoreRun.pending_eq hlt]
    obtain ⟨hno, z, hz, hz'⟩ := CoreRun.exists_trapped hisa hc hpending htrap
    refine (h z ?_).2 hz'
    unfold PerfSim.retired
    rw [show (run.sim (b + 1)).sim.core.fromWriteback.trap = false from hno]
    exact hz

/-- What a cycle keeps. -/
theorem Agrees.succ (hisa : IsSupported isa) (hc : c < run.length) (hsafe : run.Safe c)
    (h : run.Agrees c) : run.Agrees (c + 1) := by
  obtain ⟨htracks, hcommitted, htrapped⟩ := h
  obtain ⟨s, wb, ⟨hsrf, hsmem, hschecker⟩, hwb, hrf, hmem, hchecker⟩ := run.cycle hc
  have hone : (run.sim c).sim.core.backend.arrived.length ≤ 1 :=
    run.toCoreRun.length_arrived_le hc.le
  have hkeeps : ¬ run.toCoreRun.StoresIn c → s.mem = (run.sim c).sim.core.mem :=
    fun hs => hsmem.trans (run.toCoreRun.memAfter_eq hc hs)
  rw [← hschecker] at htracks hcommitted htrapped
  rw [← hsrf] at htracks
  have hnext : wb.checker.Tracks isa (run.sim 0).sim.fetch.memory.endian wb.rf
      ∧ (run.toCoreRun.StoresIn c → wb.checker.sim.mem = (run.sim c).sim.core.mem)
      ∧ (¬ run.toCoreRun.StoresIn c → wb.checker.sim.mem = wb.mem) := by
    rcases CheckedState.clock_cases hone hwb with ⟨hidle, rfl⟩ | ⟨z, hno, hz, hsys⟩
    · -- nothing is written back
      have hbefore : wb.checker.sim.mem = (run.sim c).sim.core.mem := by
        rcases hidle with htrap | hnil
        · exact htrapped htrap
        · have hdata := List.append_eq_nil_iff.1 (List.append_eq_nil_iff.1 hnil).1
          exact hcommitted.eq_of_idle hc.le (Option.toList_eq_nil_iff.1 hdata.2)
      exact ⟨htracks, fun _ => hbefore, fun hs => hbefore.trans (hkeeps hs).symm⟩
    · have hmem' : z ∈ (run.sim c).sim.core.backend.arrived := by simp [hz]
      obtain ⟨d, hd, y, hy, haccess⟩ := hcommitted.access hc.le hno hmem'
      obtain ⟨hcovered, hstore⟩ := hsafe z (by simp [PerfSim.retired, hno, hz])
      rw [← hsrf] at hcovered
      obtain ⟨ht, hplain, hkernel⟩ := htracks.writebackInstructionSystem hisa
        (decodesIn_operands hd hy) haccess hcovered (fun hn => hkeeps (hstore hn)) hsys
      refine ⟨ht, fun hs => (hplain (not_not.1 fun hn => hstore hn hs)).2, fun hs => ?_⟩
      by_cases hn : z.trap = .noTrap
      · obtain ⟨hm, hm'⟩ := hplain hn
        rw [hm, hm', hkeeps hs]
        rfl
      · exact (hkernel hn).symm
  obtain ⟨htracks', hcommitted'⟩ := hnext
  rw [← hrf, ← hchecker] at htracks'
  rw [← hmem, ← hchecker] at hcommitted'
  exact ⟨htracks', hcommitted', fun htrap => hcommitted'.2 (hsafe.not_storesIn hisa hc htrap)⟩

/-- What every cycle keeps, every run keeps. -/
theorem agrees (hisa : IsSupported isa) : ∀ {c}, c ≤ run.length → (∀ b < c, run.Safe b) →
    run.Agrees c
  | 0, _, _ => ⟨run.tracks, run.mem_eq, fun _ => run.mem_eq⟩
  | c + 1, hc, hsafe =>
    (agrees hisa (c := c) (Nat.le_of_succ_le hc) fun b hb => hsafe b (by omega)).succ hisa hc
      (hsafe c (Nat.lt_succ_self c))

end CheckedRun

end Run

section Complete

theorem IsSupported.bytes {isa : ISA w} (h : IsSupported isa) : 8 ∣ w := by
  cases h with
  | mips version => cases version <;> decide
  | riscv opcodes hw => omega

theorem HierarchiedMemory.exists_blank : ∃ m : HierarchiedMemory, ∀ x, byteAt m x = 0#8 := by
  obtain ⟨m, hm⟩ : ∃ m, HierarchiedMemory.create 12#32 2#32 8#32 = .ok m := ⟨_, rfl⟩
  refine ⟨m, fun x => ?_⟩
  show m.checkAndReadByte x = 0#8
  rw [HierarchiedMemory.checkAndReadByte_eq]
  exact (HierarchiedMemory.create_cases hm).2 x

/-- The checker is complete for the instructions that it sees: for a word at an address, pairs that
pass agree exactly when it sees what the word does, or the word never gets through. A run of the
simulator has the registers and the memory of the checker after every cycle, as long as each
instruction written back is seen, or has its operands right, and Mem does not store behind one that
traps. -/
theorem checker_complete {isa : ISA w} (hisa : IsSupported isa) :
    (∀ (bytes : BitVec 32) (endian : Endian) (PC : Addr) (id : BitVec 64),
      (isa.decoded bytes endian PC id).PairsAgree HierarchiedMemory isa
        ↔ ¬ ((isa.decoded bytes endian PC id).Unseen
          ∧ (isa.decoded bytes endian PC id).Executable HierarchiedMemory isa))
      ∧ ∀ {E M K : Type} [BPEntry E] [FuncMemory M] (run : CheckedRun isa E M K) (c : ℕ),
        c ≤ run.length → (∀ b < c, run.Safe b) →
        (run.sim c).sim.core.rf = (run.sim c).checker.sim.rf
          ∧ run.toCoreRun.Committed c (run.sim c).checker.sim.mem := by
  constructor
  · intro bytes endian PC id
    exact pairsAgree_iff hisa.width hisa.bytes HierarchiedMemory.exists_blank
      ((hisa.listed _ _ _).setSequenceId _)
  · intro E M K _ _ run c hc hsafe
    have h := CheckedRun.agrees hisa hc hsafe
    exact ⟨h.tracks.rf_eq, h.committed⟩

end Complete

section Example

/-- A kernel that leaves system calls to the exception handler. -/
def ReplicantKernel.dummy (w : ℕ) (M : Type) : ReplicantKernel w M Unit where
  execute k _ _ := .ok (k, [], .syscall)

/-- The states of the simulator, up to the first cycle that throws. -/
def CheckedSim.trajectory [BPEntry E] [FuncMemory M] (kernel : ReplicantKernel w M K)
    (isa : ISA w) (start : CheckedSim w E M K) : ℕ → CheckedSim w E M K
  | 0 => start
  | c + 1 =>
    match (CheckedSim.trajectory kernel isa start c).clock kernel isa with
    | .ok sim => sim
    | .error _ => CheckedSim.trajectory kernel isa start c

theorem CheckedSim.clock_trajectory [BPEntry E] [FuncMemory M] {kernel : ReplicantKernel w M K}
    {isa : ISA w} {start : CheckedSim w E M K} {c : ℕ}
    (hok : ((trajectory kernel isa start c).clock kernel isa).isOk) :
    (trajectory kernel isa start c).clock kernel isa
      = .ok (trajectory kernel isa start (c + 1)) := by
  rw [trajectory]
  rcases h : (trajectory kernel isa start c).clock kernel isa with e | sim
  · rw [h] at hok
    cases hok
  · rfl

theorem HierarchiedMemory.isSome_create :
    (HierarchiedMemory.create 12#32 2#32 8#32).toOption.isSome = true := rfl

/-- A memory with some bytes from the address 16 on. -/
def programMemory (bytes : List Byte) : HierarchiedMemory :=
  let blank := (HierarchiedMemory.create 12#32 2#32 8#32).toOption.get
    HierarchiedMemory.isSome_create
  (memcpyHostToGuest blank 16#64 bytes).toOption.getD blank

/-- A MIPS32 simulator that starts at that address, with its checker. -/
def programSim (bytes : List Byte) :
    CheckedSim 32 (BPEntryAlways false) HierarchiedMemory Unit :=
  (CheckedSim.init (Mips.isa .v32) .little 16
    { fetch :=
        { config := ⟨.noPrefetch, 32#32, 64#32⟩
          bp := ⟨fun _ _ => .mk, fun _ _ => 0#64, .infinite .create⟩
          tags := .alwaysHit
          memory := .create 32 .little 16 }
      core := .create (Mips.isa .v32) 3 (programMemory bytes) () }).setTarget ⟨16#64, 0#64⟩

theorem atStart_programSim (bytes : List Byte) : (programSim bytes).sim.core.AtStart 3 :=
  (Core.atStart_create _ _ _ _).setTarget _

theorem reachable_programSim (bytes : List Byte) : Fetch.Reachable HierarchiedMemory (Mips.isa .v32)
    ((programSim bytes).sim.fetch, (programSim bytes).sim.fromFetch) := .create _ _ _ _ _

theorem tracks_programSim (bytes : List Byte) : (programSim bytes).checker.Tracks (Mips.isa .v32)
    (programSim bytes).sim.fetch.memory.endian (programSim bytes).sim.core.rf :=
  ⟨rfl, .setTarget _ _ (.host _ _ 0 (.create .little 16 _)), rfl, rfl⟩

def programRun (bytes : List Byte) (length : ℕ)
    (hok : ∀ c < length, ((CheckedSim.trajectory (.dummy 32 HierarchiedMemory) (Mips.isa .v32)
      (programSim bytes) c).clock (.dummy 32 HierarchiedMemory) (Mips.isa .v32)).isOk) :
    CheckedRun (Mips.isa .v32) (BPEntryAlways false) HierarchiedMemory Unit where
  kernel := .dummy 32 HierarchiedMemory
  longAluLatency := 3
  length := length
  sim := CheckedSim.trajectory (.dummy 32 HierarchiedMemory) (Mips.isa .v32) (programSim bytes)
  latency_ge := CoreRun.latency_three_ge
  latency_lt := CoreRun.latency_three_lt
  start := atStart_programSim bytes
  fetch := reachable_programSim bytes
  fromFetch := rfl
  tracks := tracks_programSim bytes
  mem_eq := rfl
  step c hc := CheckedSim.clock_trajectory (hok c hc)

/-- `ori $t0, $zero, 1; sw $t0, 8($zero)` -/
def storeRun : CheckedRun (Mips.isa .v32) (BPEntryAlways false) HierarchiedMemory Unit :=
  programRun [0x01#8, 0x00#8, 0x08#8, 0x34#8, 0x08#8, 0x00#8, 0x08#8, 0xac#8] 9 (by decide +kernel)

/-- `ori $t0, $zero, 1; teq $zero, $zero; sw $t0, 8($zero)` -/
def trapRun : CheckedRun (Mips.isa .v32) (BPEntryAlways false) HierarchiedMemory Unit :=
  programRun [0x01#8, 0x00#8, 0x08#8, 0x34#8, 0x34#8, 0x00#8, 0x00#8, 0x00#8, 0x08#8, 0x00#8,
    0x08#8, 0xac#8] 12 (by decide +kernel)

/-- The store of a register that the pipeline has just written, and an addition, which is always
seen. -/
theorem checker_complete_storeWord :
    (storeRun.sim 9).checker.sim.sequenceId = 4#64
      ∧ byteAt (storeRun.sim 9).sim.core.mem 8#64 = 1#8
      ∧ (storeRun.sim 9).sim.core.rf = (storeRun.sim 9).checker.sim.rf
      ∧ (storeRun.sim 9).checker.sim.mem = (storeRun.sim 9).sim.core.mem
      ∧ ((Mips.isa .v32).decoded 0x01095021#32 .little 16#64 0#64).PairsAgree HierarchiedMemory
        (Mips.isa .v32) := by
  obtain ⟨hpairs, hruns⟩ := checker_complete (.mips .v32)
  have hcheck : ∀ b < 9, (storeRun.sim b).sim.retired.all (fun z => z.trap == .noTrap
      && z.vSrc0 == (storeRun.sim b).sim.core.rf.get z.src0
      && z.vSrc1 == (storeRun.sim b).sim.core.rf.get z.src1) = true := by decide +kernel
  have hsafe : ∀ b < 9, storeRun.Safe b := by
    intro b hb z hz
    have h := List.all_eq_true.1 (hcheck b hb) z hz
    simp only [Bool.and_eq_true, beq_iff_eq] at h
    exact ⟨fun _ => ⟨h.1.2, h.2⟩, fun hn => absurd h.1.1 hn⟩
  have hidle : (storeRun.sim 8).sim.core.backend.fromExecute.mem.isSome = false := by decide +kernel
  obtain ⟨hrf, hmem⟩ := hruns storeRun 9 le_rfl hsafe
  refine ⟨by decide +kernel, by decide +kernel, hrf, hmem.2 ?_, ?_⟩
  · rintro ⟨-, y, hy, -⟩
    rw [show (storeRun.sim 8).sim.core.backend.fromExecute.mem = some y from hy] at hidle
    cases hidle
  · exact (hpairs _ _ _ _).2 fun h => absurd h.1 (by decide)

/-- The pipeline stores one, the checker the zero that is in `$t0`: the pair passes, and the
memories are different. They are too after the run in which a store follows an instruction that
traps. -/
theorem not_checker_complete :
    ¬ ((Mips.isa .v32).decoded 0xac080008#32 .little 16#64 0#64).PairsAgree HierarchiedMemory
        (Mips.isa .v32)
      ∧ trapRun.length = 12
      ∧ byteAt (trapRun.sim 12).sim.core.mem 8#64 = 1#8
      ∧ byteAt (trapRun.sim 12).checker.sim.mem 8#64 = 0#8 := by
  refine ⟨fun hpairs => ?_, rfl, by decide +kernel, by decide +kernel⟩
  have hrun : ∃ m a b, HierarchiedMemory.create 12#32 2#32 8#32 = .ok m
      ∧ (((Mips.isa .v32).decoded 0xac080008#32 .little 16#64 0#64).withSources
        (0#32, 0#32)).effect (.zeroed 32 MipsRegister.maxReg) m = .ok a
      ∧ (((Mips.isa .v32).decoded 0xac080008#32 .little 16#64 0#64).withSources
        (0#32, 1#32)).effect (.zeroed 32 MipsRegister.maxReg) m = .ok b
      ∧ a.1.isSameChecker b.1 ∧ byteAt a.2.2 8#64 = 0#8 ∧ byteAt b.2.2 8#64 = 1#8 :=
    ⟨_, _, _, rfl, rfl, rfl, rfl, rfl, rfl⟩
  obtain ⟨m, a, b, -, ha, hb, hsame, hzero, hone⟩ := hrun
  have heq := hpairs (.zeroed 32 MipsRegister.maxReg) m (0#32, 1#32) _ a b rfl rfl
    (readSources_iff.2 ⟨⟨show 0 < 98 by decide, show 8 < 98 by decide⟩, rfl⟩) ha hb hsame
  rw [heq, hzero] at hone
  cases hone

end Example

end MiptMips
