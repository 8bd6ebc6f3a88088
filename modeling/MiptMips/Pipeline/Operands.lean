import MiptMips.Pipeline.Scoreboard
import MiptMips.Simulator.CheckerPairs
import MiptMips.Simulator.TrapFree

/-!
# Operands in the pipeline

An instruction that Decode lets go takes each source from the register file or from a bypass port.
When the source is on its way as the first destination of its producer, and the producer is not
`csrrs`, that is the value the register has once everything older has been written back, as far as
the kernel and the driver, which Writeback calls for each instruction, leave it alone
(`operands_settled`). A second destination can be taken for a first one, though, because the entry
of its register keeps the mark of an older producer (`not_operands_settled`).
-/

namespace MiptMips

open Machines

variable {w : ℕ}

section Decoded

namespace Execute

variable {P : FuncInstr w → Prop} {f : FuncInstr w}

/-- What does not depend on the operands is kept by what Execute takes from the ports. -/
theorem keeps_readBypass (hset : ∀ f value index, P f → P (f.setVSrc value index))
    (data : BypassData w) (commands : Fin 2 → Option BypassCommand) (index : Fin 2) (h : P f) :
    P (readBypass data commands f index) := by
  unfold readBypass
  split
  · exact hset _ _ _ h
  · exact h

theorem keeps_readOperands (hset : ∀ f value index, P f → P (f.setVSrc value index))
    (data : BypassData w) (commands : Fin 2 → Option BypassCommand) (h : P f) :
    P (readOperands data commands f) :=
  keeps_readBypass hset data commands 1 (keeps_readBypass hset data commands 0 h)

end Execute

/-- The instruction was decoded from a word; it may have got a number and operands. -/
def ISA.Decodes (isa : ISA w) (f : FuncInstr w) : Prop :=
  ∃ bytes endian PC id vSrc0 vSrc1,
    f = { isa.createInstr bytes endian PC with sequenceId := id, vSrc0 := vSrc0, vSrc1 := vSrc1 }

namespace ISA.Decodes

variable {isa : ISA w} {f : FuncInstr w}

theorem setVSrc (h : isa.Decodes f) (value : BitVec w) (index : Fin 2) :
    isa.Decodes (f.setVSrc value index) := by
  obtain ⟨bytes, endian, PC, id, v₀, v₁, rfl⟩ := h
  unfold FuncInstr.setVSrc
  split_ifs
  · exact ⟨bytes, endian, PC, id, value, v₁, rfl⟩
  · exact ⟨bytes, endian, PC, id, v₀, value, rfl⟩

theorem accumulator (hisa : IsSupported isa) (h : isa.Decodes f) (ha : f.getAccumulationType ≠ 0) :
    f.dst0 = .mips 33 ∧ f.dst1 = .mips 32 := by
  obtain ⟨bytes, endian, PC, id, v₀, v₁, rfl⟩ := h
  cases hisa with
  | mips version => exact (faultShape_mips version endian bytes PC).accumulator ha
  | riscv opcodes hw => exact (faultShape_riscv opcodes bytes PC).accumulator ha

end ISA.Decodes

open MipsTable in
theorem storeUnit_entries : ∀ e ∈ entries, e.function = .storeAddr ∨ e.function = .storeAddrAligned
    ∨ e.function.storesPart → e.dst = [.zero] := by decide +kernel

theorem storeUnit_cmdDesc {opcodes : RiscVOpcodes} {w : ℕ} : ∀ e ∈ RiscV.cmdDesc opcodes w,
    e.function = .storeAddr ∨ e.function = .storeAddrAligned ∨ e.function.storesPart →
      e.dst = [.zero] := by
  have h : (RiscV.cmdDesc opcodes w).all (fun e => decide (e.function = .storeAddr
    ∨ e.function = .storeAddrAligned ∨ e.function.storesPart → e.dst = [.zero])) = true := rfl
  intro e he
  exact of_decide_eq_true (List.all_eq_true.1 h e he)

theorem storeUnit_mips (version : MipsVersion) (endian : Endian) (bytes : BitVec 32) (PC : Addr)
    (h : (Mips.createInstr version endian bytes PC w).executor = .storeAddr
      ∨ (Mips.createInstr version endian bytes PC w).executor = .storeAddrAligned
      ∨ (Mips.createInstr version endian bytes PC w).executor.storesPart) :
    (Mips.createInstr version endian bytes PC w).dst0.isZero := by
  obtain ⟨target, newPC, slots, hi⟩ := Mips.createInstr_entry (w := w) version endian bytes PC
  have hm := MipsTable.getTableEntry_mem bytes
  rw [hi] at h ⊢
  generalize MipsTable.getTableEntry bytes = e at *
  dsimp only at h ⊢
  split_ifs at h
  · rw [storeUnit_entries e hm h]
    rfl
  · simp [Executor.storesPart] at h

theorem storeUnit_riscv (opcodes : RiscVOpcodes) (bytes : BitVec 32) (PC : Addr)
    (h : (RiscV.createInstr opcodes w bytes PC).executor = .storeAddr
      ∨ (RiscV.createInstr opcodes w bytes PC).executor = .storeAddrAligned
      ∨ (RiscV.createInstr opcodes w bytes PC).executor.storesPart) :
    (RiscV.createInstr opcodes w bytes PC).dst0.isZero := by
  obtain ⟨target, newPC, vImm, hi⟩ := RiscV.createInstr_entry (w := w) opcodes bytes PC
  have hm := RiscV.findEntry_mem (w := w) opcodes bytes
  rw [hi] at h ⊢
  generalize RiscV.findEntry opcodes w bytes = e at *
  dsimp only at h ⊢
  rw [storeUnit_cmdDesc e hm h]
  rfl

/-- The units of stores have no destination. -/
theorem IsSupported.storeUnit {isa : ISA w} (hisa : IsSupported isa) (bytes : BitVec 32)
    (endian : Endian) (PC : Addr)
    (h : (isa.createInstr bytes endian PC).executor = .storeAddr
      ∨ (isa.createInstr bytes endian PC).executor = .storeAddrAligned
      ∨ (isa.createInstr bytes endian PC).executor.storesPart) :
    (isa.createInstr bytes endian PC).dst0.isZero := by
  cases hisa with
  | mips version => exact storeUnit_mips _ _ _ _ h
  | riscv opcodes hw => exact storeUnit_riscv _ _ _ h

section Mask

variable {isa : ISA w} {f : FuncInstr w}

/-- What can be bypassed is written whole, other than the result of `csrrs`. -/
theorem ISA.Decodes.mask_execute (hisa : IsSupported isa) (h : isa.Decodes f)
    (hm : f.isConditionalMove = false) (hp : f.isPartialLoad = false)
    (hc : f.executor ≠ .csrrs) (hz : f.dst0.isZero = false) : f.execute.mask = allOnes w := by
  obtain ⟨bytes, endian, PC, id, v₀, v₁, rfl⟩ := h
  have hl := hisa.listed bytes endian PC
  have hs := hisa.storeUnit bytes endian PC
  have hmask := hl.fresh.mask
  generalize isa.createInstr bytes endian PC = f at *
  dsimp only at hc hz
  have hby : f.executor.masksByOperands = false := by
    have hmoves : f.executor.moves → f.isConditionalMove := fun hx => by
      simp [FuncInstr.isConditionalMove, (hl.moves hx).1]
    have hload : f.executor = .loadAddrRight32 ∨ f.executor = .loadAddrLeft32 →
        f.isPartialLoad := fun hx => by simp [FuncInstr.isPartialLoad, (hl.partialLoad hx).1]
    change f.isConditionalMove = false at hm
    change f.isPartialLoad = false at hp
    rw [hm] at hmoves
    rw [hp] at hload
    cases he : f.executor with
    | movn => exact absurd (hmoves (by rw [he]; rfl)) (by decide)
    | movz => exact absurd (hmoves (by rw [he]; rfl)) (by decide)
    | loadAddrRight32 => exact absurd (hload (.inl he)) (by decide)
    | loadAddrLeft32 => exact absurd (hload (.inr he)) (by decide)
    | csrrs => exact absurd he hc
    | _ => rfl
  have hpart : f.executor.storesPart = false := by
    rcases hx : f.executor.storesPart with _ | _
    · rfl
    · rw [hs (.inr (.inr hx))] at hz
      cases hz
  unfold FuncInstr.execute
  dsimp only
  rw [mask_run hby hpart]
  unfold Executor.fixedMask
  split
  · rw [hs (.inl ‹_›)] at hz
    cases hz
  · rw [hs (.inr (.inl ‹_›))] at hz
    cases hz
  · exact hmask

end Mask

end Decoded

section Ports

theorem Carried.getSrc {x y : PerfInstr w} (h : Carried x y) (index : Fin 2) :
    y.getSrc index = x.getSrc index := by
  unfold FuncInstr.getSrc
  rw [h.src0, h.src1]

/-- The bypass port that the last stage of a path writes to. -/
def ExecutionPath.port : ExecutionPath → ℕ
  | writeback => 0
  | long => 1
  | mem => 2
  | branch => 4

theorem getBypassDirection_last {longAluLatency : ℕ} (hlt : longAluLatency < 64)
    (path : ExecutionPath) : BypassCommand.getBypassDirection
      ⟨path.stageAt longAluLatency (path.latency longAluLatency), longAluLatency - 1⟩ = 3 := by
  unfold BypassCommand.getBypassDirection ExecutionPath.stageAt
  rw [if_pos rfl, if_neg]
  simp [RegisterStage.isSameStage, RegisterStage.wbStage, RegisterStage.inRFStage]
  omega

theorem getBypassDirection_zero {longAluLatency : ℕ} (hge : 2 ≤ longAluLatency)
    (path : ExecutionPath) : BypassCommand.getBypassDirection
      ⟨path.stageAt longAluLatency 0, longAluLatency - 1⟩ = 0 := by
  unfold BypassCommand.getBypassDirection
  rw [ExecutionPath.stageAt_zero hge, if_neg]
  simp [RegisterStage.isSameStage]
  omega

theorem getBypassDirection_port {longAluLatency k : ℕ} (hge : 2 ≤ longAluLatency)
    (hlt : longAluLatency < 64) {path : ExecutionPath} (hk : k + 1 = path.latency longAluLatency) :
    BypassCommand.getBypassDirection ⟨path.stageAt longAluLatency k, longAluLatency - 1⟩
      = path.port := by
  cases path with
  | writeback =>
    obtain rfl : k = 0 := by simpa [ExecutionPath.latency] using hk
    exact getBypassDirection_zero hge _
  | mem =>
    obtain rfl : k = 1 := by simpa [ExecutionPath.latency] using hk
    unfold BypassCommand.getBypassDirection
    rw [if_neg]
    · rfl
    · simp [ExecutionPath.stageAt, ExecutionPath.latency, RegisterStage.isSameStage,
        RegisterStage.memOrBranchStage, RegisterStage.inRFStage]
      omega
  | branch =>
    obtain rfl : k = 1 := by simpa [ExecutionPath.latency] using hk
    unfold BypassCommand.getBypassDirection
    rw [if_neg]
    · rfl
    · simp [ExecutionPath.stageAt, ExecutionPath.latency, RegisterStage.isSameStage,
        RegisterStage.memOrBranchStage, RegisterStage.inRFStage]
      omega
  | long =>
    have hk' : k + 1 = longAluLatency := hk
    unfold BypassCommand.getBypassDirection
    rw [ExecutionPath.stageAt_long (by omega) (by omega), if_pos]
    · rfl
    · simp [RegisterStage.isSameStage]
      omega

theorem FuncInstr.vSrc_setVSrc (f : FuncInstr w) (value : BitVec w) (i j : Fin 2) :
    (f.setVSrc value i).vSrc j = if j = i then value else f.vSrc j := by
  match i, j with
  | 0, 0 => rfl
  | 0, 1 => rfl
  | 1, 0 => rfl
  | 1, 1 => rfl

theorem vSrc_readBypass (data : Execute.BypassData w) (commands : Fin 2 → Option BypassCommand)
    (f : FuncInstr w) (i j : Fin 2) :
    (Execute.readBypass data commands f i).vSrc j = if j = i
      then ((commands i).map fun command =>
        Execute.lastData (data command.getBypassDirection)).getD (f.vSrc i)
      else f.vSrc j := by
  unfold Execute.readBypass
  rcases commands i with _ | command
  · by_cases h : j = i <;> simp [h]
  · simp [FuncInstr.vSrc_setVSrc]

/-- Each source comes from the port that its command names, if it has one. -/
theorem vSrc_readOperands (data : Execute.BypassData w) (commands : Fin 2 → Option BypassCommand)
    (f : FuncInstr w) (index : Fin 2) :
    (Execute.readOperands data commands f).vSrc index
      = ((commands index).map fun command =>
        Execute.lastData (data command.getBypassDirection)).getD (f.vSrc index) := by
  unfold Execute.readOperands
  match index with
  | 0 => simp [vSrc_readBypass]
  | 1 => simp [vSrc_readBypass]

namespace BackendRun

variable {M : Type} [FuncMemory M] (run : BackendRun w M) {c : ℕ}

/-- Mem bypasses what it sends to Writeback. -/
theorem bypass_fromMem (hc : c < run.length) :
    (run.backend (c + 1)).fromMem.bypass = (run.arrivedOn .mem (c + 1)).map (·.vDst) := by
  rcases run.fromMem_cases hc with ⟨-, hm, -⟩ | ⟨x, f, -, -, -, hm⟩
  · simp [arrivedOn, hm]
  · rw [arrivedOn, hm]
    rfl

/-- So does Branch. -/
theorem bypass_fromBranch (hc : c < run.length) :
    (run.backend (c + 1)).fromBranch.bypass = (run.arrivedOn .branch (c + 1)).map (·.vDst) := by
  obtain ⟨-, -, hb⟩ := run.cycle hc
  rw [arrivedOn, hb]
  unfold Branch.clock
  rcases (run.backend c).fromExecute.branch with _ | instr <;> rcases run.flush c with _ | _ <;> rfl

/-- So does the long-latency unit. -/
theorem longArithmeticBypass_fromExecute (hc : c < run.length) :
    (run.backend (c + 1)).fromExecute.longArithmeticBypass
      = (run.arrivedOn .long (c + 1)).map (·.vDst) := by
  rw [(run.fromExecute_eq hc).1]
  rfl

/-- Execute bypasses all that does not go into the long-latency unit. -/
theorem bypass_fromExecute (hc : c < run.length) {z : PerfInstr w} (h : run.executed c = some z)
    (hp : z.path ≠ .long) : (run.backend (c + 1)).fromExecute.bypass = some z.vDst := by
  rw [(run.fromExecute_eq hc).1, h]
  simp [hp, Option.filter_some]

/-- What arrives at Writeback is on the bypass port of the last stage of its path. -/
theorem lastData_port (hc : c < run.length) {path : ExecutionPath} {z : PerfInstr w}
    (h : run.arrivedOn path (c + 1) = some z) (fromWriteback : List (InstructionOutput w)) :
    Execute.lastData ((run.backend (c + 1)).bypassData fromWriteback path.port) = z.vDst0 := by
  cases path with
  | mem =>
    rw [ExecutionPath.port, Backend.bypassData, run.bypass_fromMem hc, h]
    rfl
  | branch =>
    rw [ExecutionPath.port, Backend.bypassData, run.bypass_fromBranch hc, h]
    · rfl
    all_goals decide
  | long =>
    rw [ExecutionPath.port, Backend.bypassData, run.longArithmeticBypass_fromExecute hc, h]
    rfl
  | writeback =>
    obtain ⟨hx, hp⟩ := run.executedOn_iff.1 (show run.executedOn .writeback c = some z from h)
    rw [ExecutionPath.port, Backend.bypassData, run.bypass_fromExecute hc hx (by simp [hp])]
    rfl

end BackendRun

end Ports

theorem FuncInstr.noAccess_of_path {f : FuncInstr w} (h : f.path ≠ .mem) :
    f.isLoad = false ∧ f.isStore = false := by
  unfold path isDivmult isJump isDirectJump isBranch isCommonBranch isLikelyBranch isIndirectJump
    isLoad isStore isExplicitTrap isUnsignedLoad isSignedLoad isPartialLoad
    getAccumulationType at *
  cases ho : f.operation <;> rw [ho] at h <;> first | exact ⟨rfl, rfl⟩ | exact absurd rfl h

namespace CoreRun

variable {M K : Type} [FuncMemory M] (run : CoreRun w M K) {c d : ℕ} {x y z : PerfInstr w}
  {num : Register}

section Outcome

/-- The instruction that was let go in a cycle with the operands that Execute takes in the next
one. -/
def operands (d : ℕ) (x : PerfInstr w) : FuncInstr w :=
  Execute.readOperands
    ((run.core (d + 1)).backend.bypassData (run.core (d + 1)).fromWriteback.bypass)
    (run.core (d + 1)).fromDecode.commands x.toFuncInstr

/-- What the instruction that was let go in a cycle writes back. -/
def outcome (d : ℕ) (x : PerfInstr w) : PerfInstr w :=
  match FuncMemory.loadStore (run.core (d + 2)).mem (run.execution d x).toFuncInstr with
  | .ok (f, _) => (run.execution d x).withInstr f
  | .error _ => run.execution d x

theorem carried_outcome (d : ℕ) (x : PerfInstr w) : Carried x (run.outcome d x) := by
  unfold outcome
  split
  · exact (run.carried_execution d x).trans (.loadStore ‹_›)
  · exact run.carried_execution d x

theorem outcome_of_path (h : x.path ≠ .mem) : run.outcome d x = run.execution d x := by
  rw [← (run.carried_execution d x).path] at h
  obtain ⟨hl, hs⟩ := FuncInstr.noAccess_of_path h
  unfold outcome FuncMemory.loadStore
  simp only [hl, hs, Bool.false_eq_true, if_false]
  rfl

theorem outcome_of_result (h : run.toBackendRun.Result (d + 1) (run.execution d x) z) :
    z = run.outcome d x := by
  unfold BackendRun.Result at h
  split_ifs at h with hp
  · obtain ⟨f, hl, rfl⟩ := h
    have hl' : FuncMemory.loadStore (run.core (d + 2)).mem (run.execution d x).toFuncInstr
      = .ok (f, _) := hl
    unfold outcome
    rw [hl']
  · rw [h, run.outcome_of_path]
    rwa [← (run.carried_execution d x).path]

variable {run}

/-- An instruction on its way gets to the end of its path in the cycle that is due. -/
theorem InFlight.arrivedOn (h : run.InFlight c d y) {c' : ℕ}
    (hc' : d + 1 + y.path.latency run.longAluLatency = c') (hle : c' ≤ c + 1)
    (hlen : c' ≤ run.length) :
    run.toBackendRun.arrivedOn y.path c' = some (run.outcome d y) := by
  have hlt := h.lt
  have hpath := (run.carried_execution d y).path
  have hex : run.toBackendRun.executedOn y.path (d + 1) = some (run.execution d y) :=
    run.toBackendRun.executedOn_iff.2
      ⟨run.executed_succ_iff.2 ⟨h.quiet (d + 1) (by omega) hlt, y, h.sent, rfl⟩, hpath⟩
  have hq : run.toBackendRun.Quiet (d + 1) c' := fun v hv hvc => h.quiet v (by omega) (by omega)
  obtain ⟨z, hr⟩ := run.toBackendRun.exists_result hex hq hc' hlen
  rw [← outcome_of_result run hr]
  exact (run.toBackendRun.arrivedOn_iff hlen).2 ⟨d + 1, _, hc', hex, hq, hr⟩

end Outcome

section Data

/-- Writeback bypasses what arrives. -/
theorem bypass_fromWriteback (hc : c < run.length) (hpos : 0 < c)
    (hf : (run.core c).flush = false) : (run.core (c + 1)).fromWriteback.bypass
      = (run.core c).backend.arrived.map (·.vDst) := by
  obtain ⟨h⟩ := Core.clock_cases (run.step c hc)
  have htrap : (run.core c).fromWriteback.trap = false := (Bool.or_eq_false_iff.1 hf).2
  have hone := run.length_arrived_le hc.le
  have hpending : (run.core c).pending = {} := by
    obtain ⟨b, rfl⟩ : ∃ b, c = b + 1 := ⟨c - 1, by omega⟩
    obtain ⟨h'⟩ := Core.clock_cases (run.step b (by omega))
    exact h'.pending
  have hwb := h.writeback
  rw [htrap, hpending] at hwb
  rw [h.fromWriteback]
  rcases WritebackState.clock_cases (by simpa using hone) hwb with ⟨hn, ht⟩ | ⟨instr, hi, hs⟩
  · rw [ht, show (run.core c).backend.arrived = [] by simpa using hn]
    rfl
  · rw [WritebackState.bypass_writebackInstructionSystem hs,
      show (run.core c).backend.arrived = [instr] by simpa using hi]
    rfl

variable {run} {k : ℕ}

/-- What is due in this or the next cycle arrives then. -/
theorem InFlight.arrived_eq (h : run.InFlight c d y) {c' : ℕ}
    (hc' : d + 1 + y.path.latency run.longAluLatency = c') (hle : c' ≤ c + 1)
    (hlen : c' ≤ run.length) : (run.core c').backend.arrived = [run.outcome d y] := by
  have hmem := (run.toBackendRun.mem_arrived_iff hlen).2 ⟨y.path, h.arrivedOn hc' hle hlen⟩
  have hone := run.length_arrived_le hlen
  change _ ∈ (run.core c').backend.arrived at hmem
  rcases ha : (run.core c').backend.arrived with _ | ⟨z, _ | ⟨z', zs⟩⟩
  · rw [ha] at hmem
    cases hmem
  · rw [ha] at hmem
    rw [List.mem_singleton.1 hmem]
  · rw [ha] at hone
    simp at hone

theorem vDst0_outcome (h : y.isLoad = false) :
    (run.outcome d y).vDst0 = (run.execution d y).vDst0 := by
  have hl : (run.execution d y).isLoad = false := by
    rw [FuncInstr.isLoad_eq, (run.carried_execution d y).operation, ← FuncInstr.isLoad_eq, h]
  unfold outcome
  split
  · rename_i f m hm
    obtain ⟨v, b, rfl, hv⟩ := loadStore_instr hm
    exact hv hl
  · rfl

/-- The result of an instruction on its way is on the bypass port of the place where it is. -/
theorem InFlight.lastData_eq (h : run.InFlight c d y) (hc : c < run.length)
    (hready : y.readyAt run.longAluLatency ≤ c - d - 1) :
    Execute.lastData ((run.core (c + 1)).backend.bypassData (run.core (c + 1)).fromWriteback.bypass
      (BypassCommand.getBypassDirection
        ⟨y.path.stageAt run.longAluLatency (c - d - 1), run.longAluLatency - 1⟩))
      = (run.outcome d y).vDst0 := by
  have hge := run.latency_ge
  have hlt := run.latency_lt
  have hd := h.lt
  rcases Nat.lt_or_eq_of_le h.le with hend | hend
  · rcases Nat.lt_or_eq_of_le (Nat.succ_le_of_lt hend) with hnext | hnext
    · -- two cycles or more before the end only a result of Execute that is not loaded is known
      obtain ⟨hl, hp, hk⟩ : y.isLoad = false ∧ y.path = .mem ∧ c = d + 1 := by
        unfold FuncInstr.readyAt at hready
        cases hp : y.path with
        | writeback =>
          rw [hp] at hnext
          simp only [ExecutionPath.latency] at hnext
          omega
        | branch =>
          rw [hp] at hready hnext
          simp only [ExecutionPath.latency] at hready hnext
          omega
        | long =>
          rw [hp] at hready hnext
          simp only [ExecutionPath.latency] at hready hnext
          omega
        | mem =>
          rw [hp] at hready hnext
          simp only [ExecutionPath.latency] at hready hnext
          rcases hl : y.isLoad with _ | _
          · exact ⟨rfl, rfl, by omega⟩
          · rw [hl, if_pos rfl] at hready
            omega
      subst hk
      have hex := run.executed_succ_iff.2 ⟨h.flush_eq, y, h.sent, rfl⟩
      have hpath : (run.execution d y).path ≠ .long := by
        rw [(run.carried_execution d y).path, hp]
        decide
      rw [show d + 1 - d - 1 = 0 by omega, getBypassDirection_zero hge, Backend.bypassData,
        show (run.core (d + 1 + 1)).backend.fromExecute.bypass = _ from
          run.toBackendRun.bypass_fromExecute hc hex hpath, vDst0_outcome hl]
      rfl
    · rw [getBypassDirection_port hge hlt (show _ = y.path.latency _ by omega)]
      exact run.toBackendRun.lastData_port hc (h.arrivedOn hnext.symm le_rfl hc) _
  · rw [show c - d - 1 = y.path.latency run.longAluLatency by omega, getBypassDirection_last hlt,
      Backend.bypassData, run.bypass_fromWriteback hc (by omega) h.flush_eq,
      h.arrived_eq hend.symm (Nat.le_succ c) hc.le]
    rfl

end Data

end CoreRun

section Fold

variable {num : Register} {rf rf' : RF w}

/-- What a list of instructions leaves in the registers. -/
def RF.writeAll (rf : RF w) (instrs : List (PerfInstr w)) : Except SimException (RF w) :=
  instrs.foldlM (fun rf instr => rf.writeDst instr.toFuncInstr) rf

/-- One that accumulates names both halves of the accumulator. -/
def FuncInstr.NamesAccumulator (f : FuncInstr w) : Prop :=
  f.getAccumulationType ≠ 0 → f.dst0 = .mips 33 ∧ f.dst1 = .mips 32

theorem Carried.namesAccumulator {x y : PerfInstr w} (h : Carried x y)
    (hx : x.NamesAccumulator) : y.NamesAccumulator := by
  unfold FuncInstr.NamesAccumulator FuncInstr.getAccumulationType at hx ⊢
  rw [h.operation, h.dst0, h.dst1]
  exact hx

theorem RF.get_writeDst_of_not_writes {z : FuncInstr w} (h : rf.writeDst z = .ok rf')
    (hacc : z.NamesAccumulator) (hw : z.writes num = false) : rf'.get num = rf.get num := by
  simp only [FuncInstr.writes, FuncInstr.writesFirst, FuncInstr.writesSecond, Bool.or_eq_false_iff,
    Bool.and_eq_false_imp, Bool.not_eq_true', beq_eq_false_iff_ne] at hw
  exact get_writeDst_of_ne h hacc (fun hz => Ne.symm (hw.1 hz)) (fun hz => Ne.symm (hw.2 hz))

theorem RF.get_writeDst_of_writesFirst {z : FuncInstr w} (h : rf.writeDst z = .ok rf')
    (hacc : z.getAccumulationType = 0) (hmask : z.mask = allOnes w) (hw : z.writesFirst num)
    (hs : z.writesSecond num = false) : rf'.get num = z.vDst0 := by
  simp only [FuncInstr.writesFirst, Bool.and_eq_true, Bool.not_eq_true', beq_iff_eq] at hw
  simp only [FuncInstr.writesSecond, Bool.and_eq_false_imp, Bool.not_eq_true',
    beq_eq_false_iff_ne] at hs
  rw [get_writeDst h hacc, if_neg fun hn => hs hn.1 hn.2.symm, if_pos ⟨hw.1, hw.2.symm⟩, hmask,
    allOnes_eq, applyMask_allOnes]

/-- The results of an instruction are written, and something may be done to the registers then. -/
def RF.WrittenBack (handled : PerfInstr w → RF w → RF w → Prop) (z : PerfInstr w) (rf rf' : RF w) :
    Prop :=
  ∃ rf₁, rf.writeDst z.toFuncInstr = .ok rf₁ ∧ handled z rf₁ rf'

/-- Nothing is done then. -/
theorem RF.path_of_writeAll {instrs : List (PerfInstr w)} (h : rf.writeAll instrs = .ok rf') :
    Path (WrittenBack fun _ rf rf' => rf' = rf) rf instrs rf' :=
  .of_foldlM id (fun _ _ _ hw => ⟨_, hw, rfl⟩) h

end Fold

namespace CoreRun

variable {M K : Type} [FuncMemory M] (run : CoreRun w M K) {c d : ℕ} {x y z : PerfInstr w}
  {num : Register}

/-- All that comes from Fetch was decoded from a word. -/
def DecodesAll : Prop := ∀ c x, run.fetched c = some x → run.isa.Decodes x.toFuncInstr

/-- All that comes from Fetch during the run was. -/
def DecodesDuring : Prop :=
  ∀ c < run.length, ∀ x, run.fetched c = some x → run.isa.Decodes x.toFuncInstr

/-- The instruction that was let go in cycle `d`, with its results, if it is on its way in cycle
`c`. -/
def resultOf (c d : ℕ) : Option (PerfInstr w) :=
  ((run.sent d).filter fun y => c ≤ d + 1 + y.path.latency run.longAluLatency
    ∧ ∀ v < c + 1, d < v → (run.core v).flush = false).map (run.outcome d)

/-- What is on its way in a cycle, with its results, in program order. -/
def inFlightResults (c : ℕ) : List (PerfInstr w) := (List.range c).filterMap (run.resultOf c)

/-- The registers with all results that are on their way written. -/
def written (c : ℕ) : Except SimException (RF w) := (run.core c).rf.writeAll (run.inFlightResults c)

/-- Registers as they can be once all that is on its way has been written back, whatever memory and
kernel an instruction finds then. -/
def Settled (c : ℕ) (rf : RF w) : Prop :=
  Path (fun z rf rf' => ∃ (s t : WritebackState w M K) (cycle : ℕ), s.rf = rf
    ∧ s.writebackInstructionSystem run.kernel run.isa z cycle = .ok t ∧ t.rf = rf')
    (run.core c).rf (run.inFlightResults c) rf

/-- What Writeback makes of it with the memory and the kernel of this cycle. -/
def settle (c : ℕ) : Except SimException (WritebackState w M K) :=
  (run.inFlightResults c).foldlM
    (fun s z => s.writebackInstructionSystem run.kernel run.isa z (run.core c).currCycle)
    ⟨(run.core c).writeback, (run.core c).rf, (run.core c).mem, (run.core c).kernelState, {}⟩

/-- What the kernel and the driver do to the registers after an instruction. -/
def Handled (z : PerfInstr w) (rf rf' : RF w) : Prop :=
  ∃ (s u t : WritebackState w M K) (handled : PerfInstr w) (trap : Trap), s.rf = rf
    ∧ s.handleInstruction run.kernel z = .ok (handled, u)
    ∧ u.handleTrap run.isa handled = .ok (trap, t) ∧ t.rf = rf'

/-- In a cycle, no source of what is let go is on its way as a second destination, or as the
destination of `csrrs`. -/
def BypassesFirst (c : ℕ) : Prop := ∀ x index d y, run.sent c = some x →
  run.Producer c d y (x.getSrc index) →
    y.writesSecond (x.getSrc index) = false ∧ y.executor ≠ .csrrs

/-- Nothing on its way writes the register after an instruction. -/
def LastAfter (c d : ℕ) (num : Register) : Prop :=
  ∀ d' y, run.InFlight c d' y → d < d' → y.writes num = false

/-- What is done to the registers after the instructions on their way leaves a register alone, from
its producer on. A register that nothing on its way writes only has to be left alone when it has the
value that it has in this cycle. -/
def Spares (handled : PerfInstr w → RF w → RF w → Prop) (c : ℕ) (num : Register) : Prop :=
  ∀ d y, run.InFlight c d y → run.LastAfter c d num → ∀ rf rf',
    handled (run.outcome d y) rf rf' →
    ((∀ d' y', run.InFlight c d' y' → y'.writes num = false) →
      rf.get num = (run.core c).rf.get num) → rf'.get num = rf.get num

/-- In a cycle, the kernel and the driver spare the sources of what is let go. -/
def SparesSources (c : ℕ) : Prop := ∀ x index, run.sent c = some x →
  run.Spares run.Handled c (x.getSrc index)

section Decoded

variable {P : FuncInstr w → Prop}

theorem keeps_readInstr {input : DecodeIn w}
    (hs : ∀ x, input.stallDatapath = some x → P x.toFuncInstr)
    (hd : ∀ x, input.datapath = some x → P x.toFuncInstr)
    (h : Decode.readInstr input = some x) : P x.toFuncInstr := by
  unfold Decode.readInstr at h
  rcases Option.or_eq_some_iff.1 h with h | ⟨-, h⟩
  · exact hs x h
  · exact hd x h

variable {run}

theorem keeps_stallDatapath
    (hfetched : ∀ c < run.length, ∀ x, run.fetched c = some x → P x.toFuncInstr) :
    ∀ {c}, c ≤ run.length → ∀ x, (run.core c).fromDecode.stallDatapath = some x → P x.toFuncInstr
  | 0, _, x, hx => by
    rw [run.start.fromDecode] at hx
    cases hx
  | c + 1, hc, x, hx => by
    have ih := keeps_stallDatapath hfetched (c := c) (by omega)
    rcases (run.decode_cases (by omega : c < run.length)).2 with ⟨-, ho⟩ | ⟨_, hh⟩ | ⟨_, _, hg⟩
    · rw [ho] at hx
      cases hx
    · rw [hh.out] at hx
      cases hx
      exact keeps_readInstr ih (hfetched c (by omega)) hh.readInstr
    · rw [hg.out] at hx
      dsimp only [Decode.handleMisprediction] at hx
      split_ifs at hx

theorem keeps_readSource (hset : ∀ f value index, P f → P (f.setVSrc value index))
    {unit : DataBypass} {rf : RF w} {index : Fin 2} (h : P x.toFuncInstr)
    (hr : Decode.readSource unit rf x index = .ok y) : P y.toFuncInstr := by
  unfold Decode.readSource at hr
  split_ifs at hr
  · obtain ⟨value, -, hr⟩ := bind_eq_ok.1 hr
    cases hr
    exact hset _ value index h
  · cases hr
    exact h

/-- What holds of all that comes from Fetch, whatever its operands are, holds of what Decode lets
go. -/
theorem keeps_sent (hset : ∀ f value index, P f → P (f.setVSrc value index))
    (hfetched : ∀ c < run.length, ∀ x, run.fetched c = some x → P x.toFuncInstr)
    (hc : c < run.length) (h : run.sent c = some x) : P x.toFuncInstr := by
  obtain ⟨instr, hg⟩ := run.letsGo hc h
  obtain ⟨first, h₀, h₁⟩ := hg.sources
  exact keeps_readSource hset (keeps_readSource hset
    (keeps_readInstr (keeps_stallDatapath hfetched hc.le) (hfetched c hc) hg.readInstr) h₀) h₁

theorem decodes_sent (hdec : run.DecodesDuring) (hc : c < run.length) (h : run.sent c = some x) :
    run.isa.Decodes x.toFuncInstr :=
  keeps_sent (fun _ value index hf => hf.setVSrc value index) hdec hc h

end Decoded

section Sources

variable {run}

theorem InFlight.exists_producer {d : ℕ} {y : PerfInstr w} (h : run.InFlight c d y)
    (hw : y.writes num) :
    ∃ d y, run.Producer c d y num := by
  by_cases hl : ∀ d' y', run.InFlight c d' y' → d < d' → y'.writes num = false
  · exact ⟨d, y, h, hw, hl⟩
  · obtain ⟨d', y', h', hlt, hw'⟩ : ∃ d' y', run.InFlight c d' y' ∧ d < d' ∧ y'.writes num := by
      simpa using hl
    exact h'.exists_producer hw'
termination_by c - d
decreasing_by
  have := h'.lt
  omega

/-- The register file has what nothing on its way writes. -/
theorem isInRF_iff (hc : c ≤ run.length) :
    ((run.unit c).getEntry num).currentStage.isInRF = true
      ↔ ∀ d y, run.InFlight c d y → y.writes num = false := by
  constructor
  · intro h d y hy
    rcases hw : y.writes num with _ | _
    · rfl
    · obtain ⟨d, y, hp⟩ := hy.exists_producer hw
      have ht := (scored hc num).busy d y hp
      rw [ht.currentStage, ExecutionPath.isInRF_stageAt run.latency_lt ht.le] at h
      cases h
  · intro h
    rw [(scored hc num).idle h]
    rfl

theorem vSrc_readSource {unit : DataBypass} {rf : RF w} {index j : Fin 2}
    (h : Decode.readSource unit rf x index = .ok y) :
    y.vSrc j = if unit.isInRF x index ∧ j = index then rf.get (x.getSrc index) else x.vSrc j := by
  unfold Decode.readSource at h
  split_ifs at h with hin
  · obtain ⟨value, hv, h⟩ := bind_eq_ok.1 h
    cases h
    unfold RF.read RF.getValue at hv
    split_ifs at hv
    cases hv
    rw [PerfInstr.withInstr, FuncInstr.vSrc_setVSrc]
    simp [hin]
  · cases h
    simp [hin]

/-- What is let go has the sources that are in the register file. -/
theorem vSrc_sent {unit : DataBypass} {rf : RF w} {input : DecodeIn w} {out : DecodeOut w}
    (h : Decode.LetsGo unit rf input out x y) {index : Fin 2} (hin : unit.isInRF x index) :
    y.vSrc index = rf.get (x.getSrc index) := by
  obtain ⟨first, h₀, h₁⟩ := h.sources
  have hc := Decode.carried_readSource h₀
  have hin' : unit.isInRF first 1 = unit.isInRF x 1 := by
    unfold DataBypass.isInRF
    rw [hc.getSrc]
  rw [vSrc_readSource h₁, hin', hc.getSrc]
  match index, hin with
  | 0, hin => rw [if_neg (by simp), vSrc_readSource h₀, if_pos ⟨hin, rfl⟩]
  | 1, hin => rw [if_pos ⟨hin, rfl⟩]

end Sources

section Settled

/-- What an instruction other than `csrrs` bypasses is what it writes. -/
theorem mask_outcome (hisa : IsSupported run.isa) (hy : run.isa.Decodes y.toFuncInstr)
    (hb : y.isBypassible) (hcsr : y.executor ≠ .csrrs) (hz : y.dst0.isZero = false) :
    (run.outcome d y).mask = allOnes w := by
  have hc := Carried.readOperands
    ((run.core (d + 1)).backend.bypassData (run.core (d + 1)).fromWriteback.bypass)
    (run.core (d + 1)).fromDecode.commands y
  have hexec : (run.execution d y).mask = allOnes w := by
    simp only [PerfInstr.isBypassible, Bool.and_eq_true, Bool.not_eq_true'] at hb
    refine (Execute.keeps_readOperands (fun _ value index hf => hf.setVSrc value index) _ _
      hy).mask_execute hisa ?_ ?_ (hc.executor ▸ hcsr) (hc.dst0 ▸ hz)
    · rw [← hb.1.1]
      exact congrArg (· == _) hc.operation
    · rw [← hb.1.2]
      exact congrArg (· == _) hc.operation
  unfold outcome
  split
  · rename_i f m hm
    obtain ⟨v, b, rfl, -⟩ := loadStore_instr hm
    exact hexec
  · exact hexec

variable {run}

theorem resultOf_eq_some_iff (hd : d < c) :
    run.resultOf c d = some z ↔ ∃ y, run.InFlight c d y ∧ z = run.outcome d y := by
  unfold resultOf
  constructor
  · intro h
    obtain ⟨y, hy, rfl⟩ := Option.map_eq_some_iff.1 h
    obtain ⟨hs, hcond⟩ := Option.filter_eq_some_iff.1 hy
    obtain ⟨hle, hq⟩ := of_decide_eq_true hcond
    exact ⟨y, ⟨hs, hd, hle, fun v hv hvc => hq v (Nat.lt_succ_of_le hvc) hv⟩, rfl⟩
  · rintro ⟨y, hy, rfl⟩
    refine Option.map_eq_some_iff.2 ⟨y, Option.filter_eq_some_iff.2 ⟨hy.sent, ?_⟩, rfl⟩
    exact decide_eq_true ⟨hy.le, fun v hv hdv => hy.quiet v hdv (Nat.le_of_lt_succ hv)⟩

theorem namesAccumulator_resultOf (hisa : IsSupported run.isa) (hdec : run.DecodesDuring)
    (hc : c ≤ run.length) (hd : d < c) (h : run.resultOf c d = some z) : z.NamesAccumulator := by
  obtain ⟨y, hy, rfl⟩ := (resultOf_eq_some_iff hd).1 h
  exact (run.carried_outcome d y).namesAccumulator
    ((decodes_sent hdec (by omega) hy.sent).accumulator hisa)

/-- What is on its way after an instruction. -/
theorem InFlight.inFlightResults_eq (h : run.InFlight c d y) : ∃ older younger,
    run.inFlightResults c = older ++ run.outcome d y :: younger
      ∧ ∀ z ∈ younger, ∃ d' y', run.InFlight c d' y' ∧ d < d' ∧ z = run.outcome d' y' := by
  have hlt := h.lt
  have hrange : List.range c = List.range' 0 d ++ d :: List.range' (d + 1) (c - (d + 1)) := by
    have hsplit := List.range'_append_1 (s := 0) (m := d) (n := c - d)
    rw [List.range_eq_range', show c = d + (c - d) by omega, ← hsplit, Nat.zero_add,
      show d + (c - d) - (d + 1) = c - d - 1 by omega, show c - d = c - d - 1 + 1 by omega,
      List.range'_succ]
    rfl
  refine ⟨(List.range' 0 d).filterMap (run.resultOf c),
    (List.range' (d + 1) (c - (d + 1))).filterMap (run.resultOf c), ?_, fun z hz => ?_⟩
  · rw [inFlightResults, hrange, List.filterMap_append, List.filterMap_cons,
      (resultOf_eq_some_iff hlt).2 ⟨y, h, rfl⟩]
  · obtain ⟨d', hd', hz⟩ := List.mem_filterMap.1 hz
    have hrange' := List.mem_range'_1.1 hd'
    obtain ⟨y', hy', rfl⟩ := (resultOf_eq_some_iff (by omega)).1 hz
    exact ⟨d', y', hy', by omega, rfl⟩

variable {handled : PerfInstr w → RF w → RF w → Prop} {rf : RF w}

/-- A register is kept by what does not write it and spares it. -/
theorem get_of_writtenBack (hisa : IsSupported run.isa) (hdec : run.DecodesDuring)
    (hc : c ≤ run.length) (hy : run.InFlight c d y) (hw : y.writes num = false)
    (hspares : ∀ rf rf', handled (run.outcome d y) rf rf' → rf.get num = v → rf'.get num = v)
    {rf rf' : RF w} (h : RF.WrittenBack handled (run.outcome d y) rf rf') (hv : rf.get num = v) :
    rf'.get num = v := by
  obtain ⟨rf₁, hwrite, hhandled⟩ := h
  have hacc := namesAccumulator_resultOf hisa hdec hc hy.lt
    ((resultOf_eq_some_iff hy.lt).2 ⟨y, hy, rfl⟩)
  have hkeeps := RF.get_writeDst_of_not_writes hwrite hacc
    (((run.carried_outcome d y).writes num).trans hw)
  exact hspares rf₁ rf' hhandled (hkeeps.trans hv)

/-- A register that nothing on its way writes has its last value already. -/
theorem get_path_of_isInRF (hisa : IsSupported run.isa) (hdec : run.DecodesDuring)
    (hc : c ≤ run.length)
    (hpath : Path (RF.WrittenBack handled) (run.core c).rf (run.inFlightResults c) rf)
    (hspares : run.Spares handled c num)
    (hin : ((run.unit c).getEntry num).currentStage.isInRF) :
    rf.get num = (run.core c).rf.get num := by
  have hnone := (isInRF_iff hc).1 hin
  refine hpath.invariant (P := fun rf' => rf'.get num = (run.core c).rf.get num)
    (fun z hz rf₁ rf₂ h hv => ?_) rfl
  obtain ⟨d, hd, hz⟩ := List.mem_filterMap.1 hz
  obtain ⟨y, hy, rfl⟩ := (resultOf_eq_some_iff (List.mem_range.1 hd)).1 hz
  refine get_of_writtenBack hisa hdec hc hy (hnone d y hy) (fun rf rf' hh hv => ?_) h hv
  exact (hspares d y hy (fun d' y' hy' _ => hnone d' y' hy') rf rf' hh fun _ => hv).trans hv

/-- A register ends with the first result of its producer, if that is all it writes there. -/
theorem Producer.get_path (hisa : IsSupported run.isa) (hdec : run.DecodesDuring)
    (hc : c ≤ run.length)
    (hpath : Path (RF.WrittenBack handled) (run.core c).rf (run.inFlightResults c) rf)
    (hspares : run.Spares handled c num) (hp : run.Producer c d y num)
    (hsecond : y.writesSecond num = false) (hb : y.isBypassible) (hcsr : y.executor ≠ .csrrs) :
    rf.get num = (run.outcome d y).vDst0 := by
  have hcarried := run.carried_outcome d y
  have hfirst : y.writesFirst num := by simpa [FuncInstr.writes, hsecond] using hp.writes
  have hzero : y.dst0.isZero = false := by
    simp only [FuncInstr.writesFirst, Bool.and_eq_true, Bool.not_eq_true'] at hfirst
    exact hfirst.1
  have hacc : (run.outcome d y).getAccumulationType = 0 := by
    simp only [PerfInstr.isBypassible, Bool.and_eq_true, beq_iff_eq] at hb
    rw [← hb.2]
    unfold FuncInstr.getAccumulationType
    rw [hcarried.operation]
  have hmask : (run.outcome d y).mask = allOnes w := by
    have := hp.inFlight.lt
    exact run.mask_outcome hisa (decodes_sent hdec (by omega) hp.inFlight.sent) hb hcsr hzero
  -- something is on its way to the register, so it is spared whatever it holds
  have hspared : ∀ {d' y'}, run.InFlight c d' y' → d ≤ d' → ∀ rf rf',
      handled (run.outcome d' y') rf rf' → rf'.get num = rf.get num := fun hy' hle rf rf' hh =>
    hspares _ _ hy' (fun d'' y'' hy'' hlt => hp.last d'' y'' hy'' (by omega)) rf rf' hh fun hnone =>
      absurd hp.writes (by rw [hnone d y hp.inFlight]; decide)
  obtain ⟨older, younger, hresults, hyounger⟩ := hp.inFlight.inFlightResults_eq
  rw [hresults] at hpath
  refine hpath.establishes (P := fun rf' => rf'.get num = (run.outcome d y).vDst0)
    (fun rf₁ rf₂ hback => ?_) fun z hz rf₁ rf₂ h hv => ?_
  · obtain ⟨rf', hwrite, hh⟩ := hback
    rw [hspared hp.inFlight le_rfl _ _ hh]
    exact RF.get_writeDst_of_writesFirst hwrite hacc hmask ((hcarried.writesFirst num).trans hfirst)
      ((hcarried.writesSecond num).trans hsecond)
  · obtain ⟨d', y', hy', hlt, rfl⟩ := hyounger z hz
    refine get_of_writtenBack hisa hdec hc hy' (hp.last d' y' hy' hlt) (fun rf rf' hh hv => ?_) h hv
    exact (hspared hy' hlt.le rf rf' hh).trans hv

/-- What is let go has a command for each source that is on its way. -/
theorem Producer.command_eq {instr : PerfInstr w} {index : Fin 2} (hc : c ≤ run.length)
    (hstall : (run.unit c).isStall instr = false)
    (hp : run.Producer c d y (instr.getSrc index))
    (hsecond : y.writesSecond (instr.getSrc index) = false) :
    (y.isBypassible = true ∧ y.readyAt run.longAluLatency ≤ c - d - 1)
      ∧ Decode.command (run.unit c) instr index = some
        ⟨y.path.stageAt run.longAluLatency (c - d - 1), run.longAluLatency - 1⟩ := by
  have htracks := (scored hc (instr.getSrc index)).busy d y hp
  have hin : (run.unit c).isInRF instr index = false := by
    unfold DataBypass.isInRF
    rw [htracks.currentStage]
    exact ExecutionPath.isInRF_stageAt run.latency_lt htracks.le
  have hby : (run.unit c).isBypassible instr index = true := by
    simp only [DataBypass.isStall, Bool.or_eq_false_iff, Bool.and_eq_false_imp,
      Bool.not_eq_true', Bool.not_eq_false'] at hstall
    have hboth : ∀ i, (run.unit c).isInRF instr i = false →
        (run.unit c).isBypassible instr i = true :=
      Fin.forall_fin_two.2 ⟨fun h => hstall.1.1 h, fun h => hstall.1.2 h⟩
    exact hboth index hin
  have hflag := (htracks.isBypassible hsecond).symm.trans hby
  have hstage : ((run.unit c).getEntry (instr.getSrc index)).currentStage = _ :=
    htracks.currentStage
  refine ⟨by simpa using hflag, ?_⟩
  rw [Decode.command, hin, hby]
  simp only [Bool.not_false, Bool.and_self, if_true, DataBypass.getBypassCommand, hstage,
    (run.constants_unit hc).1]

theorem vSrc_operands (hisa : IsSupported run.isa) (hdec : run.DecodesDuring) (hc : c < run.length)
    (hsafe : run.BypassesFirst c) (hx : run.sent c = some x) (index : Fin 2)
    (hspares : run.Spares handled c (x.getSrc index))
    (hpath : Path (RF.WrittenBack handled) (run.core c).rf (run.inFlightResults c) rf) :
    (run.operands c x).vSrc index = rf.get (x.getSrc index) := by
  obtain ⟨instr, hg⟩ := run.letsGo hc hx
  have hsrc := hg.carried.getSrc index
  have hcommands : (run.core (c + 1)).fromDecode.commands = Decode.command (run.unit c) instr := by
    rw [hg.out]
  rw [hsrc] at hspares
  rw [operands, vSrc_readOperands, hcommands, hsrc]
  by_cases hon : ∃ d y, run.InFlight c d y ∧ y.writes (instr.getSrc index)
  · obtain ⟨d, y, hy, hw⟩ := hon
    obtain ⟨d, y, hp⟩ := hy.exists_producer hw
    obtain ⟨hsecond, hcsr⟩ := hsafe x index d y hx (hsrc ▸ hp)
    rw [hsrc] at hsecond
    obtain ⟨⟨hb, hready⟩, hcommand⟩ := hp.command_eq hc.le hg.noStall hsecond
    rw [hp.get_path hisa hdec hc.le hpath hspares hsecond hb hcsr,
      ← hp.inFlight.lastData_eq hc hready, hcommand]
    rfl
  · have hin : (run.unit c).isInRF instr index := (isInRF_iff hc.le).2 (by simpa using hon)
    rw [get_path_of_isInRF hisa hdec hc.le hpath hspares hin, ← vSrc_sent hg hin]
    simp [Decode.command, hin]

theorem spares_of_eq (c : ℕ) (num : Register) : run.Spares (fun _ rf rf' => rf' = rf) c num :=
  fun _ _ _ _ _ _ h _ => by rw [h]

/-- Where nothing is done to the registers after an instruction. -/
theorem vSrc_operands_written (hisa : IsSupported run.isa) (hdec : run.DecodesDuring)
    (hc : c < run.length) (hsafe : run.BypassesFirst c) (hx : run.sent c = some x)
    (hrf : run.written c = .ok rf) (index : Fin 2) :
    (run.operands c x).vSrc index = rf.get (x.getSrc index) :=
  vSrc_operands hisa hdec hc hsafe hx index (spares_of_eq c _) (RF.path_of_writeAll hrf)

theorem get_written_of_isInRF (hisa : IsSupported run.isa) (hdec : run.DecodesDuring)
    (hc : c ≤ run.length) (hrf : run.written c = .ok rf)
    (hin : ((run.unit c).getEntry num).currentStage.isInRF) :
    rf.get num = (run.core c).rf.get num :=
  get_path_of_isInRF hisa hdec hc (RF.path_of_writeAll hrf) (spares_of_eq c num) hin

/-- Writeback writes the results of an instruction, and then the kernel and the driver go on. -/
theorem writtenBack_of_writebackInstructionSystem {s t : WritebackState w M K} {cycle : ℕ}
    (h : s.writebackInstructionSystem run.kernel run.isa z cycle = .ok t) :
    RF.WrittenBack run.Handled z s.rf t.rf := by
  obtain ⟨s₁, h₁, h⟩ := bind_eq_ok.1 h
  obtain ⟨⟨handled, s₂⟩, h₂, h⟩ := bind_eq_ok.1 h
  obtain ⟨⟨trap, s₃⟩, h₃, h⟩ := bind_eq_ok.1 h
  cases h
  obtain ⟨rf₁, hwrite, h₁⟩ := bind_eq_ok.1 h₁
  cases h₁
  refine ⟨rf₁, hwrite, _, s₂, s₃, handled, trap, rfl, h₂, h₃, ?_⟩
  split_ifs <;> rfl

theorem Settled.path (h : run.Settled c rf) :
    Path (RF.WrittenBack run.Handled) (run.core c).rf (run.inFlightResults c) rf :=
  Path.mono h fun _ _ _ ⟨_, _, _, hs, hstep, ht⟩ =>
    hs ▸ ht ▸ writtenBack_of_writebackInstructionSystem hstep

theorem settled_of_settle {t : WritebackState w M K} (h : run.settle c = .ok t) :
    run.Settled c t.rf :=
  Path.of_foldlM (fun s : WritebackState w M K => s.rf)
    (fun s _ t hstep => ⟨s, t, (run.core c).currCycle, rfl, hstep, rfl⟩) h

variable (run) in
/-- Without a trap the driver writes no other registers than its own. -/
theorem sparesSources_of_noTrap (hisa : IsSupported run.isa)
    (htrap : ∀ d y, run.InFlight c d y → (run.outcome d y).trap = .noTrap)
    (hnum : ∀ x index, run.sent c = some x → ¬ run.isa.DriverWrites (x.getSrc index)) :
    run.SparesSources c := by
  rintro x index hx d y hy - _ _ ⟨s, u, t, handled, trap, rfl, hkernel, hdriver, rfl⟩ -
  have hno := htrap d y hy
  rw [WritebackState.handleInstruction, if_pos (by rw [hno]; decide)] at hkernel
  cases hkernel
  obtain ⟨result, hr, hdriver⟩ := bind_eq_ok.1 hdriver
  obtain ⟨-, hpc, hagrees⟩ := hisa.driver hno hr
  cases hdriver
  rw [hpc]
  exact hagrees.get _ (hnum x index hx)

/-- Whenever Decode lets an instruction go, its operands are the values that its sources hold once
everything older that has not been flushed has been written back in program order, unless a source
is on its way in a way that the bypassing unit does not know, or what the kernel or the driver do
then changes it. -/
theorem operands_settled (run : CoreRun w M K) (hisa : IsSupported run.isa)
    (hdec : run.DecodesAll) {c : ℕ} (hc : c < run.length) (hsafe : run.BypassesFirst c)
    (hspares : run.SparesSources c) {x : PerfInstr w} (hx : run.sent c = some x) {rf : RF w}
    (hrf : run.Settled c rf) :
    (run.operands c x).vSrc0 = rf.get x.src0 ∧ (run.operands c x).vSrc1 = rf.get x.src1 :=
  have hduring : run.DecodesDuring := fun c _ => hdec c
  ⟨vSrc_operands hisa hduring hc hsafe hx 0 (hspares x 0 hx) hrf.path,
    vSrc_operands hisa hduring hc hsafe hx 1 (hspares x 1 hx) hrf.path⟩

end Settled

end CoreRun

section Example

theorem decodes_marsStream (words : List (BitVec 32)) (c : ℕ) (x : PerfInstr 32)
    (h : marsStream words c = some x) : (Mips.isa .mars).Decodes x.toFuncInstr := by
  obtain ⟨word, -, rfl⟩ := Option.map_eq_some_iff.1 h
  exact ⟨word, .little, BitVec.ofNat 64 (4 * c), _, _, _, rfl⟩

/-- A run of MARS words with a latency of three, with three in `$t1`. -/
def operandsRun (words : List (BitVec 32)) (length : ℕ)
    (hok : ∀ c < length, ((Core.trajectory (.dummy 32 PlainMemory) (Mips.isa .mars)
      (marsStream words) { zeroCore with rf := zeroCore.rf.set (.mips 9) 3#32 } c).clock
        (.dummy 32 PlainMemory) (Mips.isa .mars) (marsStream words c)).isOk) :
    CoreRun 32 PlainMemory Unit :=
  .ofStart (.dummy 32 PlainMemory) (Mips.isa .mars) (marsStream words)
    { zeroCore with rf := zeroCore.rf.set (.mips 9) 3#32 } 3 length
    CoreRun.latency_three_ge CoreRun.latency_three_lt
    ⟨rfl, rfl, rfl, rfl⟩ hok

/-- `addu $t2, $t1, $t1; addu $t3, $t2, $t1`: the sum is taken from Execute's bypass port. -/
def adduRun : CoreRun 32 PlainMemory Unit :=
  operandsRun [0x01295021#32, 0x01495821#32] 3 (by decide +kernel)

theorem operands_settled_addu : ∃ x rf, adduRun.sent 1 = some x ∧ adduRun.Settled 1 rf
    ∧ rf.get (.mips 10) = 6#32 ∧ (adduRun.operands 1 x).vSrc0 = rf.get x.src0
    ∧ (adduRun.operands 1 x).vSrc1 = rf.get x.src1 := by
  have hrun : ∃ x t, adduRun.sent 1 = some x ∧ adduRun.settle 1 = .ok t
      ∧ t.rf.get (.mips 10) = 6#32 := ⟨_, _, rfl, rfl, by decide +kernel⟩
  obtain ⟨x, t, hx, ht, hv⟩ := hrun
  have hfirst : (adduRun.sent 0).all fun y => y.dst1.isZero && y.executor != .csrrs
      && (adduRun.outcome 0 y).trap == .noTrap := by
    decide +kernel
  have honly : ∀ d y, adduRun.InFlight 1 d y → y.dst1.isZero ∧ y.executor ≠ .csrrs
      ∧ (adduRun.outcome d y).trap = .noTrap := by
    intro d y hy
    obtain rfl : d = 0 := by have := hy.lt; omega
    rw [hy.sent] at hfirst
    simpa [and_assoc] using hfirst
  have hsafe : adduRun.BypassesFirst 1 := fun x index d y _ hp => by
    obtain ⟨hzero, hcsr, -⟩ := honly d y hp.inFlight
    exact ⟨by simp [FuncInstr.writesSecond, hzero], hcsr⟩
  have hspares : adduRun.SparesSources 1 := adduRun.sparesSources_of_noTrap (.mips .mars)
    (fun d y hy => (honly d y hy).2.2) fun _ _ _ => not_driverWrites_mips .mars _
  have hsettled := CoreRun.settled_of_settle ht
  exact ⟨x, t.rf, hx, hsettled, hv, adduRun.operands_settled (.mips .mars)
    (decodes_marsStream _) (by decide) hsafe hspares hx hsettled⟩

/-- `mthi $t0; mult $t1, $t1; mfhi $t3` -/
def mfhiRun : CoreRun 32 PlainMemory Unit :=
  operandsRun [0x01000011#32, 0x01290018#32, 0x00005810#32] 5 (by decide +kernel)

/-- The high half of the product is on its way as a second destination, and `mfhi` gets the low
half. -/
theorem not_operands_settled : IsSupported mfhiRun.isa ∧ mfhiRun.DecodesAll ∧ ∃ x rf,
    4 < mfhiRun.length ∧ mfhiRun.sent 4 = some x ∧ mfhiRun.Settled 4 rf
      ∧ (mfhiRun.operands 4 x).vSrc0 = 9#32 ∧ rf.get x.src0 = 0#32 := by
  have hrun : (mfhiRun.sent 4).any fun x => (mfhiRun.operands 4 x).vSrc0 == 9#32
      && (mfhiRun.settle 4).toOption.any fun t => t.rf.get x.src0 == 0#32 := by
    decide +kernel
  obtain ⟨x, hx, hrun⟩ := (Option.any_eq_true _ _).1 hrun
  rw [Bool.and_eq_true, beq_iff_eq] at hrun
  obtain ⟨hoperand, hend⟩ := hrun
  rcases ht : mfhiRun.settle 4 with e | t <;> rw [ht] at hend
  · cases hend
  have hv : t.rf.get x.src0 = 0#32 := beq_iff_eq.1 hend
  exact ⟨.mips .mars, decodes_marsStream _, x, t.rf, by decide, hx,
    CoreRun.settled_of_settle ht, hoperand, hv⟩

end Example

end MiptMips
