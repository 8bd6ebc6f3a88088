import MiptMips.Pipeline.Effects
import MiptMips.Pipeline.Heading
import MiptMips.Pipeline.Prediction
import MiptMips.Simulator.TrapFree

/-!
# The front end

As long as nothing goes wrong, Fetch is headed to the instruction that the functional simulator
executes next, or Decode looks at it already: one lemma for each thing that Decode may do in a
cycle.
-/

namespace MiptMips

open Machines

variable {w : ℕ} {E M K : Type} [BPEntry E] [FuncMemory M]

section Sources

/-- The same instruction with other values of its sources. -/
def FuncInstr.SameButSources (f g : FuncInstr w) : Prop :=
  ∃ v₀ v₁, g = { f with vSrc0 := v₀, vSrc1 := v₁ }

namespace FuncInstr.SameButSources

variable {f g h : FuncInstr w}

theorem refl (f : FuncInstr w) : SameButSources f f := ⟨_, _, rfl⟩

theorem trans (hf : SameButSources f g) (hg : SameButSources g h) : SameButSources f h := by
  obtain ⟨_, _, rfl⟩ := hf
  obtain ⟨v₀, v₁, rfl⟩ := hg
  exact ⟨v₀, v₁, rfl⟩

theorem setVSrc (f : FuncInstr w) (value : BitVec w) (index : Fin 2) :
    SameButSources f (f.setVSrc value index) := by
  unfold FuncInstr.setVSrc
  split_ifs
  · exact ⟨value, f.vSrc1, rfl⟩
  · exact ⟨f.vSrc0, value, rfl⟩

theorem readSource {unit : DataBypass} {rf : RF w} {x y : PerfInstr w} {index : Fin 2}
    (h : Decode.readSource unit rf x index = .ok y) :
    SameButSources x.toFuncInstr y.toFuncInstr := by
  unfold Decode.readSource at h
  split_ifs at h
  · obtain ⟨value, -, h⟩ := bind_eq_ok.1 h
    cases h
    exact .setVSrc _ value index
  · cases h
    exact .refl _

theorem readBypass (data : Execute.BypassData w) (commands : Fin 2 → Option BypassCommand)
    (f : FuncInstr w) (index : Fin 2) :
    SameButSources f (Execute.readBypass data commands f index) := by
  unfold Execute.readBypass
  split
  · exact .setVSrc f _ index
  · exact .refl f

end FuncInstr.SameButSources

variable {run : CoreRun w M K} {c : ℕ} {x y : PerfInstr w}

/-- Decode and Execute change an instruction in its sources alone. -/
theorem CoreRun.sameButSources_operands {unit : DataBypass} {rf : RF w} {input : DecodeIn w}
    {out : DecodeOut w} (h : Decode.LetsGo unit rf input out x y) :
    FuncInstr.SameButSources x.toFuncInstr (run.operands c y) := by
  obtain ⟨first, h₀, h₁⟩ := h.sources
  have hread := (FuncInstr.SameButSources.readSource h₀).trans (.readSource h₁)
  exact hread.trans ((FuncInstr.SameButSources.readBypass _ _ _ 0).trans (.readBypass _ _ _ 1))

end Sources

namespace PerfInstr

/-- Where Fetch goes on behind an instruction, as far as Decode can tell. -/
def goesOnAt (x : PerfInstr w) : Target :=
  if Decode.isMisprediction x.toFuncInstr x.bpData then x.getActualDecodedTarget
  else x.getPredictedTarget

end PerfInstr

namespace FuncRun

variable {isa : ISA w} {arch : FuncRun isa M} {i r : ℕ} {x : PerfInstr w}

section Fetched

/-- The instruction that the functional simulator executes next, with a prediction. -/
structure Fetched (arch : FuncRun isa M) (i : ℕ) (x : PerfInstr w) : Prop where
  instr : x.toFuncInstr
    = { fetchInstr isa (arch.sim i).imem.endian (arch.sim i).mem (arch.sim i).getPC with
        sequenceId := (arch.sim i).sequenceId }
  prediction : x.bpData.Shaped (arch.sim i).getPC

theorem path_of_isJump {f : FuncInstr w} (h : f.isJump) : f.path = .branch := by
  have hl : f.isDivmult = false := by
    rcases hl : f.isDivmult with _ | _
    · rfl
    · unfold FuncInstr.isDivmult FuncInstr.isJump FuncInstr.isDirectJump FuncInstr.isBranch
        FuncInstr.isCommonBranch FuncInstr.isLikelyBranch FuncInstr.isIndirectJump
        FuncInstr.getAccumulationType at *
      cases ho : f.operation <;> rw [ho] at h hl <;> simp at h hl
  simp [FuncInstr.path, hl, h]

theorem Fetched.isJump (h : arch.Fetched i x) :
    ((arch.sim i).current isa).isJump = x.isJump := by
  rw [h.instr]
  rfl

/-- When Branch accepts the prediction too, Fetch goes on at the next instruction. -/
theorem Fetched.goesOnAt (hisa : IsSupported isa) (hi : i < arch.length) (h : arch.Fetched i x)
    (hother : x.isJump = true ∨ x.bpData.target = x.PC + 4#64)
    (hbranch : x.isJump = true →
      Branch.isMisprediction ((arch.sim i).current isa).execute x.bpData = false) :
    x.goesOnAt = arch.target (i + 1) := by
  have hnext := next hisa hi (delayedSlots_eq hisa hi.le)
  obtain ⟨v, complete, hinstr⟩ := FuncSim.loadStore_frame hnext.accessed
  have hid : (arch.instr i).sequenceId = x.sequenceId := by
    obtain ⟨_, _, _, _, _, _, _, hrun⟩ :=
      executed_run (f := (arch.sim i).current isa) ((arch.sim i).current isa).executor
    rw [hinstr, FuncInstr.execute, hrun, h.instr]
    rfl
  have hnew : (arch.instr i).newPC = ((arch.sim i).current isa).execute.newPC := by rw [hinstr]
  have hd : StraightDecoded ((arch.sim i).current isa) :=
    (arch.straight i hi).decoded.withSources _ _ _
  have hPC : ((arch.sim i).current isa).PC = (arch.sim i).getPC := isa.PC_createInstr _ _ _
  have hPC' : x.PC = (arch.sim i).getPC := by
    rw [h.instr]
    exact isa.PC_createInstr _ _ _
  have hshape : x.bpData.Shaped ((arch.sim i).current isa).PC := by
    rw [hPC]
    exact h.prediction
  have htarget : x.target = ((arch.sim i).current isa).target := by
    rw [h.instr]
    rfl
  have hmis : Decode.isMisprediction x.toFuncInstr x.bpData
      = Decode.isMisprediction ((arch.sim i).current isa) x.bpData := by
    rw [h.instr]
    rfl
  rw [PerfInstr.goesOnAt, hmis, hnext.target, hid, hnew]
  rcases hj : x.isJump with _ | _
  · have hn : ((arch.sim i).current isa).isJump = false := h.isJump.trans hj
    rw [if_neg (by rw [decode_accepts_other hn]; decide), PerfInstr.getPredictedTarget,
      hd.newPC_other hn, hPC, ← hPC']
    rcases hother with hf | ht
    · rw [hj] at hf
      cases hf
    · rw [ht]
  · have hn : ((arch.sim i).current isa).isJump = true := h.isJump.trans hj
    split_ifs with hm
    · rw [PerfInstr.getActualDecodedTarget, htarget,
        redirected_jump hd hshape hm (hbranch hj) hn]
    · rw [Bool.not_eq_true] at hm
      rw [PerfInstr.getPredictedTarget, accepted_jump hd hshape hm (hbranch hj) hn]

end Fetched

end FuncRun

namespace PerfRun

variable (run : PerfRun w E M K) {n c i j v : ℕ} {x y z : PerfInstr w} {q : Target}

/-- Both simulators start with the same registers and memory, at the same address. -/
structure StartsLike (arch : FuncRun run.isa M) : Prop where
  core : ∃ k, (run.sim 0).core = Core.setTarget
    { Core.create run.isa run.longAluLatency (arch.sim 0).mem k with rf := (arch.sim 0).rf }
    (arch.target 0)
  fromFetch : (run.sim 0).fromFetch = {}
  endian : (run.sim 0).fetch.memory.endian = (arch.sim 0).imem.endian

section Fetch

variable {run}

theorem fetch_clock (hc : c < run.length) :
    (run.sim (c + 1)).fromFetch
        = ((run.sim c).fetch.clock (run.sim c).core.fetchIn (run.sim c).fromFetch run.isa
          (run.sim c).core.mem).1
      ∧ (run.sim (c + 1)).fetch
        = ((run.sim c).fetch.clock (run.sim c).core.fetchIn (run.sim c).fromFetch run.isa
          (run.sim c).core.mem).2 :=
  Prod.mk.inj (PerfSim.clock_cases (run.step c hc)).1

/-- What comes from Fetch was fetched from memory, in the order of bytes that Fetch started with. -/
theorem fetched_cases (hc : c < run.length) :
    (run.sim (c + 1)).fetch.memory.endian = (run.sim c).fetch.memory.endian
      ∧ ∀ x, (run.sim (c + 1)).fromFetch.datapath = some x → ∃ target, x
        = (run.sim c).fetch.sent (run.sim c).core.fetchIn run.isa (run.sim c).core.mem target := by
  obtain ⟨hports, hfetch⟩ := fetch_clock hc
  rw [hports, hfetch]
  obtain ⟨hcoh, hi | ⟨m, missed, hm⟩⟩ := (run.reachable hc.le).states
  · rcases ht : Fetch.selectTarget (run.sim c).core.fetchIn (run.sim c).fromFetch with _ | target
    · obtain ⟨ho, -, hmem⟩ := hi.clock_bubble _ run.isa (run.sim c).core.mem ht
      refine ⟨by rw [hmem], fun x hx => ?_⟩
      rw [ho] at hx
      cases hx
    · rcases hi.clock_target _ run.isa (run.sim c).core.mem hcoh ht with
        ⟨ho, -, hmem⟩ | ⟨ho, -, -, he⟩
      · refine ⟨by rw [hmem], fun x hx => ?_⟩
        rw [ho] at hx
        cases hx
      · refine ⟨he, fun x hx => ?_⟩
        rw [ho] at hx
        exact ⟨target, (Option.some.inj hx).symm⟩
  · obtain ⟨ho, -, hmem⟩ := (run.sim c).fetch.clock_of_miss (run.sim c).core.fetchIn run.isa
      (run.sim c).core.mem hm.hitOrMiss
    refine ⟨by rw [hmem], fun x hx => ?_⟩
    rw [ho] at hx
    cases hx

theorem endian_fetch : ∀ {c}, c ≤ run.length →
    (run.sim c).fetch.memory.endian = (run.sim 0).fetch.memory.endian
  | 0, _ => rfl
  | _ + 1, hc => (fetched_cases hc).1.trans (endian_fetch (Nat.le_of_succ_le hc))

theorem decodesDuring (h : (run.sim 0).fromFetch = {}) : run.toCoreRun.DecodesDuring := by
  intro c hc x hx
  have hx' : (run.sim c).fromFetch.datapath = some x := hx
  rcases c with _ | c
  · rw [h] at hx'
    cases hx'
  · obtain ⟨target, rfl⟩ := (fetched_cases (Nat.lt_of_succ_lt hc)).2 x hx'
    exact ⟨_, _, _, _, _, _, rfl⟩

end Fetch

section Front

/-- What Decode reads in a cycle. -/
def decodeIn (c : ℕ) : DecodeIn w := (run.sim c).core.decodeIn (run.sim c).fromFetch.datapath

/-- Fetch is headed to a target in a cycle. -/
def Headed (q : Target) (c : ℕ) : Prop :=
  Fetch.Steered q (run.sim c).fetch (run.sim c).core.fetchIn (run.sim c).fromFetch

/-- What Fetch sends when it takes a target in a cycle. -/
def fetchedFrom (q : Target) (c : ℕ) : PerfInstr w :=
  (run.sim c).fetch.sent (run.sim c).core.fetchIn run.isa (run.sim c).core.mem q

/-- The front end in a cycle, when instruction `i` is the next one to be let go: Decode has nothing
to do and Fetch is headed to the instruction, or Decode looks at it and Fetch is headed behind it,
as far as the stages can tell; in the first cycle that is as far as Fetch can tell. -/
inductive Front (arch : FuncRun run.isa M) (c i : ℕ) : Prop
  | idle : (Decode.hasFlush (run.decodeIn c) = true ∨ Decode.readInstr (run.decodeIn c) = none) →
    run.Headed (arch.target i) c → Front arch c i
  | busy (x : PerfInstr w) (q : Target) : Decode.hasFlush (run.decodeIn c) = false →
    Decode.readInstr (run.decodeIn c) = some x → arch.Fetched i x → run.Headed q c →
    (q = x.goesOnAt ∨ (run.decodeIn c).stallDatapath = none ∧ q = x.getPredictedTarget) →
    Front arch c i

variable {run} {arch : FuncRun run.isa M}

/-- In a cycle without a flush, redirects come from Decode. -/
theorem redirect_eq (h : run.toCoreRun.Calm n) (hn : n ≤ run.length) (hv : 2 ≤ v) (hvn : v ≤ n)
    (hf : (run.sim v).core.flush = false) : Fetch.redirect (run.sim v).core.fetchIn
      = (run.sim v).core.fromDecode.flushTarget := by
  have htarget : (run.sim v).core.fromWriteback.target = none := h.target v hv hvn
  have hbranch : (run.sim v).core.backend.fromBranch.flushTarget = none :=
    run.toCoreRun.flushTarget_eq_none (hvn.trans hn) (CoreRun.flushAll_of_flush hf)
  unfold Fetch.redirect Core.fetchIn
  rw [htarget, hbranch]
  rfl

theorem hasFlush_decodeIn (hf : (run.sim c).core.flush = false) :
    Decode.hasFlush (run.decodeIn c) = (run.sim c).core.fromDecode.flushFetch := by
  obtain ⟨hall, htrap⟩ := Bool.or_eq_false_iff.1 hf
  unfold Decode.hasFlush decodeIn Core.decodeIn
  rw [hall, htrap, Bool.false_or, Bool.or_false]

theorem Headed.clock (h : run.Headed q c) (hc : c < run.length) :
    Fetch.Delivers q (run.fetchedFrom q c) (run.sim (c + 1)).fetch (run.sim (c + 1)).fromFetch
      ∨ Fetch.Awaits q (run.sim (c + 1)).fetch (run.sim (c + 1)).fromFetch := by
  obtain ⟨hports, hfetch⟩ := fetch_clock hc
  rw [hports, hfetch]
  exact Fetch.Steered.clock h (run.reachable hc.le).states.1 _

/-- What is fetched at the target of an instruction is the instruction, if the memory is that of an
earlier one. -/
theorem fetched_fetchedFrom (hisa : IsSupported run.isa) (hstart : run.StartsLike arch)
    (hc : c ≤ run.length) (hmem : (run.sim c).core.mem = (arch.sim i).mem) (hij : i ≤ j)
    (hj : j < arch.length) : arch.Fetched j (run.fetchedFrom (arch.target j) c) := by
  have hend : (run.sim c).fetch.memory.endian = (arch.sim j).imem.endian := by
    rw [endian_fetch hc, hstart.endian, FuncRun.endian_eq hisa hj.le]
  refine ⟨?_, BP.shaped_getBpInfo _ _⟩
  unfold fetchedFrom Fetch.sent FuncRun.target fetchInstr
  dsimp only
  rw [hmem, hend, arch.code i j hij hj]
  rfl

section Step

/-- Decode has nothing to do: Fetch goes on to the instruction. -/
theorem front_of_idle (h : run.toCoreRun.Calm n) (hn : n ≤ run.length) (hc : 1 ≤ c)
    (hcn : c + 1 ≤ n) (hf : (run.sim (c + 1)).core.flush = false)
    (hout : (run.sim (c + 1)).core.fromDecode = {}) (hs : run.Headed (arch.target i) c)
    (hz : arch.Fetched i (run.fetchedFrom (arch.target i) c)) : run.Front arch (c + 1) i := by
  have hquiet := redirect_eq h hn (by omega) hcn hf
  have hflush := hasFlush_decodeIn hf
  have hread : Decode.readInstr (run.decodeIn (c + 1)) = (run.sim (c + 1)).fromFetch.datapath := by
    unfold Decode.readInstr decodeIn Core.decodeIn
    rw [hout]
    rfl
  have hstall : (run.sim (c + 1)).core.fetchIn.stall = false := by
    unfold Core.fetchIn
    rw [hout]
  rw [hout] at hquiet hflush
  rcases hs.clock (by omega) with hd | ha
  · refine .busy _ _ hflush ?_ hz (hd.steered hquiet hstall) (.inr ⟨?_, rfl⟩)
    · rw [hread, hd.ports]
    · unfold decodeIn Core.decodeIn
      rw [hout]
  · refine .idle (.inr (hread.trans ha.datapath)) (ha.steered hquiet fun _ hs => ?_)
    rw [hstall] at hs
    cases hs

/-- Decode has looked at an instruction: a redirect comes to where Fetch is to go on, or Fetch is
headed there already. -/
theorem redirect_of_busy (h : run.toCoreRun.Calm n) (hn : n ≤ run.length) (hc : 1 ≤ c)
    (hcn : c + 1 ≤ n) (hf : (run.sim (c + 1)).core.flush = false) {unit : DataBypass}
    (hout : (run.sim (c + 1)).core.fromDecode.flushTarget
      = (Decode.handleMisprediction unit (run.decodeIn c) x).flushTarget)
    (hq : q = x.goesOnAt ∨ (run.decodeIn c).stallDatapath = none ∧ q = x.getPredictedTarget) :
    Fetch.redirect (run.sim (c + 1)).core.fetchIn = some x.goesOnAt
      ∨ Fetch.redirect (run.sim (c + 1)).core.fetchIn = none ∧ q = x.goesOnAt := by
  rw [redirect_eq h hn (by omega) hcn hf, hout]
  unfold Decode.handleMisprediction
  rcases hm : Decode.isMisprediction x.toFuncInstr x.bpData with _ | _
  · refine .inr ⟨rfl, ?_⟩
    rcases hq with hq | ⟨-, hq⟩
    · exact hq
    · rw [hq, PerfInstr.goesOnAt, hm]
      rfl
  · rcases hs : (run.decodeIn c).stallDatapath with _ | held
    · refine .inl ?_
      rw [PerfInstr.goesOnAt, hm]
      rfl
    · refine .inr ⟨rfl, ?_⟩
      rcases hq with hq | ⟨hn, -⟩
      · exact hq
      · rw [hs] at hn
        cases hn

/-- Decode holds the instruction back. -/
theorem front_of_held (h : run.toCoreRun.Calm n) (hn : n ≤ run.length) (hc : 1 ≤ c)
    (hcn : c + 1 ≤ n) (hf : (run.sim (c + 1)).core.flush = false) {unit : DataBypass}
    (hout : Decode.HoldsBack unit (run.decodeIn c) (run.sim (c + 1)).core.fromDecode x)
    (hx : arch.Fetched i x) (hs : run.Headed q c)
    (hq : q = x.goesOnAt ∨ (run.decodeIn c).stallDatapath = none ∧ q = x.getPredictedTarget)
    (hkeep : Fetch.KeepsRedirect (run.sim (c + 1)).core.fetchIn (run.sim (c + 1)).fromFetch) :
    run.Front arch (c + 1) i := by
  have hsignals : (run.sim (c + 1)).core.fromDecode.flushFetch = false
      ∧ (run.sim (c + 1)).core.fetchIn.stall = true
      ∧ (run.decodeIn (c + 1)).stallDatapath = some x := by
    unfold decodeIn Core.decodeIn Core.fetchIn
    rw [hout.out]
    refine ⟨?_, rfl, rfl⟩
    simp only [Decode.handleMisprediction, hout.isStall]
    split_ifs <;> rfl
  obtain ⟨hflush, hstall, hheld⟩ := hsignals
  refine .busy x x.goesOnAt ((hasFlush_decodeIn hf).trans hflush) ?_ hx ?_ (.inl rfl)
  · unfold Decode.readInstr
    rw [hheld, Option.some_or]
  · have hext : (run.sim (c + 1)).core.fetchIn.externalTarget = none :=
      h.target (c + 1) (by omega) hcn
    rcases redirect_of_busy h hn hc hcn hf (by rw [hout.out]) hq with hr | ⟨hquiet, rfl⟩
    · exact Fetch.steered_of_redirect (run.reachable (hcn.trans hn)).states.2 hr (.inl hext)
    · rcases hs.clock (by omega) with hd | ha
      · exact hd.steered_again hquiet hstall
      · exact ha.steered hquiet hkeep

/-- Decode lets the instruction go, and the next one is where Fetch goes on. -/
theorem front_of_sent (h : run.toCoreRun.Calm n) (hn : n ≤ run.length) (hc : 1 ≤ c)
    (hcn : c + 1 ≤ n) (hf : (run.sim (c + 1)).core.flush = false) {unit : DataBypass} {rf : RF w}
    (hout : Decode.LetsGo unit rf (run.decodeIn c) (run.sim (c + 1)).core.fromDecode x y)
    (hs : run.Headed q c)
    (hq : q = x.goesOnAt ∨ (run.decodeIn c).stallDatapath = none ∧ q = x.getPredictedTarget)
    (hnext : x.goesOnAt = arch.target (i + 1))
    (hz : arch.Fetched (i + 1) (run.fetchedFrom (arch.target (i + 1)) c))
    (hdrop : (run.sim (c + 1)).core.fromDecode.flushFetch = true →
      (run.sim (c + 1)).core.fromDecode.flushTarget = none →
      (run.sim (c + 1)).fromFetch.datapath = none) : run.Front arch (c + 1) (i + 1) := by
  have hsignals : (run.decodeIn (c + 1)).stallDatapath = none
      ∧ (run.sim (c + 1)).core.fetchIn.stall = false
      ∧ ((run.sim (c + 1)).core.fromDecode.flushTarget ≠ none →
        (run.sim (c + 1)).core.fromDecode.flushFetch = true) := by
    unfold decodeIn Core.decodeIn Core.fetchIn
    rw [hout.out]
    simp only [Decode.handleMisprediction, hout.noStall]
    split_ifs <;> simp
  obtain ⟨hheld, hstall, hfresh⟩ := hsignals
  have hread : Decode.readInstr (run.decodeIn (c + 1)) = (run.sim (c + 1)).fromFetch.datapath := by
    unfold Decode.readInstr
    rw [hheld, Option.none_or]
    rfl
  have hredirect := redirect_eq h hn (by omega) hcn hf
  have hext : (run.sim (c + 1)).core.fetchIn.externalTarget = none :=
    h.target (c + 1) (by omega) hcn
  rcases redirect_of_busy h hn hc hcn hf (by rw [hout.out]) hq with hr | ⟨hquiet, rfl⟩
  · -- Decode flushes its own input, and Fetch has the target
    refine .idle (.inl ?_) ?_
    · rw [hasFlush_decodeIn hf]
      refine hfresh ?_
      rw [← hredirect, hr]
      exact Option.some_ne_none _
    · rw [← hnext]
      exact Fetch.steered_of_redirect (run.reachable (hcn.trans hn)).states.2 hr (.inl hext)
  · rw [hnext] at hs
    rcases hs.clock (by omega) with hd | ha
    · have hflush : (run.sim (c + 1)).core.fromDecode.flushFetch = false := by
        by_contra hff
        have hnone := hdrop (by simpa using hff) (by rw [← hredirect, hquiet])
        rw [hd.ports] at hnone
        cases hnone
      refine .busy _ _ ((hasFlush_decodeIn hf).trans hflush) ?_ hz (hd.steered hquiet hstall)
        (.inr ⟨hheld, rfl⟩)
      rw [hread, hd.ports]
    · refine .idle (.inr (hread.trans ha.datapath)) (ha.steered hquiet fun _ hs => ?_)
      rw [hstall] at hs
      cases hs

end Step

end Front

end PerfRun

end MiptMips
