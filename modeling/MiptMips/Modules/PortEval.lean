import MiptMips.Modules.PortSim

/-!
# What the modules leave on their ports

Evaluated on what its read ports hold, each module leaves on its write ports what the clock of the
module says.
-/

namespace MiptMips

open Machines PortProg

variable {w : ℕ} {E M K : Type} [BPEntry E] [FuncMemory M]

/-- A signal on a port. -/
def signal (b : Bool) : List Bool := if b then [true] else []

@[simp]
theorem signal_true : signal true = [true] := rfl

@[simp]
theorem signal_false : signal false = [] := rfl

theorem head_signal (b : Bool) : (signal b).head?.any id = b := by cases b <;> rfl

section Branch

namespace Branch

/-- What Branch has written. -/
def outputs (o : BranchOut w) : (p : Wp) → List (MiptMips.Wp.T w (.branch p))
  | .datapath => o.datapath.toList
  | .flushAll => signal o.flushAll
  | .flushTarget => o.flushTarget.toList
  | .bpUpdate => o.bpUpdate.toList
  | .bypass => o.bypass.toList
  | .bypassingUnitFlushNotify => signal o.bypassingUnitFlushNotify

theorem outputs_empty : outputs ({} : BranchOut w) = fun _ => [] := by
  funext p
  cases p <;> rfl

variable {u : (i : Rp) → List (MiptMips.Wp.T w (MiptMips.Rp.writer (.branch i)))}
  {datapath : Option (PerfInstr w)} {flush trap : Bool}

/-- Branch does with its ports what its clock says. -/
theorem ends_clockPorts (hd : u .datapath = datapath.toList)
    (hf : (u .flush).head?.any id = flush) (ht : (u .trap).head?.any id = trap) :
    (clockPorts w).Ends ⟨u, fun _ => []⟩ () (outputs (clock (flush || trap) datapath)) := by
  unfold clockPorts
  refine .bind (eval_ready _ _) ?_
  dsimp only
  rw [hd]
  rcases datapath with _ | instr
  · rw [show clock (flush || trap) none = ({} : BranchOut w) from rfl, outputs_empty]
    exact ends_pure _ _
  show (isFlush w >>= _).Ends _ _ _
  refine .eitherSignal (by decide) fun u₁ hu => ?_
  dsimp only at hu ⊢
  rw [hf, ht]
  rcases flush || trap with _ | _
  · rw [if_neg Bool.false_ne_true]
    refine .bind (eval_get _ ((hu _ (by decide) (by decide)).trans hd)) ?_
    rcases hm : isMisprediction instr.toFuncInstr instr.bpData with _ | _
    all_goals
      simp only [signalMisprediction, hm, Bool.false_eq_true, if_false, if_true]
      refine ⟨_, Prod.ext rfl (congrArg (PortView.mk _) (funext fun p => ?_))⟩
      cases p <;> simp [outputs, clock, hm]
  · rw [if_pos rfl, show clock true (some instr) = ({} : BranchOut w) from rfl, outputs_empty]
    exact ends_pure _ _

end Branch

end Branch

section Mem

namespace Mem

def outputs (o : MemOut w) : (p : Wp) → List (MiptMips.Wp.T w (.mem p))
  | .datapath => o.datapath.toList
  | .bypass => o.bypass.toList

theorem outputs_empty : outputs ({} : MemOut w) = fun _ => [] := by
  funext p
  cases p <;> rfl

variable {u : (i : Rp) → List (MiptMips.Wp.T w (MiptMips.Rp.writer (.mem i)))}
  {datapath : Option (PerfInstr w)} {flush trap : Bool} {mem mem' : M} {out : MemOut w}

theorem ends_clockPorts (hd : u .datapath = datapath.toList)
    (hf : (u .flush).head?.any id = flush) (ht : (u .trap).head?.any id = trap)
    (hs : clock (flush || trap) datapath mem = .ok (out, mem')) :
    (clockPorts w mem).Ends ⟨u, fun _ => []⟩ mem' (outputs out) := by
  unfold clockPorts
  refine .eitherSignal (by decide) fun u₁ hu => ?_
  dsimp only at hu ⊢
  rw [hf, ht]
  unfold clock at hs
  rcases hflush : flush || trap with _ | _
  · rw [hflush, if_neg Bool.false_ne_true] at hs
    rw [if_neg Bool.false_ne_true]
    refine .bind (eval_getIfReady _ _) ?_
    dsimp only
    rw [hu _ (by decide) (by decide), hd]
    rcases datapath with _ | instr
    · cases hs
      rw [outputs_empty]
      exact ends_pure _ _
    · obtain ⟨⟨f, mem''⟩, hload, hs⟩ := bind_eq_ok.1 hs
      cases hs
      show (lift (FuncMemory.loadStore mem instr.toFuncInstr) >>= _).Ends _ _ _
      rw [hload]
      refine ⟨_, Prod.ext rfl (congrArg (PortView.mk _) (funext fun p => ?_))⟩
      cases p <;> simp [outputs]
  · rw [hflush, if_pos rfl] at hs
    rw [if_pos rfl]
    cases hs
    rw [outputs_empty]
    exact ends_pure _ _

end Mem

end Mem

section Decode

namespace Decode

attribute [local instance] FuncInstr.sources_ne_zero

def outputs (o : DecodeOut w) : (p : Wp) → List (MiptMips.Wp.T w (.decode p))
  | .datapath => o.datapath.toList
  | .stallDatapath => o.stallDatapath.toList
  | .stall => signal o.stall
  | .bypassingUnitNotify => o.bypassingUnitNotify.toList
  | .bpUpdate => o.bpUpdate.toList
  | .command index => (o.commands index).toList
  | .flushFetch => signal o.flushFetch
  | .flushTarget => o.flushTarget.toList

theorem outputs_empty : outputs ({} : DecodeOut w) = fun _ => [] := by
  funext p
  cases p <;> rfl

abbrev Unread (w : ℕ) := (i : Rp) → List (MiptMips.Wp.T w (MiptMips.Rp.writer (.decode i)))

/-- What the ports hold for Decode. -/
structure Holds (u : Unread w) (input : DecodeIn w) : Prop where
  datapath : u .datapath = input.datapath.toList
  stallDatapath : u .stallDatapath = input.stallDatapath.toList
  flush : (u .flush).head?.any id = input.flush
  bypassingUnitNotify : u .bypassingUnitNotify = input.bypassingUnitNotify.toList
  bypassingUnitFlushNotify : u .bypassingUnitFlushNotify = signal input.bypassingUnitFlushNotify
  flushFetch : (u .flushFetch).head?.any id = input.flushFetch
  trap : (u .trap).head?.any id = input.trap

variable {u : Unread w} {input : DecodeIn w} {unit unit' : DataBypass} {rf : RF w}
  {out : DecodeOut w} {written : (p : Wp) → List (MiptMips.Wp.T w (.decode p))}
  {instr read : PerfInstr w}

theorem eval_updateUnit (hn : u .bypassingUnitNotify = input.bypassingUnitNotify.toList)
    (hf : u .bypassingUnitFlushNotify = signal input.bypassingUnitFlushNotify) :
    (updateUnit (w := w) unit input.trap).eval ⟨u, written⟩ = (.ok (clockUnit unit input),
      ⟨Function.update u .bypassingUnitNotify [], written⟩) := by
  unfold updateUnit
  rw [eval_bind_ok (eval_getIfReady _ _)]
  dsimp only
  rw [eval_bind_ok (eval_ready _ _), hn]
  simp only [Function.update_of_ne (show Rp.bypassingUnitFlushNotify ≠ .bypassingUnitNotify by
    decide), hf]
  unfold clockUnit
  rcases input.bypassingUnitNotify with _ | notified <;>
    rcases input.bypassingUnitFlushNotify with _ | _ <;> rfl

variable (input written) in
theorem eval_takeInstr (hd : u .datapath = input.datapath.toList)
    (hs : u .stallDatapath = input.stallDatapath.toList) (hr : readInstr input = some instr) :
    ∃ u', (takeInstr w).eval ⟨u, written⟩
      = (.ok (instr, input.stallDatapath.isSome), ⟨u', written⟩) := by
  unfold takeInstr
  unfold readInstr at hr
  rw [eval_bind_ok (eval_ready _ _)]
  simp only [hs]
  rcases hstalled : input.stallDatapath with _ | stalled
  · rw [hstalled, Option.none_or] at hr
    rw [hr] at hd
    exact ⟨_, eval_bind_ok (eval_get _ hd)⟩
  · rw [hstalled] at hr
    cases hr
    rw [hstalled] at hs
    exact ⟨_, eval_bind_ok (eval_get _ hs)⟩

theorem eval_takeSource {index : Fin 2} (h : readSource unit rf instr index = .ok read) :
    (takeSource unit rf instr index).eval ⟨u, written⟩ = (.ok read, ⟨u, Function.update written
      (.command index) (written (.command index) ++ (command unit instr index).toList)⟩) := by
  unfold readSource at h
  unfold takeSource command
  rcases hrf : unit.isInRF instr index with _ | _
  · rw [hrf, if_neg Bool.false_ne_true] at h
    cases h
    rw [if_neg Bool.false_ne_true]
    rcases hb : unit.isBypassible instr index with _ | _
    · simp
    · simp [eval_bind]
  · rw [hrf, if_pos rfl] at h
    obtain ⟨value, hvalue, h⟩ := bind_eq_ok.1 h
    cases h
    rw [if_pos rfl, hvalue]
    simp [eval_bind]

variable (input) in
/-- What is signalled of a misprediction goes to ports of its own. -/
theorem ends_signalMisprediction :
    (signalMisprediction unit instr input.stallDatapath.isSome).Ends ⟨u, fun _ => []⟩ ()
      (outputs (handleMisprediction unit input instr)) := by
  unfold signalMisprediction handleMisprediction
  rcases isMisprediction instr.toFuncInstr instr.bpData with _ | _ <;>
    rcases unit.isStall instr with _ | _ <;> rcases input.stallDatapath with _ | _
  all_goals
    refine ⟨_, Prod.ext rfl (congrArg (PortView.mk _) (funext fun p => ?_))⟩
    cases p <;> simp [outputs]

variable (unit input instr) in
theorem outputs_handleMisprediction (p : Wp) (hb : p ≠ .bpUpdate) (hf : p ≠ .flushFetch)
    (ht : p ≠ .flushTarget) : outputs (handleMisprediction unit input instr) p = [] := by
  unfold handleMisprediction
  split_ifs <;> cases p <;> first | rfl | contradiction

theorem ends_sendInstr_of_stall (hs : unit.isStall instr = true) :
    (sendInstr unit rf instr input.stallDatapath.isSome).Ends ⟨u, fun _ => []⟩ ()
      (outputs { handleMisprediction unit input instr with
        stall := true
        stallDatapath := some instr }) := by
  unfold sendInstr
  refine .bind_ends (ends_signalMisprediction input) fun u => ?_
  rw [if_pos hs]
  refine ⟨_, Prod.ext rfl (congrArg (PortView.mk _) (funext fun p => ?_))⟩
  have hout := outputs_handleMisprediction input unit instr p
  cases p <;> simp_all [outputs]

theorem command_readSource {index : Fin 2} (h : readSource unit rf instr index = .ok read)
    (index' : Fin 2) : command unit read index' = command unit instr index' := by
  unfold readSource at h
  split_ifs at h
  · obtain ⟨value, -, h⟩ := bind_eq_ok.1 h
    cases h
    unfold PerfInstr.withInstr FuncInstr.setVSrc
    split_ifs <;> rfl
  · cases h
    rfl

theorem ends_sendInstr (hs : unit.isStall instr = false) {first : PerfInstr w}
    (h₀ : readSource unit rf instr 0 = .ok first) (h₁ : readSource unit rf first 1 = .ok read) :
    (sendInstr unit rf instr input.stallDatapath.isSome).Ends ⟨u, fun _ => []⟩ ()
      (outputs { handleMisprediction unit input instr with
        commands := command unit instr
        bypassingUnitNotify := some read
        datapath := some read }) := by
  unfold sendInstr
  refine .bind_ends (ends_signalMisprediction input) fun u => ?_
  rw [hs, if_neg Bool.false_ne_true]
  refine .bind (eval_takeSource h₀) (.bind (eval_takeSource h₁) ?_)
  refine ⟨_, Prod.ext rfl (congrArg (PortView.mk _) (funext fun p => ?_))⟩
  have hout := outputs_handleMisprediction input unit instr
  have hcommands : (handleMisprediction unit input instr).commands = fun _ => none := by
    unfold handleMisprediction
    split_ifs <;> rfl
  rw [command_readSource h₀]
  specialize hout p
  rcases p with _ | _ | _ | _ | _ | index | _ | _
  case command =>
    rcases (by omega : index = 0 ∨ index = 1) with rfl | rfl
    · simp [outputs, hcommands]
    · simp [outputs, hcommands]
  all_goals simp_all [outputs]

/-- Decode does with its ports what its clock says. -/
theorem ends_clockPorts (hu : Holds u input) (hs : clock unit rf input = .ok (out, unit')) :
    (clockPorts unit rf).Ends ⟨u, fun _ => []⟩ unit' (outputs out) := by
  have hfirst : (@getSignal _ _ _ (fun o => MiptMips.Wp.T w (.decode o)) Rp.trap id).eval
      ⟨u, fun _ => []⟩
      = (.ok input.trap, ⟨Function.update u .trap (u .trap).tail, fun _ => []⟩) := by
    rw [eval_getSignal, hu.trap]
  unfold clockPorts
  refine .bind hfirst (.eitherSignal (by decide) fun u₁ hu₁ => ?_)
  have hkept : ∀ k, k ≠ .flush → k ≠ .flushFetch → k ≠ .trap → u₁ k = u k := fun k hf hff ht =>
    (hu₁ k hf hff).trans (Function.update_of_ne ht _ _)
  simp only [Function.update_of_ne (show Rp.flush ≠ .trap by decide),
    Function.update_of_ne (show Rp.flushFetch ≠ .trap by decide), hu.flush, hu.flushFetch]
  have hnotify := hkept .bypassingUnitNotify nofun nofun nofun
  have hflushNotify := hkept .bypassingUnitFlushNotify nofun nofun nofun
  refine .bind (eval_updateUnit (hnotify.trans hu.bypassingUnitNotify)
    (hflushNotify.trans hu.bypassingUnitFlushNotify)) ?_
  unfold clock hasFlush at hs
  dsimp only at hs
  rcases hflush : input.flush || input.flushFetch || input.trap with _ | _
  · rw [hflush, if_neg Bool.false_ne_true] at hs
    rw [if_neg Bool.false_ne_true]
    have hd : u₁ .datapath = _ := (hkept .datapath nofun nofun nofun).trans hu.datapath
    have hstalled : u₁ .stallDatapath = _ :=
      (hkept .stallDatapath nofun nofun nofun).trans hu.stallDatapath
    refine .bind (eval_ready _ _) (.bind (eval_ready _ _) ?_)
    simp only [Function.update_of_ne (show Rp.datapath ≠ .bypassingUnitNotify by decide),
      Function.update_of_ne (show Rp.stallDatapath ≠ .bypassingUnitNotify by decide), hd, hstalled]
    rcases hr : readInstr input with _ | instr
    · rw [hr] at hs
      cases hs
      obtain ⟨h₁, h₂⟩ := Option.or_eq_none_iff.1 hr
      rw [h₁, h₂, outputs_empty]
      exact ends_pure _ _
    · rw [hr] at hs
      dsimp only at hs
      rw [if_neg]
      · obtain ⟨u₂, htake⟩ := eval_takeInstr input (fun _ => [])
          (u := Function.update u₁ .bypassingUnitNotify [])
          ((Function.update_of_ne (by decide) _ _).trans hd)
          ((Function.update_of_ne (by decide) _ _).trans hstalled) hr
        refine .bind htake ?_
        split_ifs at hs with hstall
        · cases hs
          refine .bind_ends (ends_sendInstr_of_stall hstall) fun u => ?_
          exact ends_pure _ _
        · rw [Bool.not_eq_true] at hstall
          obtain ⟨first, h₀, hs⟩ := bind_eq_ok.1 hs
          obtain ⟨read, h₁, hs⟩ := bind_eq_ok.1 hs
          cases hs
          refine .bind_ends (ends_sendInstr hstall h₀ h₁) fun u => ?_
          exact ends_pure _ _
      · unfold readInstr at hr
        rcases h₁ : input.stallDatapath with _ | stalled
        · rw [h₁, Option.none_or] at hr
          simp [hr]
        · simp
  · rw [hflush, if_pos rfl] at hs
    cases hs
    rw [if_pos rfl, outputs_empty]
    exact ends_pure _ _

end Decode

end Decode

section Execute

/-- The direction that stands for a bypass port. -/
def BypassSource.direction : BypassSource → ℕ
  | .execute => 0
  | .longArithmetic => 1
  | .mem => 2
  | .writeback => 3
  | .branch => 4

namespace Execute

attribute [local instance] FuncInstr.sources_ne_zero

/-- The state of Execute that is not on its ports. -/
def unit (execute : Execute w) : ExecuteUnit where
  lastExecutionStageLatency := execute.lastExecutionStageLatency
  flushExpirationLatency := execute.flushExpirationLatency

/-- What Execute has written, and sent through the long-latency unit. -/
def outputs (o : ExecuteOut w) (long : Option (PerfInstr w)) :
    (p : Wp) → List (MiptMips.Wp.T w (.execute p))
  | .memDatapath => o.mem.toList
  | .branchDatapath => o.branch.toList
  | .writebackDatapath => o.writeback
  | .longLatencyExecutionUnit => long.toList
  | .bypass => o.bypass.toList
  | .longArithmeticBypass => o.longArithmeticBypass.toList

theorem outputs_empty : outputs ({} : ExecuteOut w) none = fun _ => [] := by
  funext p
  cases p <;> rfl

abbrev Unread (w : ℕ) := (i : Rp) → List (MiptMips.Wp.T w (MiptMips.Rp.writer (.execute i)))

abbrev Written (w : ℕ) := (p : Wp) → List (MiptMips.Wp.T w (.execute p))

/-- The bypass ports of a source hold the data. -/
structure HoldsData (u : Unread w) (data : BypassData w) (index : Fin 2) : Prop where
  execute : u (.data index .execute) = data 0
  longArithmetic : u (.data index .longArithmetic) = data 1
  mem : u (.data index .mem) = data 2
  writeback : u (.data index .writeback) = data 3
  branch : u (.data index .branch) = data 4

variable {u u' : Unread w} {written : Written w} {commands : Fin 2 → Option BypassCommand}
  {data : BypassData w} {index : Fin 2}

theorem HoldsData.congr (h : HoldsData u data index)
    (hu : ∀ source, u' (.data index source) = u (.data index source)) : HoldsData u' data index where
  execute := (hu .execute).trans h.execute
  longArithmetic := (hu .longArithmetic).trans h.longArithmetic
  mem := (hu .mem).trans h.mem
  writeback := (hu .writeback).trans h.writeback
  branch := (hu .branch).trans h.branch

variable (written) in
theorem HoldsData.eval_takeData (h : HoldsData u data index) {direction : ℕ} (hle : direction ≤ 4) :
    ∃ source, (ExecuteUnit.takeData w index direction).eval ⟨u, written⟩
      = (.ok (data direction), ⟨Function.update u (.data index source) [], written⟩) := by
  rcases direction with _ | _ | _ | _ | _ | direction
  · rw [← h.execute]
    exact ⟨.execute, rfl⟩
  · rw [← h.longArithmetic]
    exact ⟨.longArithmetic, rfl⟩
  · rw [← h.mem]
    exact ⟨.mem, rfl⟩
  · rw [← h.writeback]
    exact ⟨.writeback, rfl⟩
  · rw [← h.branch]
    exact ⟨.branch, rfl⟩
  · omega

variable (written) in
/-- Reading one source leaves the ports of the other ones as they are. -/
theorem eval_takeBypass (hc : u (.command index) = (commands index).toList)
    (hle : ∀ command ∈ commands index, command.getBypassDirection ≤ 4)
    (h : HoldsData u data index) (instr : FuncInstr w) :
    ∃ u', (ExecuteUnit.takeBypass instr index).eval ⟨u, written⟩
        = (.ok (readBypass data commands instr index), ⟨u', written⟩)
      ∧ ∀ k, k ≠ .command index → (∀ source, k ≠ .data index source) → u' k = u k := by
  unfold ExecuteUnit.takeBypass readBypass
  rw [eval_bind_ok (eval_getIfReady _ _)]
  dsimp only
  rw [hc]
  rcases hcommand : commands index with _ | command
  · exact ⟨_, rfl, fun k hk _ => Function.update_of_ne hk _ _⟩
  · obtain ⟨source, htake⟩ := HoldsData.eval_takeData written
      (u := Function.update u (.command index) [])
      (h.congr fun source => Function.update_of_ne (by simp) _ _) (hle command hcommand)
    refine ⟨_, eval_bind_ok htake, fun k hk hsource => ?_⟩
    rw [Function.update_of_ne (hsource source), Function.update_of_ne hk]

section Send

variable {long : Option (PerfInstr w)} {results : Option (InstructionOutput w)}

theorem eval_takeLong (hl : u .longLatencyExecutionUnit = long.toList) (hasFlushExpired : Bool) :
    (ExecuteUnit.takeLong hasFlushExpired).eval ⟨u, fun _ => []⟩
      = (.ok (), ⟨Function.update u .longLatencyExecutionUnit [],
        outputs { writeback := (if hasFlushExpired then long else none).toList
                  longArithmeticBypass :=
                    (if hasFlushExpired then long else none).map (·.vDst) } none⟩) := by
  unfold ExecuteUnit.takeLong
  rw [eval_bind_ok (eval_getIfReady _ _)]
  dsimp only
  rw [hl]
  rcases long with _ | instr <;> rcases hasFlushExpired with _ | _
  all_goals
    refine Prod.ext rfl (congrArg (PortView.mk _) (funext fun p => ?_))
    cases p <;> simp [outputs]

theorem ends_send_of_isLongArithmetic {instr : PerfInstr w} (h : instr.isLongArithmetic = true) :
    (ExecuteUnit.send instr).Ends ⟨u, outputs { writeback := long.toList
                                                longArithmeticBypass := results } none⟩ ()
      (outputs { writeback := long.toList, longArithmeticBypass := results } (some instr)) := by
  unfold ExecuteUnit.send
  rw [if_pos h]
  refine ⟨_, Prod.ext rfl (congrArg (PortView.mk _) (funext fun p => ?_))⟩
  cases p <;> simp [outputs]

theorem ends_send {instr : PerfInstr w} (h : instr.isLongArithmetic ≠ true) :
    (ExecuteUnit.send instr).Ends ⟨u, outputs { writeback := long.toList
                                                longArithmeticBypass := results } none⟩ ()
      (outputs { dispatch instr with
        writeback := long.toList ++ (dispatch instr).writeback
        longArithmeticBypass := results } none) := by
  unfold ExecuteUnit.send dispatch
  rw [if_neg h]
  split_ifs
  all_goals
    refine ⟨_, Prod.ext rfl (congrArg (PortView.mk _) (funext fun p => ?_))⟩
    cases p <;> simp [outputs]

variable {datapath : Option (PerfInstr w)}

theorem ends_takeDatapath_none (hd : u .datapath = []) :
    (ExecuteUnit.takeDatapath w).Ends ⟨u, written⟩ () written := by
  unfold ExecuteUnit.takeDatapath
  refine .bind (eval_getIfReady _ _) ?_
  dsimp only
  rw [hd]
  exact ends_pure _ _

theorem ends_takeDatapath {instr : PerfInstr w} (hd : u .datapath = [instr])
    (hc : ∀ index, u (.command index) = (commands index).toList)
    (hle : ∀ index, ∀ command ∈ commands index, command.getBypassDirection ≤ 4)
    (hdata : ∀ index, HoldsData u data index) {out : Written w}
    (hsend : ∀ u, (ExecuteUnit.send (instr.withInstr
      (readOperands data commands instr.toFuncInstr).execute)).Ends ⟨u, written⟩ () out) :
    (ExecuteUnit.takeDatapath w).Ends ⟨u, written⟩ () out := by
  unfold ExecuteUnit.takeDatapath
  refine .bind (eval_getIfReady _ _) ?_
  dsimp only
  rw [hd]
  set u₁ := Function.update u .datapath ([instr] : List (PerfInstr w)).tail with hu₁
  have hu (k : Rp) (hk : k ≠ .datapath) : u₁ k = u k := Function.update_of_ne hk _ _
  obtain ⟨u₂, h₀, hu₂⟩ := eval_takeBypass written
    ((hu (.command 0) (by simp)).trans (hc 0)) (hle 0)
    ((hdata 0).congr fun source => hu (.data 0 source) (by simp)) instr.toFuncInstr
  have hkept (k : Rp) (hk : k ≠ .datapath) (hcommand : k ≠ .command 0)
      (hsource : ∀ source, k ≠ .data 0 source) : u₂ k = u k :=
    (hu₂ k hcommand hsource).trans (hu k hk)
  obtain ⟨u₃, h₁, -⟩ := eval_takeBypass written
    ((hkept (.command 1) (by simp) (by simp) (by simp)).trans (hc 1)) (hle 1)
    ((hdata 1).congr fun source => hkept (.data 1 source) (by simp) (by simp) (by simp))
    (readBypass data commands instr.toFuncInstr 0)
  exact .bind h₀ (.bind h₁ (hsend u₃))

end Send

section Clock

variable {execute execute' : Execute w} {out : ExecuteOut w} {datapath : Option (PerfInstr w)}
  {flush trap : Bool}

/-- Without a flush, what comes out of the long-latency unit is sent first. -/
theorem ends_clock_of_takeDatapath
    (hl : u .longLatencyExecutionUnit = execute.longLatencyExecutionUnit.out.toList)
    (hf : (u .flush).head?.any id = false) (ht : (u .trap).head?.any id = false)
    {long : Option (PerfInstr w)} (hlong : long = if execute.flushExpirationLatency - 1 = 0
      then execute.longLatencyExecutionUnit.out else none)
    (h : ∀ u', (∀ k, k ≠ .flush → k ≠ .trap → k ≠ .longLatencyExecutionUnit → u' k = u k) →
      (ExecuteUnit.takeDatapath w).Ends ⟨u', outputs { writeback := long.toList
                                                       longArithmeticBypass := long.map (·.vDst) }
        none⟩ () written) :
    execute.unit.clock.Ends ⟨u, fun _ => []⟩ { execute.unit with
      flushExpirationLatency := execute.flushExpirationLatency - 1 } written := by
  unfold ExecuteUnit.clock
  refine .eitherSignal (by decide) fun u₁ hu => ?_
  dsimp only at hu ⊢
  rw [hf, ht, Bool.false_or, if_neg Bool.false_ne_true]
  refine .bind (eval_takeLong ((hu _ (by decide) (by decide)).trans hl) _) ?_
  have hexpired : (if decide (execute.unit.flushExpirationLatency - 1 = 0) = true
      then execute.longLatencyExecutionUnit.out else none) = long := by
    rw [hlong]
    exact if_congr decide_eq_true_iff rfl rfl
  rw [hexpired]
  refine .bind_ends (h _ fun k h₁ h₂ h₃ => ?_) fun u => ends_pure _ _
  exact (Function.update_of_ne h₃ _ _).trans (hu k h₁ h₂)

/-- Execute does with its ports what its clock says; what it writes to the port that stands for the
long-latency unit goes into the unit. -/
theorem ends_clock (hd : u .datapath = datapath.toList)
    (hl : u .longLatencyExecutionUnit = execute.longLatencyExecutionUnit.out.toList)
    (hf : (u .flush).head?.any id = flush) (ht : (u .trap).head?.any id = trap)
    (hc : ∀ index, u (.command index) = (commands index).toList)
    (hle : ∀ index, ∀ command ∈ commands index, command.getBypassDirection ≤ 4)
    (hdata : ∀ index, HoldsData u data index)
    (hs : execute.clock (flush || trap) datapath commands data = (out, execute')) :
    ∃ long, execute'.longLatencyExecutionUnit = execute.longLatencyExecutionUnit.shift long
      ∧ execute.unit.clock.Ends ⟨u, fun _ => []⟩ execute'.unit (outputs out long) := by
  unfold clock at hs
  dsimp only at hs
  rcases hflush : flush || trap with _ | _
  · rw [hflush, if_neg Bool.false_ne_true] at hs
    obtain ⟨hf', ht'⟩ := Bool.or_eq_false_iff.1 hflush
    have hf := hf.trans hf'
    have ht := ht.trans ht'
    rcases datapath with _ | instr
    · cases hs
      refine ⟨none, rfl, ends_clock_of_takeDatapath hl hf ht rfl fun u' hu' =>
        ends_takeDatapath_none ?_⟩
      exact (hu' _ (by decide) (by decide) (by decide)).trans hd
    · have hstart (written : Written w) (hsend : ∀ u', (ExecuteUnit.send (instr.withInstr
          (readOperands data commands instr.toFuncInstr).execute)).Ends ⟨u', _⟩ () written) :=
        ends_clock_of_takeDatapath hl hf ht rfl fun u' hu' => ends_takeDatapath
          ((hu' .datapath (by decide) (by decide) (by decide)).trans hd)
          (fun index => (hu' (.command index) (by simp) (by simp) (by simp)).trans (hc index)) hle
          (fun index => (hdata index).congr fun source =>
            hu' (.data index source) (by simp) (by simp) (by simp)) hsend
      dsimp only at hs
      by_cases hlong : (instr.withInstr
          (readOperands data commands instr.toFuncInstr).execute).isLongArithmetic = true
      · rw [if_pos hlong] at hs
        cases hs
        exact ⟨_, rfl, hstart _ fun u' => ends_send_of_isLongArithmetic hlong⟩
      · rw [if_neg hlong] at hs
        cases hs
        exact ⟨_, rfl, hstart _ fun u' => ends_send hlong⟩
  · rw [hflush, if_pos rfl] at hs
    cases hs
    refine ⟨none, rfl, ?_⟩
    unfold ExecuteUnit.clock
    refine .eitherSignal (by decide) fun u₁ hu => ?_
    dsimp only
    rw [hf, ht, hflush, if_pos rfl, outputs_empty]
    exact ends_pure _ _

end Clock

end Execute

end Execute

section Writeback

namespace Writeback

abbrev Unread (w : ℕ) := (i : Rp) → List (MiptMips.Wp.T w (MiptMips.Rp.writer (.writeback i)))

abbrev Written (w : ℕ) := (p : Wp) → List (MiptMips.Wp.T w (.writeback p))

/-- What has been written when the target has been set `n` times, and `m` instructions have been
seen by the driver. -/
structure Wrote (n m : ℕ) (o : WritebackOut w) (l : Written w) : Prop where
  bypass : l .bypass = o.bypass
  halt : (l .halt).head? = o.halt
  halt_length : (l .halt).length = m
  trap : l .trap = List.replicate n true
  trap_eq : o.trap = decide (0 < n)
  target : (l .target).head? = o.target
  target_length : (l .target).length = n

theorem wrote_empty : Wrote 0 0 ({} : WritebackOut w) fun _ => [] :=
  ⟨rfl, rfl, rfl, rfl, rfl, rfl, rfl⟩

variable {n m : ℕ} {o : WritebackOut w} {l : Written w}

theorem Wrote.trap_head (h : Wrote n m o l) : (l .trap).head?.any id = o.trap := by
  rw [h.trap, h.trap_eq]
  cases n <;> rfl

end Writeback

namespace WritebackState

open Writeback

omit [FuncMemory M]

variable {s t r : WritebackState w M K} {instr instr' : PerfInstr w} {cycle k k' m m' : ℕ}
  {u : Writeback.Unread w} {l : Writeback.Written w} {kernel : Kernel w M K} {isa : ISA w}
  {α β : Type} {a : α} {b : β} {trap : Trap}

def retirement (s : WritebackState w M K) : Retirement w M K := ⟨s.unit, s.rf, s.mem, s.kernelState⟩

/-- From what has been written at `s`, a program writes what has been written at `t`; it sets the
target `k` times at most. -/
def WritesAs (p : Retirement.Prog w α) (a : α) (s t : WritebackState w M K) (k m : ℕ) : Prop :=
  ∀ n h u l, Wrote n h s.out l →
    ∃ n' l', n' ≤ n + k ∧ Wrote n' (h + m) t.out l' ∧ p.Ends ⟨u, l⟩ a l'

theorem writesAs_pure (a : α) (s : WritebackState w M K) : WritesAs (pure a) a s s 0 0 :=
  fun n _ _ l h => ⟨n, l, le_rfl, h, ends_pure _ _⟩

theorem WritesAs.bind {p : Retirement.Prog w α} {f : α → Retirement.Prog w β}
    {k'' m'' : ℕ} (hp : WritesAs p a s t k m) (hf : WritesAs (f a) b t r k' m')
    (hk : k + k' ≤ k'') (hm : m + m' = m'') : WritesAs (p >>= f) b s r k'' m'' := by
  subst hm
  intro i h u l hl
  obtain ⟨i', l', hi, hl', u', hends⟩ := hp i h u l hl
  obtain ⟨i'', l'', hi', hl'', hends'⟩ := hf i' (h + m) u' l' hl'
  exact ⟨i'', l'', by omega, Nat.add_assoc h m m' ▸ hl'', .bind hends hends'⟩

theorem WritesAs.mono {p : Retirement.Prog w α} (hp : WritesAs p a s t k m) (hle : k ≤ k') :
    WritesAs p a s t k' m := fun i h u l hl =>
  let ⟨i', l', hi, hl'⟩ := hp i h u l hl
  ⟨i', l', hi.trans (Nat.add_le_add_left hle i), hl'⟩

theorem writesAs_setTarget (s : WritebackState w M K) (value : Target) :
    WritesAs (s.retirement.setTarget value) (s.setTarget value).retirement s (s.setTarget value)
      1 0 := by
  intro n h u l hl
  refine ⟨n + 1, Function.update (Function.update l .trap (l .trap ++ [true])) .target
    (l .target ++ [value]), le_rfl, ?_, u, rfl⟩
  refine ⟨hl.bypass, hl.halt, hl.halt_length, ?_, ?_, ?_, ?_⟩
  · show l .trap ++ [true] = _
    rw [hl.trap, List.replicate_succ']
  · simp [setTarget]
  · show (l .target ++ [value]).head? = _
    rw [List.head?_append, hl.target]
    rfl
  · show (l .target ++ [value]).length = _
    rw [List.length_append, hl.target_length]
    rfl

theorem writesAs_writebackInstruction (hs : s.writebackInstruction instr cycle = .ok t) :
    WritesAs (s.retirement.writebackInstruction instr cycle) t.retirement s t 0 0 := by
  obtain ⟨rf, hrf, hs⟩ := bind_eq_ok.1 hs
  cases hs
  intro n h u l hl
  refine ⟨n, Function.update l .bypass (l .bypass ++ [instr.vDst]), le_rfl, ?_, u, ?_⟩
  · refine ⟨?_, hl.halt, hl.halt_length, hl.trap, hl.trap_eq, hl.target, hl.target_length⟩
    show l .bypass ++ [instr.vDst] = _
    rw [hl.bypass]
  · unfold Retirement.writebackInstruction
    rw [show s.retirement.rf = s.rf from rfl, hrf]
    rfl

theorem writesAs_handleInstruction (hs : s.handleInstruction kernel instr = .ok (instr', t)) :
    WritesAs (lift (s.retirement.handleInstruction kernel instr)) (instr', t.retirement) s t 0 0 := by
  have hretirement : s.retirement.handleInstruction kernel instr = .ok (instr', t.retirement) := by
    unfold handleInstruction at hs
    unfold Retirement.handleInstruction
    split_ifs at hs ⊢
    · cases hs
      rfl
    · obtain ⟨⟨kernelState, rf, mem, trap⟩, hk, hs⟩ := bind_eq_ok.1 hs
      cases hs
      exact bind_eq_ok.2 ⟨_, hk, rfl⟩
  rw [hretirement]
  intro n h u l hl
  rw [(unit_handleInstruction hs).2]
  exact ⟨n, l, le_rfl, hl, ends_pure _ _⟩

theorem writesAs_handleTrap (hs : s.handleTrap isa instr = .ok (trap, t)) :
    WritesAs (s.retirement.handleTrap isa instr) (trap, t.retirement) s t 1 0 := by
  obtain ⟨result, hresult, hs⟩ := bind_eq_ok.1 hs
  cases hs
  unfold Retirement.handleTrap
  rw [show s.retirement.rf = s.rf from rfl, hresult]
  refine .bind (writesAs_pure result s) ?_ (Nat.zero_add 1).le (Nat.zero_add 0)
  dsimp only
  rcases result.pc with _ | pc
  · exact (writesAs_pure _ _).mono (Nat.zero_le 1)
  · have hset := writesAs_setTarget { s with rf := result.rf } ⟨pc, 0#64⟩
    exact .bind hset (writesAs_pure (result.trap, _) _) le_rfl rfl

theorem writesAs_writeHalt (s : WritebackState w M K) (trap : Trap) :
    WritesAs (put Writeback.Wp.halt
      (if s.unit.executedInstrs ≥ s.unit.instrsToRun then .breakpoint else trap)) () s
      (s.writeHalt trap) 0 1 := by
  intro n h u l hl
  refine ⟨n, _, le_rfl, ?_, u, rfl⟩
  refine ⟨hl.bypass, ?_, ?_, hl.trap, hl.trap_eq, hl.target, hl.target_length⟩
  · rw [Function.update_self, List.head?_append, hl.halt]
    rfl
  · rw [Function.update_self, List.length_append, hl.halt_length]
    rfl

theorem writesAs_writebackInstructionSystem
    (hs : s.writebackInstructionSystem kernel isa instr cycle = .ok t) :
    WritesAs (s.retirement.writebackInstructionSystem kernel isa instr cycle) t.retirement s t
      2 1 := by
  obtain ⟨s₁, h₁, hs⟩ := bind_eq_ok.1 hs
  obtain ⟨⟨instr', s₂⟩, h₂, hs⟩ := bind_eq_ok.1 hs
  obtain ⟨⟨resultTrap, s₃⟩, h₃, hs⟩ := bind_eq_ok.1 hs
  cases hs
  unfold Retirement.writebackInstructionSystem
  refine .bind (writesAs_writebackInstruction h₁) (?_ : WritesAs _ _ _ _ 2 1) le_rfl rfl
  refine .bind (writesAs_handleInstruction h₂) (?_ : WritesAs _ _ _ _ 2 1) le_rfl rfl
  refine .bind (writesAs_handleTrap h₃) (?_ : WritesAs _ _ _ _ 1 1) le_rfl rfl
  refine .bind (writesAs_writeHalt s₃ resultTrap) (?_ : WritesAs _ _ _ _ 1 0) le_rfl rfl
  split_ifs
  · exact writesAs_setTarget _ _
  · exact (writesAs_pure _ _).mono (Nat.zero_le 1)

/-- All instructions are written back one after another. -/
theorem writesAs_writebackAll : ∀ {instrs : List (PerfInstr w)} {s : WritebackState w M K},
    instrs.foldlM (fun s instr => s.writebackInstructionSystem kernel isa instr cycle) s = .ok t →
      WritesAs (Retirement.writebackAll kernel isa cycle instrs s.retirement) t.retirement s t
        (2 * instrs.length) instrs.length
  | [], s, hs => by
    cases hs
    exact writesAs_pure _ _
  | instr :: instrs, s, hs => by
    rw [List.foldlM_cons] at hs
    obtain ⟨s', hfirst, hs⟩ := bind_eq_ok.1 hs
    exact .bind (writesAs_writebackInstructionSystem hfirst) (writesAs_writebackAll hs)
      (by simp; omega) (by simp; omega)

theorem writesAs_writebackBubble (hs : s.writebackBubble cycle = .ok t) :
    WritesAs (s.retirement.writebackBubble cycle) t.retirement s t 0 0 := by
  unfold writebackBubble at hs
  unfold Retirement.writebackBubble
  rw [show s.retirement.unit = s.unit from rfl]
  split_ifs at hs ⊢
  cases hs
  exact writesAs_pure _ _

variable {branch mem : Option (PerfInstr w)} {execute : List (PerfInstr w)} {flush : Bool}

theorem eval_readInstructions (hb : u .branchDatapath = branch.toList)
    (hm : u .memDatapath = mem.toList) (he : u .executeDatapath = execute)
    (hone : execute.length ≤ 1) :
    ∃ u', (Retirement.readInstructions w).eval ⟨u, l⟩
      = (.ok (branch.toList ++ mem.toList ++ execute), ⟨u', l⟩) := by
  have hexecute : execute.head?.toList = execute := by
    rcases execute with _ | ⟨x, _ | ⟨y, ys⟩⟩
    · rfl
    · rfl
    · simp at hone
  have hbranch : branch.toList.head? = branch := by cases branch <;> rfl
  have hmem : mem.toList.head? = mem := by cases mem <;> rfl
  unfold Retirement.readInstructions
  rw [eval_bind_ok (eval_getIfReady _ _), eval_bind_ok (eval_getIfReady _ _),
    eval_bind_ok (eval_getIfReady _ _)]
  simp [hb, hm, he, hexecute, hbranch, hmem]

/-- Writeback does with its ports what its clock says. -/
theorem ends_clock (hb : u .branchDatapath = branch.toList) (hm : u .memDatapath = mem.toList)
    (he : u .executeDatapath = execute) (hone : execute.length ≤ 1)
    (ht : (u .trap).head?.any id = flush) {instrs : List (PerfInstr w)}
    (hi : instrs = branch.toList ++ mem.toList ++ execute)
    (hs : s.clock kernel isa flush instrs cycle = .ok t) (hl : Wrote k m s.out l) :
    ∃ k' l', k' ≤ k + 2 * (if flush then [] else instrs).length
      ∧ Wrote k' (m + (if flush then [] else instrs).length) t.out l'
      ∧ (s.retirement.clock kernel isa cycle).Ends ⟨u, l⟩ t.retirement l' := by
  have htrap : (@getSignal _ _ _ (fun o => MiptMips.Wp.T w (.writeback o)) Rp.trap id).eval ⟨u, l⟩
      = (.ok flush, ⟨Function.update u .trap (u .trap).tail, l⟩) := by
    rw [eval_getSignal, ht]
  have hclock : WritesAs (if flush then s.retirement.writebackBubble cycle
      else if instrs = [] then s.retirement.writebackBubble cycle
      else Retirement.writebackAll kernel isa cycle instrs s.retirement) t.retirement s t
      (2 * (if flush then [] else instrs).length) (if flush then [] else instrs).length := by
    unfold clock at hs
    split_ifs at hs ⊢ with hf hn
    · exact writesAs_writebackBubble hs
    · rw [hn]
      exact writesAs_writebackBubble hs
    · exact writesAs_writebackAll hs
  unfold Retirement.clock
  rcases flush with _ | _
  · obtain ⟨u', hread⟩ := eval_readInstructions (u := Function.update u .trap (u .trap).tail)
      (l := l) ((Function.update_of_ne (by decide) _ _).trans hb)
      ((Function.update_of_ne (by decide) _ _).trans hm)
      ((Function.update_of_ne (by decide) _ _).trans he) hone
    obtain ⟨k', l', hk, hl', hends⟩ := hclock k m u' l hl
    refine ⟨k', l', hk, hl', .bind htrap ?_⟩
    rw [if_neg Bool.false_ne_true] at hends ⊢
    rw [← hi] at hread
    exact .bind hread hends
  · obtain ⟨k', l', hk, hl', hends⟩ := hclock k m (Function.update u .trap (u .trap).tail) l hl
    exact ⟨k', l', hk, hl', .bind htrap hends⟩

end WritebackState

end Writeback

section Fetch

namespace Fetch

omit [FuncMemory M]

/-- The state of Fetch that is not on its ports. -/
def unit (fetch : Fetch w E) : FetchUnit w E where
  config := fetch.config
  bp := fetch.bp
  tags := fetch.tags
  memory := fetch.memory
  isWrongPath := fetch.isWrongPath

/-- What Fetch has written, and sent on its way to wait for the cache. -/
def outputs (o : FetchOut w) (long : Option Target) : (p : Wp) → List (MiptMips.Wp.T w (.fetch p))
  | .datapath => o.datapath.toList
  | .holdPC => o.holdPC.toList
  | .target => o.target.toList
  | .longLatencyPCHolder => long.toList
  | .hitOrMiss => if o.hitOrMiss then [false] else []

theorem outputs_empty : outputs ({} : FetchOut w) none = fun _ => [] := by
  funext p
  cases p <;> rfl

abbrev Unread (w : ℕ) := (i : Rp) → List (MiptMips.Wp.T w (MiptMips.Rp.writer (.fetch i)))

/-- What the ports hold for Fetch. -/
structure Holds (u : Unread w) (input : FetchIn) (ports : FetchOut w) (fetch : Fetch w E) :
    Prop where
  stall : (u .stall).head?.any id = input.stall
  externalTarget : (u .externalTarget).head? = input.externalTarget
  flushTarget : u .flushTarget = input.flushTarget.toList
  flushTargetFromDecode : u .flushTargetFromDecode = input.flushTargetFromDecode.toList
  bpUpdate : u .bpUpdate = input.bpUpdate.toList
  bpUpdateFromDecode : u .bpUpdateFromDecode = input.bpUpdateFromDecode.toList
  target : u .target = ports.target.toList
  holdPC : u .holdPC = ports.holdPC.toList
  hitOrMiss : u .hitOrMiss = if ports.hitOrMiss then [false] else []
  longLatencyPCHolder : u .longLatencyPCHolder = fetch.longLatencyPCHolder.out.toList

variable {u u' : Unread w} {input : FetchIn} {ports : FetchOut w} {fetch fetch' : Fetch w E}
  {written : (p : Wp) → List (MiptMips.Wp.T w (.fetch p))}

variable (written) in
/-- Only the ports of the predictor are read for it. -/
theorem eval_clockBp (hu : Holds u input ports fetch) :
    ∃ u', fetch.unit.clockBp.eval ⟨u, written⟩ = (.ok (fetch.clockBp input).unit, ⟨u', written⟩)
      ∧ Holds u' { input with bpUpdate := none, bpUpdateFromDecode := none } ports
        (fetch.clockBp input) := by
  refine ⟨Function.update (Function.update u .bpUpdate []) .bpUpdateFromDecode [], ?_, ?_⟩
  · unfold FetchUnit.clockBp
    rw [eval_bind_ok (eval_getIfReady _ _), eval_bind_ok (eval_getIfReady _ _)]
    simp only [Function.update_of_ne (show Rp.bpUpdateFromDecode ≠ .bpUpdate by decide),
      hu.bpUpdate, hu.bpUpdateFromDecode]
    rcases hupd : input.bpUpdate with _ | upd <;>
      rcases hdecode : input.bpUpdateFromDecode with _ | updDecode <;>
      simp [clockBp, unit, hupd, hdecode]
  · constructor <;> simp [hu.stall, hu.externalTarget, hu.flushTarget, hu.flushTargetFromDecode,
      hu.target, hu.holdPC, hu.hitOrMiss, hu.longLatencyPCHolder, clockBp]

omit [BPEntry E] in
/-- The target that is saved is the one that is read. -/
theorem eval_saveFlush (hu : Holds u input ports fetch) :
    ∃ u', (FetchUnit.saveFlush w).eval ⟨u, fun _ => []⟩
        = (.ok (), ⟨u', outputs { target := saveFlush input ports } none⟩)
      ∧ u' .longLatencyPCHolder = u .longLatencyPCHolder := by
  have hsaved (t : Target) : Function.update (fun _ => []) .target ([] ++ [t])
      = outputs ({ target := some t } : FetchOut w) none := by
    funext p
    cases p <;> rfl
  unfold FetchUnit.saveFlush saveFlush
  rw [eval_ite_ready, eval_ite_ready, eval_ite_ready, eval_ite_ready]
  simp only [hu.flushTarget, hu.flushTargetFromDecode, hu.target, ← hu.externalTarget]
  rcases input.flushTarget with _ | t
  · rcases input.flushTargetFromDecode with _ | t
    · rcases ports.target with _ | t
      · rcases u .externalTarget with _ | ⟨t, l⟩
        · exact ⟨u, congrArg (fun written => (_, PortView.mk u written)) outputs_empty.symm, rfl⟩
        · refine ⟨Function.update u .externalTarget l, ?_, Function.update_of_ne (by decide) _ _⟩
          exact congrArg (fun written => (_, PortView.mk _ written)) (hsaved t)
      · refine ⟨Function.update u .target [], ?_, Function.update_of_ne (by decide) _ _⟩
        exact congrArg (fun written => (_, PortView.mk _ written)) (hsaved t)
    · refine ⟨Function.update u .flushTargetFromDecode [], ?_,
        Function.update_of_ne (by decide) _ _⟩
      exact congrArg (fun written => (_, PortView.mk _ written)) (hsaved t)
  · refine ⟨Function.update u .flushTarget [], ?_, Function.update_of_ne (by decide) _ _⟩
    exact congrArg (fun written => (_, PortView.mk _ written)) (hsaved t)

omit [BPEntry E] in
theorem multiplex_unit : fetch.unit.multiplex input.stall input.externalTarget input.flushTarget
      input.flushTargetFromDecode ports.target ports.holdPC
    = ((fetch.getTarget input ports).1, (fetch.getTarget input ports).2.unit) := by
  unfold FetchUnit.multiplex getTarget selectTarget takesDecodeTarget
  by_cases hw : fetch.config.prefetchMethod = .wrongPath
  all_goals
    rcases input.externalTarget with _ | external
    · rcases input.flushTarget with _ | flushed
      · rcases input.flushTargetFromDecode with _ | fromDecode <;> simp [hw, unit]
        all_goals rfl
      · simp [hw, unit]
    · simp [hw, unit]

omit [BPEntry E] in
variable (written) in
theorem eval_getTarget (hu : Holds u input ports fetch) :
    ∃ u', fetch.unit.getTarget.eval ⟨u, written⟩
      = (.ok ((fetch.getTarget input ports).1, (fetch.getTarget input ports).2.unit),
        ⟨u', written⟩) := by
  have hhead {α : Type} (o : Option α) : o.toList.head? = o := by cases o <;> rfl
  unfold FetchUnit.getTarget
  rw [eval_bind_ok (eval_getSignal _ _ _), eval_bind_ok (eval_getIfReady _ _),
    eval_bind_ok (eval_getIfReady _ _), eval_bind_ok (eval_getIfReady _ _),
    eval_bind_ok (eval_getIfReady _ _), eval_bind_ok (eval_getIfReady _ _), ← multiplex_unit]
  simp [hu.stall, hu.externalTarget, hu.flushTarget, hu.flushTargetFromDecode, hu.target,
    hu.holdPC, hhead]

omit [BPEntry E] in
/-- A miss: the address that comes out of the long port is held. -/
theorem ends_clockInstrCache (target : Option Target)
    (hl : u .longLatencyPCHolder = fetch.longLatencyPCHolder.out.toList) :
    (FetchUnit.clockInstrCache fetch.unit).Ends ⟨u, outputs { target } none⟩
      fetch.clockInstrCache.2.unit (outputs { fetch.clockInstrCache.1 with target } none) := by
  unfold FetchUnit.clockInstrCache clockInstrCache
  refine .bind (eval_ready _ _) ?_
  simp only [hl]
  rcases hout : fetch.longLatencyPCHolder.out with _ | held
  · refine ⟨_, Prod.ext rfl (congrArg (PortView.mk _) (funext fun p => ?_))⟩
    cases p <;> simp [outputs]
  · rw [hout] at hl
    refine .bind (eval_get _ hl) ?_
    refine ⟨_, Prod.ext rfl (congrArg (PortView.mk _) (funext fun p => ?_))⟩
    cases p <;> simp [outputs]

omit [BPEntry E] in
theorem longLatencyPCHolder_getTarget (fetch : Fetch w E) (input : FetchIn) (ports : FetchOut w) :
    (fetch.getTarget input ports).2.longLatencyPCHolder = fetch.longLatencyPCHolder := by
  unfold getTarget
  dsimp only
  split_ifs
  · split <;> rfl
  · rfl

omit [BPEntry E] in
/-- A target that is looked up is taken in a hit, and sent on in a miss. -/
theorem ends_lookupTarget (fetch : Fetch w E) (target : Target) {hit : Bool} {tags : CacheTagArray}
    (hlookup : fetch.tags.lookup target.address = (hit, tags)) :
    (fetch.unit.lookupTarget target).Ends ⟨u, fun _ => []⟩
      (if hit then some target else none, { fetch with tags }.unit)
      (outputs { hitOrMiss := !hit } (if hit then none else some target)) := by
  unfold FetchUnit.lookupTarget
  rw [show fetch.unit.tags = fetch.tags from rfl, hlookup]
  cases hit with
  | false =>
    refine ⟨_, Prod.ext rfl (congrArg (PortView.mk _) (funext fun p => ?_))⟩
    cases p <;> simp [outputs]
  | true =>
    show (pure _ : FetchUnit.Prog w _).Ends _ _ (outputs {} none)
    rw [outputs_empty]
    exact ends_pure _ _

omit [BPEntry E] in
/-- What is written on the way to a target, and the target itself when it is in the cache. -/
theorem ends_getCachedTarget (hu : Holds u input ports fetch) {target : Option Target}
    {out : FetchOut w} (hs : fetch.getCachedTarget input ports = (target, out, fetch')) :
    ∃ long, fetch'.longLatencyPCHolder = fetch.longLatencyPCHolder.shift long
      ∧ fetch.unit.getCachedTarget.Ends ⟨u, fun _ => []⟩ (target, fetch'.unit) (outputs out long)
      ∧ (target.isSome → out = {} ∧ long = none) := by
  unfold getCachedTarget at hs
  rcases hmiss : ports.hitOrMiss with _ | _
  · rw [hmiss, if_neg Bool.false_ne_true] at hs
    obtain ⟨u', hget⟩ := eval_getTarget (fun _ => []) hu
    have hline := longLatencyPCHolder_getTarget fetch input ports
    unfold FetchUnit.getCachedTarget
    rcases hpair : fetch.getTarget input ports with ⟨_ | t, fetch₁⟩
    · rw [hpair] at hs hline hget
      cases hs
      refine ⟨none, congrArg (DelayLine.shift · none) hline, .bind (eval_ready _ _) ?_, nofun⟩
      simp only [hu.hitOrMiss, hmiss]
      rw [outputs_empty]
      exact .bind hget (ends_pure _ _)
    · rw [hpair] at hs hline hget
      dsimp only at hs hline
      have hstart {result : Option Target × FetchUnit w E}
          {written : (p : Wp) → List (MiptMips.Wp.T w (.fetch p))}
          (h : (fetch₁.unit.lookupTarget t).Ends ⟨u', fun _ => []⟩ result written) :
          fetch.unit.getCachedTarget.Ends ⟨u, fun _ => []⟩ result written := by
        refine .bind (eval_ready _ _) ?_
        simp only [hu.hitOrMiss, hmiss]
        exact .bind hget h
      rcases hlookup : fetch₁.tags.lookup t.address with ⟨hit, tags⟩
      have hends := hstart (ends_lookupTarget fetch₁ t hlookup)
      rw [hlookup] at hs
      cases hit with
      | false =>
        cases hs
        exact ⟨some t, congrArg (DelayLine.shift · (some t)) hline, hends, nofun⟩
      | true =>
        cases hs
        exact ⟨none, congrArg (DelayLine.shift · none) hline, hends, fun _ => ⟨rfl, rfl⟩⟩
  · rw [hmiss, if_pos rfl] at hs
    obtain ⟨u', hsave, hl⟩ := eval_saveFlush hu
    have hcache := ends_clockInstrCache (saveFlush input ports)
      (hl.trans hu.longLatencyPCHolder)
    cases hs
    refine ⟨none, ?_, ?_, nofun⟩
    · show (fetch.clockInstrCache.2.shiftHolder none).longLatencyPCHolder = _
      unfold clockInstrCache
      split <;> rfl
    · unfold FetchUnit.getCachedTarget
      refine .bind (eval_ready _ _) ?_
      simp only [hu.hitOrMiss, hmiss]
      exact .bind hsave (.bind_ends hcache fun u => ends_pure _ _)

omit [BPEntry E] in
theorem unit_prefetchNextLine (fetch : Fetch w E) (addr : Addr) :
    (fetch.prefetchNextLine addr).unit = fetch.unit.prefetchNextLine addr
      ∧ (fetch.prefetchNextLine addr).longLatencyPCHolder = fetch.longLatencyPCHolder := by
  unfold prefetchNextLine FetchUnit.prefetchNextLine
  dsimp only
  by_cases h : (fetch.config.lineSize - fetch.config.fetchaheadSize).setWidth 64
      ≤ fetch.lineOffset addr
  · rw [if_pos h]
    exact ⟨(if_pos h).symm, rfl⟩
  · rw [if_neg h]
    exact ⟨(if_neg h).symm, rfl⟩

variable [FuncMemory M] {isa : ISA w} {mem : M} {out : FetchOut w}

theorem unit_fetchTarget (fetch : Fetch w E) (isa : ISA w) (mem : M) (target : Target) :
    fetch.unit.fetchTarget isa mem target
      = ((fetch.fetchTarget isa mem target).1, (fetch.fetchTarget isa mem target).2.unit) := rfl

/-- Fetch does with its ports what its clock says; what it writes to the long port goes into the
line. -/
theorem ends_clock (hu : Holds u input ports fetch)
    (hs : fetch.clock input ports isa mem = (out, fetch')) :
    ∃ long, fetch'.longLatencyPCHolder = fetch.longLatencyPCHolder.shift long
      ∧ (fetch.unit.clock isa mem).Ends ⟨u, fun _ => []⟩ fetch'.unit (outputs out long) := by
  obtain ⟨u', hbp, hu'⟩ := eval_clockBp (fun _ => []) hu
  unfold clock at hs
  dsimp only at hs
  rcases hget : (fetch.clockBp input).getCachedTarget input ports with ⟨target, out₁, fetch₁⟩
  rw [hget] at hs
  obtain ⟨long, hline, hends, hnone⟩ := ends_getCachedTarget hu' hget
  rcases target with _ | target
  · cases hs
    exact ⟨long, hline, .bind hbp (.bind_ends hends fun u => ends_pure _ _)⟩
  · obtain ⟨rfl, rfl⟩ := hnone rfl
    rw [outputs_empty] at hends
    obtain ⟨hnext, hnextLine⟩ :=
      unit_prefetchNextLine (fetch₁.fetchTarget isa mem target).2 target.address
    have hsend (u) : (fetch₁.unit.sendTarget isa mem target).Ends ⟨u, fun _ => []⟩
        (if (fetch₁.fetchTarget isa mem target).2.config.prefetchMethod ≠ .noPrefetch
            ∧ !(fetch₁.fetchTarget isa mem target).2.isWrongPath then
          (fetch₁.fetchTarget isa mem target).2.unit.prefetchNextLine target.address
        else (fetch₁.fetchTarget isa mem target).2.unit)
        (outputs { holdPC := some target
                   target := some (fetch₁.fetchTarget isa mem target).1.getPredictedTarget
                   datapath := some (fetch₁.fetchTarget isa mem target).1 } none) := by
      unfold FetchUnit.sendTarget
      rw [unit_fetchTarget]
      refine ⟨u, Prod.ext rfl (congrArg (PortView.mk _) (funext fun p => ?_))⟩
      cases p <;> simp [outputs]
    refine ⟨none, ?_, .bind hbp (.bind_ends hends fun u => ?_)⟩
    · cases hs
      split_ifs
      · exact hnextLine.trans hline
      · exact hline
    · cases hs
      have hsent := hsend u
      split_ifs at hsent ⊢ with h
      · rw [hnext]
        exact hsent
      · exact hsent

end Fetch

end Fetch

end MiptMips
