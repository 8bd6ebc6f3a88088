import MiptMips.Modules.PortTable

/-!
# The modules, port by port

What each module does with its ports in a cycle, in the order in which it does it. The state of a
module is what is not on its ports: the instructions in the long-latency unit and the addresses that
wait for the cache are values on their way.
-/

namespace MiptMips

open Machines PortProg

variable {w : ℕ} {E M K : Type} [BPEntry E] [FuncMemory M]

section Fetch

/-- Fetch without what is on its ports. -/
structure FetchUnit (w : ℕ) (E : Type) where
  config : FetchConfig
  bp : BP E
  tags : CacheTagArray
  memory : InstrMemoryCached w
  isWrongPath : Bool := false

namespace FetchUnit

abbrev Prog (w : ℕ) := PortProg (fun i => Wp.T w (Rp.writer (.fetch i))) fun o => Wp.T w (.fetch o)

variable (fetch : FetchUnit w E)

def prefetch (addr : Addr) : FetchUnit w E :=
  let (hit, tags) := fetch.tags.lookup addr
  { fetch with tags := if hit then tags else (tags.write addr).2 }

def prefetchNextLine (requested : Addr) : FetchUnit w E :=
  let lineBits := fetch.config.lineSize.ctz.toNat
  let offset := requested &&& bitmask 64 lineBits
  let distance := fetch.config.lineSize - fetch.config.fetchaheadSize
  if distance.setWidth 64 ≤ offset then
    fetch.prefetch (requested + fetch.config.lineSize.setWidth 64)
  else fetch

/-- The multiplexing of `get_target`. -/
def multiplex (isStall : Bool) (external flushed fromDecode branch hold : Option Target) :
    Option Target × FetchUnit w E :=
  let wrongPath : Bool := fetch.config.prefetchMethod = .wrongPath
  let fetch := if wrongPath then { fetch with isWrongPath := false } else fetch
  match external with
  | some target => (some target, fetch)
  | none => match flushed with
    | some target => (some target, fetch)
    | none => match fromDecode with
      | some target =>
        (some target,
          if wrongPath then { fetch with isWrongPath := true }.prefetch target.address else fetch)
      | none => ((if isStall then none else branch).or hold, fetch)

def getTarget : Prog w (Option Target × FetchUnit w E) := do
  let isStall ← getSignal Fetch.Rp.stall id
  let external ← getIfReady Fetch.Rp.externalTarget
  let hold ← getIfReady Fetch.Rp.holdPC
  let flushed ← getIfReady Fetch.Rp.flushTarget
  let fromDecode ← getIfReady Fetch.Rp.flushTargetFromDecode
  let branch ← getIfReady Fetch.Rp.target
  return fetch.multiplex isStall external flushed fromDecode branch hold

def clockBp : Prog w (FetchUnit w E) := do
  let update ← getIfReady Fetch.Rp.bpUpdate
  let updateFromDecode ← getIfReady Fetch.Rp.bpUpdateFromDecode
  let bp := match update with
    | some upd => fetch.bp.update upd
    | none => fetch.bp
  return { fetch with
    bp := match updateFromDecode with
      | some upd => bp.update upd
      | none => bp }

def clockInstrCache : Prog w (FetchUnit w E) := do
  if ← ready Fetch.Rp.longLatencyPCHolder then
    let target ← get Fetch.Rp.longLatencyPCHolder
    put Fetch.Wp.holdPC target
    return { fetch with tags := (fetch.tags.write target.address).2 }
  else
    put Fetch.Wp.hitOrMiss false
    return fetch

def saveFlush (w : ℕ) : Prog w Unit := do
  if ← ready Fetch.Rp.flushTarget then
    put Fetch.Wp.target (← get Fetch.Rp.flushTarget)
  else if ← ready Fetch.Rp.flushTargetFromDecode then
    put Fetch.Wp.target (← get Fetch.Rp.flushTargetFromDecode)
  else if ← ready Fetch.Rp.target then
    put Fetch.Wp.target (← get Fetch.Rp.target)
  else if ← ready Fetch.Rp.externalTarget then
    put Fetch.Wp.target (← get Fetch.Rp.externalTarget)
  else return ()

/-- The lookup of a target; one that is not in the cache is sent on its way. -/
def lookupTarget (target : Target) : Prog w (Option Target × FetchUnit w E) := do
  let (hit, tags) := fetch.tags.lookup target.address
  let fetch := { fetch with tags }
  if hit then return (some target, fetch)
  else
    put Fetch.Wp.hitOrMiss hit
    put Fetch.Wp.longLatencyPCHolder target
    return (none, fetch)

def getCachedTarget : Prog w (Option Target × FetchUnit w E) := do
  if ← ready Fetch.Rp.hitOrMiss then
    saveFlush w
    let fetch ← clockInstrCache fetch
    return (none, fetch)
  else
    let (target, fetch) ← fetch.getTarget
    match target with
    | none => return (none, fetch)
    | some target => fetch.lookupTarget target

variable (isa : ISA w) (mem : M)

def fetchTarget (target : Target) : PerfInstr w × FetchUnit w E :=
  let bpInfo := fetch.bp.getBpInfo target.address
  let (instr, memory) := fetch.memory.fetchInstr isa mem target.address
  ({ instr.setSequenceId target.sequenceId with bpData := bpInfo }, { fetch with memory })

/-- What is sent for a target that is in the cache. -/
def sendTarget (target : Target) : Prog w (FetchUnit w E) := do
  put Fetch.Wp.holdPC target
  let (instr, fetch) := fetch.fetchTarget isa mem target
  put Fetch.Wp.target instr.getPredictedTarget
  put Fetch.Wp.datapath instr
  return if fetch.config.prefetchMethod ≠ .noPrefetch ∧ !fetch.isWrongPath then
    fetch.prefetchNextLine target.address else fetch

def clock : Prog w (FetchUnit w E) := do
  let fetch ← fetch.clockBp
  let (target, fetch) ← fetch.getCachedTarget
  match target with
  | none => return fetch
  | some target => fetch.sendTarget isa mem target

end FetchUnit

end Fetch

section Decode

namespace Decode

abbrev Prog (w : ℕ) :=
  PortProg (fun i => Wp.T w (Rp.writer (.decode i))) fun o => Wp.T w (.decode o)

attribute [local instance] FuncInstr.sources_ne_zero

def isFlush (w : ℕ) : Prog w Bool := eitherSignal Rp.flush Rp.flushFetch id id

/-- The instruction, and whether it was held back. -/
def takeInstr (w : ℕ) : Prog w (PerfInstr w × Bool) := do
  if ← ready Rp.stallDatapath then
    let instr ← get Rp.stallDatapath
    return (instr, true)
  else
    let instr ← get Rp.datapath
    return (instr, false)

variable (unit : DataBypass) (rf : RF w)

def signalMisprediction (instr : PerfInstr w) (fromStall : Bool) : Prog w Unit := do
  if isMisprediction instr.toFuncInstr instr.bpData then
    put Wp.bpUpdate instr.getBpUpd
    if unit.isStall instr then pure () else put Wp.flushFetch true
    if fromStall then pure () else put Wp.flushTarget instr.getActualDecodedTarget
  else return ()

/-- A source is read, or where to get it is sent to Execute. -/
def takeSource (instr : PerfInstr w) (index : Fin 2) : Prog w (PerfInstr w) := do
  if unit.isInRF instr index then
    let value ← lift (rf.read (instr.getSrc index))
    return instr.withInstr (instr.setVSrc value index)
  else if unit.isBypassible instr index then
    put (Wp.command index) (unit.getBypassCommand instr index)
    return instr
  else return instr

/-- What is done with an instruction. -/
def sendInstr (instr : PerfInstr w) (fromStall : Bool) : Prog w Unit := do
  signalMisprediction unit instr fromStall
  if unit.isStall instr then
    put Wp.stall true
    put Wp.stallDatapath instr
  else
    let instr ← takeSource unit rf instr 0
    let instr ← takeSource unit rf instr 1
    put Wp.bypassingUnitNotify instr
    put Wp.datapath instr

/-- The bypassing unit is told what has happened. -/
def updateUnit (hasTrap : Bool) : Prog w DataBypass := do
  let notify ← getIfReady Rp.bypassingUnitNotify
  let unit := match notify with
    | some instr => unit.update.traceNewInstr instr
    | none => unit.update
  let flushNotify ← ready Rp.bypassingUnitFlushNotify
  return if flushNotify || hasTrap then unit.handleFlush else unit

def clockPorts : Prog w DataBypass := do
  let hasTrap ← getSignal Rp.trap id
  let hasFlush ← isFlush w
  let unit ← updateUnit unit hasTrap
  if hasFlush || hasTrap then return unit
  else
    let arrived ← ready Rp.datapath
    let held ← ready Rp.stallDatapath
    if !arrived && !held then return unit
    else
      let (instr, fromStall) ← takeInstr w
      sendInstr unit rf instr fromStall
      return unit

end Decode

end Decode

section Execute

/-- Execute without what is on its ports. -/
structure ExecuteUnit where
  lastExecutionStageLatency : ℕ
  flushExpirationLatency : ℕ := 0

namespace ExecuteUnit

abbrev Prog (w : ℕ) :=
  PortProg (fun i => Wp.T w (Rp.writer (.execute i))) fun o => Wp.T w (.execute o)

attribute [local instance] FuncInstr.sources_ne_zero

def isFlush (w : ℕ) : Prog w Bool := eitherSignal Execute.Rp.flush Execute.Rp.trap id id

/-- The loop over a data port; there are five of them for a source. -/
def takeData (w : ℕ) (index : Fin 2) : ℕ → Prog w (List (InstructionOutput w))
  | 0 => getAll (Execute.Rp.data index .execute)
  | 1 => getAll (Execute.Rp.data index .longArithmetic)
  | 2 => getAll (Execute.Rp.data index .mem)
  | 3 => getAll (Execute.Rp.data index .writeback)
  | 4 => getAll (Execute.Rp.data index .branch)
  | _ => lift (.error .outOfRange)

def takeBypass (instr : FuncInstr w) (index : Fin 2) : Prog w (FuncInstr w) := do
  let command ← getIfReady (Execute.Rp.command index)
  match command with
  | some command =>
    let data ← takeData w index command.getBypassDirection
    return instr.setVSrc (Execute.lastData data) index
  | none => return instr

/-- What comes out of the long-latency unit is sent on, unless a flush has hit it. -/
def takeLong (hasFlushExpired : Bool) : Prog w Unit := do
  let long ← getIfReady Execute.Rp.longLatencyExecutionUnit
  match long with
  | some instr =>
    if hasFlushExpired then
      put Execute.Wp.longArithmeticBypass instr.vDst
      put Execute.Wp.writebackDatapath instr
    else return ()
  | none => return ()

def send (instr : PerfInstr w) : Prog w Unit := do
  if instr.isLongArithmetic then put Execute.Wp.longLatencyExecutionUnit instr
  else
    put Execute.Wp.bypass instr.vDst
    if instr.isJump then put Execute.Wp.branchDatapath instr
    else if instr.isMemStageRequired then put Execute.Wp.memDatapath instr
    else put Execute.Wp.writebackDatapath instr

def takeDatapath (w : ℕ) : Prog w Unit := do
  let datapath ← getIfReady Execute.Rp.datapath
  match datapath with
  | none => return ()
  | some instr =>
    let f ← takeBypass instr.toFuncInstr 0
    let f ← takeBypass f 1
    send (instr.withInstr f.execute)

variable (execute : ExecuteUnit)

def clock : Prog w ExecuteUnit := do
  let flush ← isFlush w
  let expiration := execute.flushExpirationLatency - 1
  if flush then
    return { execute with flushExpirationLatency := execute.lastExecutionStageLatency }
  else
    takeLong (expiration = 0)
    takeDatapath w
    return { execute with flushExpirationLatency := expiration }

end ExecuteUnit

end Execute

section Mem

namespace Mem

abbrev Prog (w : ℕ) := PortProg (fun i => Wp.T w (Rp.writer (.mem i))) fun o => Wp.T w (.mem o)

def isFlush (w : ℕ) : Prog w Bool := eitherSignal Rp.flush Rp.trap id id

def clockPorts (w : ℕ) (mem : M) : Prog w M := do
  let flush ← isFlush w
  if flush then return mem
  else
    let datapath ← getIfReady Rp.datapath
    match datapath with
    | none => return mem
    | some instr =>
      let (f, mem) ← lift (FuncMemory.loadStore mem instr.toFuncInstr)
      put Wp.bypass f.vDst
      put Wp.datapath (instr.withInstr f)
      return mem

end Mem

end Mem

section Branch

namespace Branch

abbrev Prog (w : ℕ) :=
  PortProg (fun i => Wp.T w (Rp.writer (.branch i))) fun o => Wp.T w (.branch o)

def isFlush (w : ℕ) : Prog w Bool := eitherSignal Rp.flush Rp.trap id id

def signalMisprediction (instr : PerfInstr w) : Prog w Unit := do
  if isMisprediction instr.toFuncInstr instr.bpData then
    put Wp.flushAll true
    put Wp.bypassingUnitFlushNotify true
    put Wp.flushTarget instr.getActualTarget
  else return ()

def clockPorts (w : ℕ) : Prog w Unit := do
  if ← ready Rp.datapath then
    let flush ← isFlush w
    if flush then return ()
    else
      let instr ← get Rp.datapath
      put Wp.bpUpdate instr.getBpUpd
      signalMisprediction instr
      put Wp.bypass instr.vDst
      put Wp.datapath instr
  else return ()

end Branch

end Branch

section Writeback

/-- What Writeback works on, without its ports. -/
structure Retirement (w : ℕ) (M K : Type) where
  unit : Writeback
  rf : RF w
  mem : M
  kernelState : K

namespace Retirement

abbrev Prog (w : ℕ) :=
  PortProg (fun i => Wp.T w (Rp.writer (.writeback i))) fun o => Wp.T w (.writeback o)

variable (s : Retirement w M K)

/-- `set_writeback_target`. -/
def setTarget (value : Target) : Prog w (Retirement w M K) := do
  put Writeback.Wp.trap true
  put Writeback.Wp.target value
  return { s with unit := { s.unit with nextPC := value.address } }

def writebackInstruction (instr : PerfInstr w) (cycle : ℕ) : Prog w (Retirement w M K) := do
  let rf ← lift (s.rf.writeDst instr.toFuncInstr)
  put Writeback.Wp.bypass instr.vDst
  return { s with
    rf := rf
    unit := { s.unit with
      executedInstrs := s.unit.executedInstrs + 1
      lastWritebackCycle := cycle
      nextPC := instr.newPC } }

variable (kernel : Kernel w M K) (isa : ISA w)

def handleInstruction (instr : PerfInstr w) :
    Except SimException (PerfInstr w × Retirement w M K) :=
  if instr.trap ≠ .syscall then .ok (instr, s)
  else do
    let (kernelState, rf, mem, trap) ← kernel.executeInteractive s.kernelState s.rf s.mem
    return (instr.withInstr { instr.toFuncInstr with trap := trap }, { s with kernelState, rf, mem })

/-- The driver may set a target of its own. -/
def handleTrap (instr : PerfInstr w) : Prog w (Trap × Retirement w M K) := do
  let result ← lift (isa.handleTrap s.rf instr.toFuncInstr)
  let s := { s with rf := result.rf }
  match result.pc with
  | some pc =>
    let s ← s.setTarget ⟨pc, 0#64⟩
    return (result.trap, s)
  | none => return (result.trap, s)

def writebackInstructionSystem (instr : PerfInstr w) (cycle : ℕ) : Prog w (Retirement w M K) := do
  let hasSyscall := instr.trap == .syscall
  let s ← s.writebackInstruction instr cycle
  let (instr, s) ← lift (s.handleInstruction kernel instr)
  let (resultTrap, s) ← s.handleTrap isa instr
  put Writeback.Wp.halt (if s.unit.executedInstrs ≥ s.unit.instrsToRun then .breakpoint else resultTrap)
  if hasSyscall ∨ resultTrap ≠ .noTrap then s.setTarget instr.getActualTarget
  else return s

def writebackBubble (cycle : ℕ) : Prog w (Retirement w M K) :=
  if cycle ≥ s.unit.lastWritebackCycle + 100 then lift (.error .deadlock) else return s

/-- The instructions from Branch, Mem and Execute. -/
def readInstructions (w : ℕ) : Prog w (List (PerfInstr w)) := do
  let branch ← getIfReady Writeback.Rp.branchDatapath
  let mem ← getIfReady Writeback.Rp.memDatapath
  let execute ← getIfReady Writeback.Rp.executeDatapath
  return branch.toList ++ mem.toList ++ execute.toList

def writebackAll (cycle : ℕ) : List (PerfInstr w) → Retirement w M K → Prog w (Retirement w M K)
  | [], s => return s
  | instr :: instrs, s => do
    let s ← s.writebackInstructionSystem kernel isa instr cycle
    writebackAll cycle instrs s

def clock (cycle : ℕ) : Prog w (Retirement w M K) := do
  let trap ← getSignal Writeback.Rp.trap id
  if trap then s.writebackBubble cycle
  else
    let instrs ← readInstructions w
    if instrs = [] then s.writebackBubble cycle
    else writebackAll kernel isa cycle instrs s

end Retirement

end Writeback

end MiptMips
