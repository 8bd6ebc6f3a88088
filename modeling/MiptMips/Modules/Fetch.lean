import MiptMips.FuncSim.InstrMemory
import MiptMips.Lib.DelayLine
import MiptMips.Modules.PerfInstr

/-!
# Fetch

Fetch picks the address of the next instruction from the targets that the other stages send and
from its own prediction, and looks it up in the tags of the instruction cache. On a miss the
address goes into a port of a long latency, and Fetch waits until it comes out; a target that
arrives in the meantime is kept on the port of the predicted target.
-/

namespace MiptMips

open Machines

variable {w : ℕ} {E M : Type} [BPEntry E] [FuncMemory M]

inductive PrefetchMethod where
  | nextLine | wrongPath | noPrefetch
  deriving DecidableEq

structure FetchConfig where
  prefetchMethod : PrefetchMethod
  fetchaheadSize : BitVec 32
  lineSize : BitVec 32

/-- `Port::LONG_LATENCY`. -/
def longLatency : ℕ := 30

/-- What Fetch can read from its ports. -/
structure FetchIn where
  stall : Bool := false
  externalTarget : Option Target := none
  flushTarget : Option Target := none
  flushTargetFromDecode : Option Target := none
  bpUpdate : Option BPInterface := none
  bpUpdateFromDecode : Option BPInterface := none

structure FetchOut (w : ℕ) where
  datapath : Option (PerfInstr w) := none
  target : Option Target := none
  holdPC : Option Target := none
  /-- Whether there is something on the port `HIT_OR_MISS`; it is always a miss. -/
  hitOrMiss : Bool := false

structure Fetch (w : ℕ) (E : Type) where
  config : FetchConfig
  bp : BP E
  tags : CacheTagArray
  memory : InstrMemoryCached w
  longLatencyPCHolder : DelayLine Target := .empty longLatency
  isWrongPath : Bool := false

namespace Fetch

variable (fetch : Fetch w E) (input : FetchIn) (ports : FetchOut w)

section Targets

/-- The target that the ports give. -/
def selectTarget : Option Target :=
  input.externalTarget.or <| input.flushTarget.or <| input.flushTargetFromDecode.or <|
    (if input.stall then none else ports.target).or ports.holdPC

/-- Whether the target from Decode is the one that is taken. -/
def takesDecodeTarget : Bool :=
  input.externalTarget.isNone && input.flushTarget.isNone && input.flushTargetFromDecode.isSome

/-- A line that is not in the cache is put there. -/
def prefetch (addr : Addr) : Fetch w E :=
  let (hit, tags) := fetch.tags.lookup addr
  { fetch with tags := if hit then tags else (tags.write addr).2 }

/-- With the wrong path prefetched, the target from Decode is put into the cache at once. -/
def getTarget : Option Target × Fetch w E :=
  let target := selectTarget input ports
  if fetch.config.prefetchMethod = .wrongPath then
    match takesDecodeTarget input, target with
    | true, some t => (target, { fetch with isWrongPath := true }.prefetch t.address)
    | _, _ => (target, { fetch with isWrongPath := false })
  else (target, fetch)

end Targets

section Cache

def clockBp : Fetch w E :=
  let bp := match input.bpUpdate with
    | some upd => fetch.bp.update upd
    | none => fetch.bp
  { fetch with
    bp := match input.bpUpdateFromDecode with
      | some upd => bp.update upd
      | none => bp }

/-- What is kept for later while a miss is going on. -/
def saveFlush : Option Target :=
  input.flushTarget.or <| input.flushTargetFromDecode.or <| ports.target.or input.externalTarget

/-- A cycle of a miss: the address that comes out of the long port is held, and its line is put
into the cache. -/
def clockInstrCache (fetch : Fetch w E) : FetchOut w × Fetch w E :=
  match fetch.longLatencyPCHolder.out with
  | some target =>
    ({ holdPC := some target }, { fetch with tags := (fetch.tags.write target.address).2 })
  | none => ({ hitOrMiss := true }, fetch)

def shiftHolder (target : Option Target) : Fetch w E :=
  { fetch with longLatencyPCHolder := fetch.longLatencyPCHolder.shift target }

/-- The target to fetch, if there is one and it is in the cache, and what is written on the way. -/
def getCachedTarget : Option Target × FetchOut w × Fetch w E :=
  if ports.hitOrMiss then
    let (out, fetch) := fetch.clockInstrCache
    (none, { out with target := saveFlush input ports }, fetch.shiftHolder none)
  else
    match fetch.getTarget input ports with
    | (none, fetch) => (none, {}, fetch.shiftHolder none)
    | (some target, fetch) =>
      let (hit, tags) := fetch.tags.lookup target.address
      let fetch := { fetch with tags }
      if hit then (some target, {}, fetch.shiftHolder none)
      else (none, { hitOrMiss := true }, fetch.shiftHolder (some target))

end Cache

section Clock

variable (isa : ISA w) (mem : M)

def lineOffset (addr : Addr) : Addr :=
  addr &&& bitmask 64 fetch.config.lineSize.ctz.toNat

def prefetchNextLine (requested : Addr) : Fetch w E :=
  let distance := fetch.config.lineSize - fetch.config.fetchaheadSize
  if distance.setWidth 64 ≤ fetch.lineOffset requested then
    fetch.prefetch (requested + fetch.config.lineSize.setWidth 64)
  else fetch

/-- The fetched instruction, with its prediction. -/
def fetchTarget (target : Target) : PerfInstr w × Fetch w E :=
  let bpInfo := fetch.bp.getBpInfo target.address
  let (instr, memory) := fetch.memory.fetchInstr isa mem target.address
  ({ instr.setSequenceId target.sequenceId with bpData := bpInfo }, { fetch with memory })

def clock : FetchOut w × Fetch w E :=
  let fetch := fetch.clockBp input
  match fetch.getCachedTarget input ports with
  | (none, out, fetch) => (out, fetch)
  | (some target, _, fetch) =>
    let (instr, fetch) := fetch.fetchTarget isa mem target
    let fetch :=
      if fetch.config.prefetchMethod ≠ .noPrefetch ∧ !fetch.isWrongPath then
        fetch.prefetchNextLine target.address
      else fetch
    ({ holdPC := some target, target := some instr.getPredictedTarget, datapath := some instr },
      fetch)

end Clock

end Fetch

end MiptMips
