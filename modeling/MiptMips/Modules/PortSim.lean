import MiptMips.Modules.PortModules

/-!
# The performance simulator with its ports

The modules run one after another on the ports of the simulator, and read and write at the ports
what they have for each other.
-/

namespace MiptMips

open Machines

variable {w : ℕ} {E M K : Type} [BPEntry E] [FuncMemory M]

/-- The ports as the modules make them and the port map connects them. -/
def PortSystem.create (w longAluLatency : ℕ) : PortSystem (Wp.T w) Rp.writer where
  writer k := { key := k.key, bandwidth := k.bandwidth }
  reader i := ReadPort.init { key := i.key, latency := i.latency longAluLatency } i.writer.bandwidth

structure PortSim (w : ℕ) (E M K : Type) where
  currCycle : ℕ := 0
  ports : PortSystem (Wp.T w) Rp.writer
  fetch : FetchUnit w E
  decode : DataBypass
  execute : ExecuteUnit
  writeback : Writeback := {}
  rf : RF w
  mem : M
  kernelState : K
  currentTrap : Trap := .noTrap

namespace PortSim

/-- A module runs on its ports. -/
def runModule {In Out α : Type} (wire : In → Rp) (out : Out → Wp) (cycle : ℕ)
    (p : PortProg (fun i => Wp.T w (wire i).writer) (fun o => Wp.T w (out o)) α)
    (ports : PortSystem (Wp.T w) Rp.writer) :
    Except PortFault (α × PortSystem (Wp.T w) Rp.writer) :=
  match ports.run wire out cycle p with
  | (.ok a, ports) => .ok (a, ports)
  | (.error e, _) => .error e

variable (s : PortSim w E M K) (kernel : Kernel w M K) (isa : ISA w)

def retirement : Retirement w M K := ⟨s.writeback, s.rf, s.mem, s.kernelState⟩

/-- `clock_tree`, and the next cycle. -/
def clock : Except PortFault (PortSim w E M K) := do
  let cycle := s.currCycle
  let (fetch, ports) ← runModule Rp.fetch Wp.fetch cycle (s.fetch.clock isa s.mem) s.ports
  let (decode, ports) ← runModule Rp.decode Wp.decode cycle (Decode.clockPorts s.decode s.rf) ports
  let (execute, ports) ← runModule Rp.execute Wp.execute cycle (s.execute.clock (w := w)) ports
  let (mem, ports) ← runModule Rp.mem Wp.mem cycle (Mem.clockPorts w s.mem) ports
  let (_, ports) ← runModule Rp.branch Wp.branch cycle (Branch.clockPorts w) ports
  let (r, ports) ← runModule Rp.writeback Wp.writeback cycle
    ({ s.retirement with mem }.clock kernel isa cycle) ports
  let (halt, ports) ← runModule (fun _ : Unit => Rp.halt) (Empty.elim : Empty → Wp) cycle
    (PortProg.getIfReady ()) ports
  return {
    currCycle := cycle + 1
    ports, fetch, decode, execute
    writeback := r.unit, rf := r.rf, mem := r.mem, kernelState := r.kernelState
    currentTrap := halt.getD s.currentTrap }

/-- `set_target`, between two cycles. -/
def setTarget (value : Target) : Except PortFault (PortSim w E M K) := do
  let (r, ports) ← runModule Rp.writeback Wp.writeback s.currCycle (s.retirement.setTarget value)
    s.ports
  return { s with ports, writeback := r.unit }

end PortSim

end MiptMips
