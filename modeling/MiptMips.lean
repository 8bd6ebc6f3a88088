import MiptMips.Memory.HierarchiedMemory
import MiptMips.Simulator.Mips64
import MiptMips.Simulator.PreciseFaults
import MiptMips.Modules.PerfSim
import MiptMips.Pipeline.Prediction
import MiptMips.Pipeline.Redirect
import MiptMips.Pipeline.FlushFilter
import MiptMips.Pipeline.TrapStores
import MiptMips.Pipeline.InOrder
import MiptMips.Memory.FlatMemory
import MiptMips.Simulator.DelaySlots
import MiptMips.Mips.ExceptionReturn
import MiptMips.Infra.PortDelivery
import MiptMips.Infra.LruTags
import MiptMips.Modules.BpuHistory
import MiptMips.Simulator.CheckedRun
import MiptMips.Pipeline.Operands
import MiptMips.Pipeline.RunLimit
import MiptMips.Memory.Replicant
import MiptMips.RiscV.Targets
import MiptMips.Mips.Targets
import MiptMips.Simulator.RegisterIndices
import MiptMips.Export.Vr4300
import MiptMips.Memory.Cen64Memory
import MiptMips.Infra.ReservedKeys
import MiptMips.Modules.BpuSafety
import MiptMips.Mips.Overflow
import MiptMips.Simulator.Division
import MiptMips.RiscV.WordOperations
import MiptMips.RiscV.Permutations
import MiptMips.Mips.Accumulation
import MiptMips.Simulator.UnalignedPairs
import MiptMips.Infra.RepeatedWrites
import MiptMips.Infra.InstrCacheLru
import MiptMips.Simulator.Following
import MiptMips.Simulator.Refinement
import MiptMips.Modules.PortTable
import MiptMips.RiscV.CarrylessMultiplication
import MiptMips.Infra.PseudoLruVisits
import MiptMips.Modules.BpuCapacity
import MiptMips.Memory.PlainReads
import MiptMips.Memory.Duplicate
import MiptMips.Simulator.MaskWidths
import MiptMips.Simulator.TrapCause
import MiptMips.Kernel.FileReads
import MiptMips.Kernel.FileWrites
import MiptMips.Kernel.IntegerEcho
import MiptMips.Memory.ArgvLayout
import MiptMips.Simulator.MemoryKinds
import MiptMips.Modules.PortCreation
import MiptMips.Export.CacheRunner
import MiptMips.Kernel.Descriptors
import MiptMips.Kernel.ExceptionHandler
import MiptMips.Kernel.Interactive
import MiptMips.Simulator.PortFollowing
import MiptMips.Simulator.Resumed
