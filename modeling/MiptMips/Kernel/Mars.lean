import MiptMips.FuncSim.Rf
import MiptMips.Lib.IntegerText
import MiptMips.Lib.Throwing
import MiptMips.Memory.Memory
import MiptMips.Mips.Decode
import MiptMips.RiscV.Decode

/-!
# The system calls of MARS

The kernel reads the number and the arguments of a system call from the registers of the simulator,
works on streams and on the guest memory, and writes the result to a register. A call that throws
keeps what it has done until then.

The streams are held by reference: those of the host that the kernel was made with, which may be
one and the same, and those of the files that the guest has opened. What the host gives when a file
is opened is a parameter.
-/

namespace MiptMips

open Machines Throwing

inductive RegisterSet where
  | mips
  | riscv
  deriving DecidableEq, Repr

def RegisterSet.fromCpuIndex : RegisterSet → ℕ → Register
  | mips => MipsRegister.fromCpuIndex
  | riscv => RiscVRegister.fromCpuIndex

inductive StreamRef where
  | host (n : ℕ)
  | user (descriptor : BitVec 64)
  deriving DecidableEq, Repr

structure OpenMode where
  input : Bool := false
  output : Bool := false
  binary : Bool := false
  app : Bool := false
  deriving DecidableEq, Repr

inductive KernelException where
  | badInputValue (msg : String)
  | simulator (e : SimException)
  deriving DecidableEq, Repr

structure MARSKernel where
  streams : StreamRef → Stream
  instream : ℕ
  outstream : ℕ
  errstream : ℕ
  /-- The descriptors of the open files. -/
  files : BitVec 64 → Bool := fun _ => false
  nextDescriptor : BitVec 64 := 3#64
  exitCode : BitVec 32 := 0#32

/-- The kernel with the simulator's registers and the memory. -/
structure MARSSystem (w : ℕ) (M : Type) where
  kernel : MARSKernel
  rf : RF w
  mem : M

namespace MARSSystem

variable {w : ℕ} {M : Type}

/-- A register as a 64-bit number. -/
def cpuRegister (s : MARSSystem w M) (registers : RegisterSet) (regno : ℕ) : BitVec 64 :=
  (s.rf.get (registers.fromCpuIndex regno)).setWidth 64

end MARSSystem

namespace MARSKernel

section Files

variable (k : MARSKernel)

def findUserFileByDescriptor (descriptor : BitVec 64) : Option StreamRef :=
  if k.files descriptor then some (.user descriptor) else none

def findInFileByDescriptor (descriptor : BitVec 64) : Option StreamRef :=
  if descriptor = 0#64 then some (.host k.instream)
  else if descriptor = 1#64 ∨ descriptor = 2#64 then none
  else k.findUserFileByDescriptor descriptor

def findOutFileByDescriptor (descriptor : BitVec 64) : Option StreamRef :=
  if descriptor = 0#64 then none
  else if descriptor = 1#64 then some (.host k.outstream)
  else if descriptor = 2#64 then some (.host k.errstream)
  else k.findUserFileByDescriptor descriptor

def setStream (file : StreamRef) (stream : Stream) : MARSKernel :=
  { k with streams := fun f => if f = file then stream else k.streams f }

end Files

variable {w : ℕ} {M : Type} [FuncMemory M]

abbrev Action (w : ℕ) (M : Type) (α : Type) := Throwing KernelException (MARSSystem w M) α

section Access

variable (registers : RegisterSet)

def v0 : ℕ := 2

def a0 : ℕ := 4

def a1 : ℕ := 5

def a2 : ℕ := 6

def ofExcept {α : Type} : Except SimException α → Action w M α
  | .ok a => return a
  | .error e => throw (.simulator e)

def readCpuRegister (regno : ℕ) : Action w M (BitVec 64) := do
  let s ← get
  let value ← ofExcept (s.rf.read (registers.fromCpuIndex regno))
  return value.setWidth 64

def writeCpuRegister (regno : ℕ) (value : BitVec 64) : Action w M PUnit := do
  let s ← get
  let rf ← ofExcept (s.rf.write (registers.fromCpuIndex regno) (value.setWidth w))
  set { s with rf := rf }

/-- An operation on a stream, which leaves its flags and its position. -/
def onStream {α : Type} (file : StreamRef) (operation : Stream → α × Stream) : Action w M α := do
  let s ← get
  let (result, stream) := operation (s.kernel.streams file)
  set { s with kernel := s.kernel.setStream file stream }
  return result

def print (file : StreamRef) (data : List Byte) : Action w M PUnit :=
  onStream file fun stream => (⟨⟩, stream.write data)

/-- A vector of characters that is too long throws. -/
def vector (size : ℕ) : Action w M PUnit :=
  if size < 2 ^ 63 then return else throw (.simulator .lengthError)

/-- The vector is filled with zeroes before the bytes are copied into it. -/
def readStringBySize (addr : Addr) (size : ℕ) : Action w M (List Byte) := do
  vector size
  let s ← get
  let copied := FuncMemory.memcpyGuestToHost s.mem addr size
  return copied ++ List.replicate (size - copied.length) 0#8

def readString (addr : Addr) : Action w M (List Byte) := do
  let s ← get
  readStringBySize addr (FuncMemory.strlen s.mem addr)

def readStringLimited (addr : Addr) (size : ℕ) : Action w M (List Byte) := do
  let s ← get
  readStringBySize addr (min size (FuncMemory.strlen s.mem addr))

def memcpyHostToGuest (dst : Addr) (src : List Byte) : Action w M PUnit := do
  let s ← get
  let mem ← ofExcept (FuncMemory.memcpyHostToGuest s.mem dst src)
  set { s with mem := mem }

def writeStringLimited (value : List Byte) (addr : Addr) (size : ℕ) : Action w M PUnit :=
  memcpyHostToGuest addr (value.take (min size value.length))

end Access

section Text

variable (registers : RegisterSet)

def printInteger : Action w M PUnit := do
  let value ← readCpuRegister registers a0
  let s ← get
  print (.host s.kernel.outstream) (IntegerText.decimal value.toInt)

def extract : Action w M (List Byte) := do
  let s ← get
  onStream (.host s.kernel.instream) Stream.extract

def readInteger : Action w M PUnit := do
  let input ← extract
  match IntegerText.stoll input with
  | .error .invalidArgument =>
    throw (.badInputValue "No conversion could be performed: stoll")
  | .error .outOfRange => throw (.badInputValue "Out of range value: stoll")
  | .ok (value, pos) =>
    if pos ≠ input.length then throw (.badInputValue "Unknown error.")
    else writeCpuRegister registers v0 (BitVec.ofInt 64 value)

def printCharacter : Action w M PUnit := do
  let value ← readCpuRegister registers a0
  let s ← get
  print (.host s.kernel.outstream) [value.setWidth 8]

/-- A character is a signed number. -/
def readCharacter : Action w M PUnit := do
  let input ← extract
  match input with
  | [c] => writeCpuRegister registers v0 (c.signExtend 64)
  | _ => throw (.badInputValue "More than one character is entered")

def printString : Action w M PUnit := do
  let addr ← readCpuRegister registers a0
  let s ← get
  let value ← readString addr
  print (.host s.kernel.outstream) value

def readStringCall : Action w M PUnit := do
  let bufferPtr ← readCpuRegister registers a0
  let charsToRead ← readCpuRegister registers a1
  let input ← extract
  writeStringLimited input bufferPtr charsToRead.toNat

end Text

section Descriptors

variable (registers : RegisterSet) (openFile : List Byte → OpenMode → Option Stream)

def getOpenmode (value : BitVec 64) : OpenMode :=
  if value = 0#64 then { input := true, binary := true }
  else if value = 1#64 then { output := true, binary := true }
  else if value = 9#64 then { output := true, binary := true, app := true }
  else {}

def ioFailure : Action w M PUnit := writeCpuRegister registers v0 (allOnes 64)

/-- `open_file`; `emplace` keeps a file that has the descriptor already. -/
def openFileCall : Action w M PUnit := do
  let filenamePtr ← readCpuRegister registers a0
  let flags ← readCpuRegister registers a1
  let filename ← readString filenamePtr
  match openFile filename (getOpenmode flags) with
  | none => ioFailure registers
  | some file =>
    let s ← get
    let descriptor := s.kernel.nextDescriptor
    if !s.kernel.files descriptor then
      set { s with
        kernel :=
          { s.kernel.setStream (.user descriptor) file with
            files := fun d => d == descriptor || s.kernel.files d } }
    writeCpuRegister registers v0 descriptor
    let s ← get
    set { s with kernel := { s.kernel with nextDescriptor := descriptor + 1#64 } }

def closeFile : Action w M PUnit := do
  let descriptor ← readCpuRegister registers a0
  if descriptor < 3#64 then return
  else
    let s ← get
    set { s with
      kernel := { s.kernel with files := fun d => d != descriptor && s.kernel.files d } }

def writeToFile : Action w M PUnit := do
  let descriptor ← readCpuRegister registers a0
  let bufferPtr ← readCpuRegister registers a1
  let charsToWrite ← readCpuRegister registers a2
  let s ← get
  match s.kernel.findOutFileByDescriptor descriptor with
  | none => ioFailure registers
  | some file =>
    let data ← readStringLimited bufferPtr charsToWrite.toNat
    let currentPos ← onStream file fun stream => (stream.tellp, stream)
    print file data
    let pos ← onStream file fun stream => (stream.tellp, stream)
    writeCpuRegister registers v0 (BitVec.ofInt 64 (pos - currentPos))

def readFromFile : Action w M PUnit := do
  let descriptor ← readCpuRegister registers a0
  let bufferPtr ← readCpuRegister registers a1
  let charsToRead ← readCpuRegister registers a2
  let s ← get
  match s.kernel.findInFileByDescriptor descriptor with
  | none => ioFailure registers
  | some file =>
    vector charsToRead.toNat
    let currentPos ← onStream file Stream.tellg
    let data ← onStream file (·.read charsToRead.toNat)
    let pos ← onStream file Stream.tellg
    writeCpuRegister registers v0 (BitVec.ofInt 64 (pos - currentPos))
    -- all of the buffer is copied, also what was not read
    memcpyHostToGuest bufferPtr (data ++ List.replicate (charsToRead.toNat - data.length) 0#8)

end Descriptors

section Execute

variable (registers : RegisterSet) (openFile : List Byte → OpenMode → Option Stream)

/-- The system calls that leave no trap. -/
def call : ℕ → Option (Action w M PUnit)
  | 1 => some (printInteger registers)
  | 4 => some (printString registers)
  | 5 => some (readInteger registers)
  | 8 => some (readStringCall registers)
  | 11 => some (printCharacter registers)
  | 12 => some (readCharacter registers)
  | 13 => some (openFileCall registers openFile)
  | 14 => some (readFromFile registers)
  | 15 => some (writeToFile registers)
  | 16 => some (closeFile registers)
  | _ => none

def exit (exitCode : BitVec 32) : Action w M Trap := do
  let s ← get
  set { s with kernel := { s.kernel with exitCode := exitCode } }
  return .halt

def execute : Action w M Trap := do
  let syscallCode ← readCpuRegister registers v0
  match syscallCode.toNat with
  | 10 => exit 0#32
  | 17 =>
    let exitCode ← readCpuRegister registers a0
    exit (exitCode.setWidth 32)
  | code =>
    match call registers openFile code with
    | some syscall =>
      syscall
      return .noTrap
    | none => return .unsupportedSyscall

end Execute

section Runs

variable {registers : RegisterSet} {s : MARSSystem w M} {file : StreamRef}

omit [FuncMemory M] in
theorem run_get_bind {α : Type} (f : MARSSystem w M → Action w M α) :
    (get >>= f).run.run s = (f s).run.run s := rfl

@[simp]
theorem toRfIndex_fromCpuIndex (registers : RegisterSet) (regno : ℕ) :
    (registers.fromCpuIndex regno).toRfIndex = regno := by
  cases registers <;> rfl

omit [FuncMemory M] in
theorem run_readCpuRegister {regno : ℕ} (h : regno < s.rf.maxReg) :
    (readCpuRegister registers regno : Action w M _).run.run s
      = (.ok (s.cpuRegister registers regno), s) := by
  have hread : s.rf.read (registers.fromCpuIndex regno)
      = .ok (s.rf.get (registers.fromCpuIndex regno)) :=
    RF.read_ok (by rw [RF.Valid, toRfIndex_fromCpuIndex]; exact h)
  rw [readCpuRegister, run_get_bind, hread]
  rfl

omit [FuncMemory M] in
/-- A call on a descriptor starts with its three arguments. -/
theorem run_readArguments {α : Type} (hregs : 6 < s.rf.maxReg)
    (next : BitVec 64 → BitVec 64 → BitVec 64 → MARSSystem w M → Action w M α) :
    (do
      let x ← readCpuRegister registers a0
      let y ← readCpuRegister registers a1
      let z ← readCpuRegister registers a2
      let s ← get
      next x y z s : Action w M α).run.run s
      = (next (s.cpuRegister registers a0) (s.cpuRegister registers a1)
          (s.cpuRegister registers a2) s).run.run s := by
  have hv : ∀ r ≤ 6, r < s.rf.maxReg := fun r hr => by omega
  rw [run_bind_ok (run_readCpuRegister (hv _ (by decide))),
    run_bind_ok (run_readCpuRegister (hv _ (by decide))),
    run_bind_ok (run_readCpuRegister (hv _ (by decide))), run_get_bind]

omit [FuncMemory M] in
theorem run_writeCpuRegister {kernel : MARSKernel} {rf : RF w} {mem : M} {regno : ℕ}
    (h : regno < rf.maxReg) (hz : regno ≠ 0) (value : BitVec 64) :
    (writeCpuRegister registers regno value : Action w M _).run.run ⟨kernel, rf, mem⟩
      = (.ok ⟨⟩, ⟨kernel, rf.set (registers.fromCpuIndex regno) (value.setWidth w), mem⟩) := by
  have hwrite : rf.write (registers.fromCpuIndex regno) (value.setWidth w)
      = .ok (rf.set (registers.fromCpuIndex regno) (value.setWidth w)) := by
    refine RF.write_ok (by rw [RF.Valid, toRfIndex_fromCpuIndex]; exact h) ?_
    simpa [Register.isZero] using hz
  rw [writeCpuRegister, run_get_bind]
  dsimp only
  rw [hwrite]
  rfl

omit [FuncMemory M] in
theorem run_onStream {α : Type} (operation : Stream → α × Stream) :
    (onStream file operation : Action w M α).run.run s
      = (.ok (operation (s.kernel.streams file)).1,
        { s with kernel := s.kernel.setStream file (operation (s.kernel.streams file)).2 }) := rfl

omit [FuncMemory M] in
theorem run_vector {size : ℕ} (h : size < 2 ^ 63) :
    (vector size : Action w M _).run.run s = (.ok ⟨⟩, s) := by
  rw [vector, if_pos h]
  rfl

omit [FuncMemory M] in
theorem run_vector_large {size : ℕ} (h : ¬ size < 2 ^ 63) :
    (vector size : Action w M _).run.run s = (.error (.simulator .lengthError), s) := by
  rw [vector, if_neg h]
  rfl

theorem run_memcpyHostToGuest_ok {dst : Addr} {src : List Byte} {mem : M}
    (h : FuncMemory.memcpyHostToGuest s.mem dst src = .ok mem) :
    (memcpyHostToGuest dst src : Action w M _).run.run s = (.ok ⟨⟩, { s with mem := mem }) := by
  rw [memcpyHostToGuest, run_get_bind, h]
  rfl

theorem run_memcpyHostToGuest_error {dst : Addr} {src : List Byte} {e : SimException}
    (h : FuncMemory.memcpyHostToGuest s.mem dst src = .error e) :
    (memcpyHostToGuest dst src : Action w M _).run.run s = (.error (.simulator e), s) := by
  rw [memcpyHostToGuest, run_get_bind, h]
  rfl

/-- A system call that leaves no trap, by its number. -/
theorem run_execute {openFile : List Byte → OpenMode → Option Stream} {syscall : Action w M PUnit}
    (h : v0 < s.rf.maxReg)
    (hcall : call registers openFile (s.cpuRegister registers v0).toNat = some syscall) :
    (execute registers openFile).run.run s
      = (do syscall; return Trap.noTrap : Action w M Trap).run.run s := by
  unfold execute
  rw [run_bind_ok (run_readCpuRegister h)]
  generalize (s.cpuRegister registers v0).toNat = code at hcall
  split
  · cases hcall
  · cases hcall
  · rw [hcall]

@[simp]
theorem streams_setStream (k : MARSKernel) (stream : Stream) :
    (k.setStream file stream).streams file = stream := if_pos rfl

theorem streams_setStream_of_ne {k : MARSKernel} {file' : StreamRef} (h : file' ≠ file)
    (stream : Stream) : (k.setStream file stream).streams file' = k.streams file' := if_neg h

theorem setStream_self (k : MARSKernel) (file : StreamRef) :
    k.setStream file (k.streams file) = k := by
  unfold setStream
  congr
  funext f
  split_ifs with h
  · rw [h]
  · rfl

/-- Only the last state of a stream counts. -/
@[simp]
theorem setStream_setStream (k : MARSKernel) (stream stream' : Stream) :
    (k.setStream file stream).setStream file stream' = k.setStream file stream' := by
  unfold setStream
  simp only [MARSKernel.mk.injEq, and_true]
  funext f
  split_ifs <;> rfl

end Runs

end MARSKernel

end MiptMips
