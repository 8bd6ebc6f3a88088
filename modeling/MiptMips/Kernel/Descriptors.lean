import MiptMips.Kernel.FileReads
import MiptMips.Kernel.IntegerEcho

/-!
# Descriptors

What the guest sees of its files is a table: a file that is opened gets the next row, a file that is
closed leaves its row empty for good, and a call on a descriptor works on the file in its row and on
no other. The kernel keeps the files by their descriptors and counts the descriptors; over every
sequence of system calls, whatever the guest and the host do between them, the two are the same.
-/

namespace MiptMips

open Machines Throwing FuncMemory

variable {w : ℕ} {M : Type} [FuncMemory M]

/-- A system call: the registers and the memory of the guest, and the host as it is then. -/
structure SystemCall (w : ℕ) (M : Type) where
  rf : RF w
  mem : M
  openFile : List Byte → OpenMode → Option Stream
  hasArguments : 6 < rf.maxReg

namespace SystemCall

variable (registers : RegisterSet) (c : SystemCall w M)

def register (regno : ℕ) : BitVec 64 := (c.rf.get (registers.fromCpuIndex regno)).setWidth 64

def code : BitVec 64 := c.register registers MARSKernel.v0

def descriptor : BitVec 64 := c.register registers MARSKernel.a0

def count : ℕ := (c.register registers MARSKernel.a2).toNat

/-- A buffer of the guest as the kernel reads it. -/
def guestString (addr : Addr) (size : ℕ) : List Byte :=
  let copied := memcpyGuestToHost c.mem addr size
  copied ++ List.replicate (size - copied.length) 0#8

def filename : List Byte :=
  c.guestString (c.descriptor registers) (strlen c.mem (c.descriptor registers))

def opened : Option Stream :=
  c.openFile (c.filename registers)
    (MARSKernel.getOpenmode (c.register registers MARSKernel.a1))

/-- The number of bytes to write: up to the first zero. -/
def writeSize : ℕ :=
  min (c.count registers) (strlen c.mem (c.register registers MARSKernel.a1))

/-- What a call makes of the file that it works on. -/
def onFile (stream : Stream) : Stream :=
  if c.code registers = 14#64 then
    if c.count registers < 2 ^ 63 then (MARSSystem.measured stream (c.count registers)).2.2
    else stream
  else
    if c.writeSize registers < 2 ^ 63 then
      stream.write
        (c.guestString (c.register registers MARSKernel.a1) (c.writeSize registers))
    else stream

end SystemCall

section Machines

/-- The kernel: what is in the register of results after a call, also after one that throws. -/
def kernelMachine (w : ℕ) (M : Type) [FuncMemory M] (registers : RegisterSet) :
    Machine MARSKernel (SystemCall w M) (BitVec w) where
  step k c :=
    let t := ((MARSKernel.execute registers c.openFile).run.run ⟨k, c.rf, c.mem⟩).2
    (t.kernel, t.rf.get (registers.fromCpuIndex MARSKernel.v0))

/-- The files in the order they were opened in; a file that was closed has left. -/
abbrev FileTable := List (Option Stream)

namespace FileTable

/-- The descriptor of a row. -/
def descriptor (row : ℕ) : BitVec 64 := BitVec.ofNat 64 (3 + row)

def lookup (table : FileTable) (d : BitVec 64) : Option Stream :=
  if d.toNat < 3 then none else table.getD (d.toNat - 3) none

/-- The row of a descriptor changes. -/
def put (table : FileTable) (d : BitVec 64) (file : Option Stream) : FileTable :=
  if d.toNat < 3 then table else table.set (d.toNat - 3) file

def afterOpen (table : FileTable) : Option Stream → FileTable × Option (BitVec 64)
  | some file => (table ++ [some file], some (descriptor table.length))
  | none => (table, some (allOnes 64))

def afterAccess (table : FileTable) (d : BitVec 64) (access : Stream → Stream) :
    FileTable × Option (BitVec 64) :=
  match table.lookup d with
  | some stream => (table.put d (some (access stream)), none)
  | none => (table, if d.toNat < 3 then none else some (allOnes 64))

end FileTable

/-- The table, and the results that it fixes. A name that is too long has none. -/
def tableMachine (w : ℕ) (M : Type) [FuncMemory M] (registers : RegisterSet) :
    Machine FileTable (SystemCall w M) (Option (BitVec 64)) where
  step table c :=
    if c.code registers = 13#64 then
      if strlen c.mem (c.descriptor registers) < 2 ^ 63 then table.afterOpen (c.opened registers)
      else (table, none)
    else if c.code registers = 14#64 ∨ c.code registers = 15#64 then
      table.afterAccess (c.descriptor registers) (c.onFile registers)
    else if c.code registers = 16#64 then (table.put (c.descriptor registers) none, none)
    else (table, none)

end Machines

/-- The files of the kernel are those of the table, and its counter is at the next row. -/
structure MARSKernel.HasTable (k : MARSKernel) (table : FileTable) : Prop where
  nextDescriptor_eq : k.nextDescriptor = FileTable.descriptor table.length
  files_eq (d : BitVec 64) : k.files d = (table.lookup d).isSome
  streams_eq (d : BitVec 64) : ∀ stream ∈ table.lookup d, k.streams (.user d) = stream

/-- A result that the table fixes is in the register. -/
def Answers (result : BitVec w) (expected : Option (BitVec 64)) : Prop :=
  ∀ value ∈ expected, result = value.setWidth w

namespace MARSKernel

section Host

variable {registers : RegisterSet}

/-- The same files of the guest, and the same counter. -/
def SameFiles (k k' : MARSKernel) : Prop :=
  k'.files = k.files ∧ k'.nextDescriptor = k.nextDescriptor
    ∧ ∀ d, k'.streams (.user d) = k.streams (.user d)

theorem SameFiles.hasTable {k k' : MARSKernel} {table : FileTable} (h : SameFiles k k')
    (hk : k.HasTable table) : k'.HasTable table where
  nextDescriptor_eq := h.2.1.trans hk.nextDescriptor_eq
  files_eq d := by rw [h.1, hk.files_eq]
  streams_eq d stream hs := (h.2.2 d).trans (hk.streams_eq d stream hs)

/-- A computation leaves the files of the guest as they are. -/
abbrev Spares {α : Type} (k : MARSKernel) (x : Action w M α) : Prop :=
  Keeps (fun s : MARSSystem w M => k.SameFiles s.kernel) x

variable {k : MARSKernel}

omit [FuncMemory M] in
theorem spares_ofExcept {α : Type} (x : Except SimException α) :
    Spares k (ofExcept x : Action w M α) := by
  rcases x with e | a
  · exact keeps_throw _
  · exact keeps_pure _

omit [FuncMemory M] in
theorem spares_readCpuRegister (regno : ℕ) :
    Spares k (readCpuRegister registers regno : Action w M _) :=
  .get fun _ hs => (spares_ofExcept _).bind (fun _ => keeps_pure _) _ hs

omit [FuncMemory M] in
theorem spares_writeCpuRegister (regno : ℕ) (value : BitVec 64) :
    Spares k (writeCpuRegister registers regno value : Action w M _) := by
  refine .get fun s hs => ?_
  rcases s.rf.write (registers.fromCpuIndex regno) (value.setWidth w) with e | rf <;> exact hs

omit [FuncMemory M] in
theorem spares_onHost {α : Type} (n : ℕ) (operation : Stream → α × Stream) :
    Spares k (onStream (.host n) operation : Action w M α) := fun s hs => by
  have hne (d : BitVec 64) : StreamRef.user d ≠ .host n := nofun
  refine ⟨hs.1, hs.2.1, fun d => ?_⟩
  show (s.kernel.setStream (.host n) (operation (s.kernel.streams (.host n))).2).streams (.user d)
    = _
  exact (streams_setStream_of_ne (hne d) _).trans (hs.2.2 d)

omit [FuncMemory M] in
theorem spares_vector (size : ℕ) : Spares k (vector size : Action w M _) := by
  unfold vector
  split_ifs
  · exact keeps_pure _
  · exact keeps_throw _

theorem spares_readStringBySize (addr : Addr) (size : ℕ) :
    Spares k (readStringBySize addr size : Action w M _) :=
  (spares_vector size).bind fun _ => .get fun _ hs => hs

theorem spares_memcpyHostToGuest (dst : Addr) (src : List Byte) :
    Spares k (memcpyHostToGuest dst src : Action w M _) := by
  refine .get fun s hs => ?_
  rcases FuncMemory.memcpyHostToGuest s.mem dst src with e | mem <;> exact hs

theorem spares_readString (addr : Addr) : Spares k (readString addr : Action w M _) :=
  .get fun _ hs => spares_readStringBySize _ _ _ hs

omit [FuncMemory M] in
theorem spares_extract : Spares k (extract : Action w M _) :=
  .get fun _ hs => spares_onHost _ _ _ hs

omit [FuncMemory M] in
theorem spares_exit (exitCode : BitVec 32) : Spares k (exit exitCode : Action w M _) :=
  .get fun _ hs => hs

/-- The calls that have to do with no file. -/
theorem spares_call {openFile : List Byte → OpenMode → Option Stream} {code : ℕ}
    (h : code ≠ 13 ∧ code ≠ 14 ∧ code ≠ 15 ∧ code ≠ 16) {syscall : Action w M PUnit}
    (hcall : call registers openFile code = some syscall) : Spares k syscall := by
  unfold call at hcall
  split at hcall <;> cases hcall
  · exact (spares_readCpuRegister _).bind fun _ => .get fun _ hs => spares_onHost _ _ _ hs
  · exact (spares_readCpuRegister _).bind fun _ => .get fun _ hs =>
      Keeps.bind (spares_readString _) (fun _ => spares_onHost _ _) _ hs
  · refine spares_extract.bind fun input => ?_
    rcases IntegerText.stoll input with (_ | _) | ⟨value, pos⟩
    · exact keeps_throw _
    · exact keeps_throw _
    · dsimp only
      split_ifs
      · exact keeps_throw _
      · exact spares_writeCpuRegister _ _
  · exact (spares_readCpuRegister _).bind fun _ => (spares_readCpuRegister _).bind fun _ =>
      spares_extract.bind fun _ => spares_memcpyHostToGuest _ _
  · exact (spares_readCpuRegister _).bind fun _ => .get fun _ hs => spares_onHost _ _ _ hs
  · refine spares_extract.bind fun input => ?_
    rcases input with _ | ⟨c, _ | ⟨d, rest⟩⟩
    · exact keeps_throw _
    · exact spares_writeCpuRegister _ _
    · exact keeps_throw _
  · exact absurd rfl h.1
  · exact absurd rfl h.2.1
  · exact absurd rfl h.2.2.1
  · exact absurd rfl h.2.2.2

theorem spares_execute {openFile : List Byte → OpenMode → Option Stream} {s : MARSSystem w M}
    (hregs : v0 < s.rf.maxReg)
    (h : ∀ code : BitVec 64, s.cpuRegister registers v0 = code →
      code ≠ 13#64 ∧ code ≠ 14#64 ∧ code ≠ 15#64 ∧ code ≠ 16#64) :
    s.kernel.SameFiles (exec (execute registers openFile) s).kernel := by
  have hstart : s.kernel.SameFiles s.kernel := ⟨rfl, rfl, fun _ => rfl⟩
  have hcode := h _ rfl
  unfold execute exec
  rw [run_bind_ok (run_readCpuRegister hregs)]
  split
  · exact spares_exit _ _ hstart
  · exact Keeps.bind (spares_readCpuRegister _) (fun _ => spares_exit _) _ hstart
  · split
    · rename_i hcall
      refine Keeps.bind (spares_call ?_ hcall) (fun _ => keeps_pure _) _ hstart
      refine ⟨fun he => hcode.1 ?_, fun he => hcode.2.1 ?_, fun he => hcode.2.2.1 ?_,
        fun he => hcode.2.2.2 ?_⟩ <;> exact BitVec.eq_of_toNat_eq he
    · exact hstart

end Host

section Table

variable {table : FileTable} {d d' : BitVec 64} {stream : Stream}

theorem toNat_descriptor (h : 3 + table.length < 2 ^ 64) :
    (FileTable.descriptor table.length).toNat = 3 + table.length := by
  rw [FileTable.descriptor, BitVec.toNat_ofNat, Nat.mod_eq_of_lt h]

theorem lookup_append (h : 3 + table.length < 2 ^ 64) (file : Option Stream) :
    FileTable.lookup (table ++ [file]) d
      = if d = FileTable.descriptor table.length then file else table.lookup d := by
  have hlast := toNat_descriptor h
  unfold FileTable.lookup
  split_ifs with h₁ h₂ h₂
  · rw [h₂] at h₁
    omega
  · rfl
  · rw [h₂, hlast]
    simp
  · have hrow : d.toNat - 3 ≠ table.length := fun he => h₂ (BitVec.eq_of_toNat_eq (by omega))
    rw [List.getD_eq_getElem?_getD, List.getD_eq_getElem?_getD]
    rcases Nat.lt_or_gt_of_ne hrow with hlt | hgt
    · rw [List.getElem?_append_left hlt]
    · rw [List.getElem?_eq_none (by simp; omega), List.getElem?_eq_none (by omega)]

theorem lookup_put_of_ne (h : d' ≠ d) (file : Option Stream) :
    (table.put d file).lookup d' = table.lookup d' := by
  have hne : d.toNat ≠ d'.toNat := fun he => h (BitVec.eq_of_toNat_eq he).symm
  unfold FileTable.put FileTable.lookup
  by_cases hsmall : d.toNat < 3
  · rw [if_pos hsmall]
  · rw [if_neg hsmall]
    split_ifs with hsmall'
    · rfl
    · rw [List.getD_eq_getElem?_getD, List.getElem?_set_ne (by omega),
        List.getD_eq_getElem?_getD]

theorem lookup_put_none : (table.put d none).lookup d = none := by
  unfold FileTable.put FileTable.lookup
  split_ifs with hsmall
  · rfl
  · by_cases hrow : d.toNat - 3 < table.length <;> simp [List.getD_eq_getElem?_getD, hrow]

theorem lookup_put_some (h : table.lookup d = some stream) (file : Option Stream) :
    (table.put d file).lookup d = file := by
  unfold FileTable.lookup at h
  unfold FileTable.put FileTable.lookup
  split_ifs at h ⊢ with hsmall
  have hrow : d.toNat - 3 < table.length := by
    by_contra hout
    rw [List.getD_eq_default _ _ (by omega)] at h
    cases h
  simp [List.getD_eq_getElem?_getD, hrow]

@[simp]
theorem length_put (file : Option Stream) : (table.put d file).length = table.length := by
  unfold FileTable.put
  split_ifs
  · rfl
  · exact List.length_set

end Table

section Steps

variable {registers : RegisterSet} {k : MARSKernel} {table : FileTable} {c : SystemCall w M}

/-- A call is made by its number. -/
theorem exec_execute {openFile : List Byte → OpenMode → Option Stream} {s : MARSSystem w M}
    {syscall : Action w M PUnit} (hregs : v0 < s.rf.maxReg)
    (hcall : call registers openFile (s.cpuRegister registers v0).toNat = some syscall) :
    exec (execute registers openFile) s = exec syscall s := by
  rw [exec, run_execute hregs hcall]
  show exec (do syscall; return Trap.noTrap) s = _
  rw [exec_bind, exec]
  rcases syscall.run.run s with ⟨_ | _, t⟩ <;> rfl

/-- After a call, the kernel has the table's files, and the result that it fixes. -/
def Follows (registers : RegisterSet) (k : MARSKernel) (table : FileTable) (c : SystemCall w M) :
    Prop :=
  ((kernelMachine w M registers).next k c).HasTable ((tableMachine w M registers).next table c)
    ∧ Answers ((kernelMachine w M registers).out k c) ((tableMachine w M registers).out table c)

theorem follows_of_exec {t : MARSSystem w M} {table' : FileTable} {expected : Option (BitVec 64)}
    (hkernel : exec (execute registers c.openFile) ⟨k, c.rf, c.mem⟩ = t)
    (htable : (tableMachine w M registers).step table c = (table', expected))
    (hfiles : t.kernel.HasTable table')
    (hresult : Answers (t.rf.get (registers.fromCpuIndex v0)) expected) :
    Follows registers k table c := by
  subst hkernel
  unfold Follows Machine.next Machine.out
  rw [htable]
  exact ⟨hfiles, hresult⟩

theorem answers_none (x : BitVec w) : Answers x none := fun _ h => by cases h

theorem answers_self (value : BitVec 64) : Answers (value.setWidth w) (some value) := fun _ h => by
  cases h
  rfl

theorem follows_other (hk : k.HasTable table) (h : c.code registers ≠ 13#64
      ∧ c.code registers ≠ 14#64 ∧ c.code registers ≠ 15#64 ∧ c.code registers ≠ 16#64) :
    Follows registers k table c := by
  have hregs : v0 < c.rf.maxReg := lt_trans (by decide) c.hasArguments
  have htable : (tableMachine w M registers).step table c = (table, none) := by
    obtain ⟨h₁, h₂, h₃, h₄⟩ := h
    simp [tableMachine, h₁, h₂, h₃, h₄]
  refine follows_of_exec rfl htable ?_ (answers_none _)
  exact (spares_execute (s := ⟨k, c.rf, c.mem⟩) hregs fun _ hcode => hcode ▸ h).hasTable hk

theorem HasTable.close (hk : k.HasTable table) (d : BitVec 64) :
    ({ k with files := fun d' => d' != d && k.files d' } : MARSKernel).HasTable
      (table.put d none) where
  nextDescriptor_eq := by rw [length_put, ← hk.nextDescriptor_eq]
  files_eq d' := by
    by_cases hd : d' = d
    · rw [hd, lookup_put_none]
      simp
    · rw [lookup_put_of_ne hd, ← hk.files_eq]
      simp [hd]
  streams_eq d' stream hs := by
    by_cases hd : d' = d
    · rw [hd, lookup_put_none] at hs
      cases hs
    · rw [lookup_put_of_ne hd] at hs
      exact hk.streams_eq d' stream hs

theorem HasTable.setStream (hk : k.HasTable table) {d : BitVec 64} {stream : Stream}
    (h : table.lookup d = some stream) (stream' : Stream) :
    (k.setStream (.user d) stream').HasTable (table.put d (some stream')) where
  nextDescriptor_eq := by
    rw [length_put, ← hk.nextDescriptor_eq]
    rfl
  files_eq d' := by
    by_cases hd : d' = d
    · rw [hd, lookup_put_some h]
      exact (hk.files_eq d).trans (by rw [h]; rfl)
    · rw [lookup_put_of_ne hd]
      exact hk.files_eq d'
  streams_eq d' file hs := by
    by_cases hd : d' = d
    · rw [hd, lookup_put_some h] at hs
      cases hs
      rw [hd, streams_setStream]
    · rw [lookup_put_of_ne hd] at hs
      rw [streams_setStream_of_ne (by simpa using hd)]
      exact hk.streams_eq d' file hs

theorem HasTable.open (hk : k.HasTable table) (hroom : 3 + table.length < 2 ^ 64)
    (file : Stream) :
    ({ k.setStream (.user k.nextDescriptor) file with
        files := fun d => d == k.nextDescriptor || k.files d
        nextDescriptor := k.nextDescriptor + 1#64 } : MARSKernel).HasTable
      (table ++ [some file]) where
  nextDescriptor_eq := by
    rw [hk.nextDescriptor_eq, List.length_append, FileTable.descriptor, FileTable.descriptor,
      ← BitVec.ofNat_add]
    rfl
  files_eq d := by
    rw [lookup_append hroom, ← hk.nextDescriptor_eq]
    split_ifs with hd
    · simp [hd]
    · simp [hd, hk.files_eq]
  streams_eq d stream hs := by
    rw [lookup_append hroom, ← hk.nextDescriptor_eq] at hs
    split_ifs at hs with hd
    · cases hs
      rw [hd]
      exact streams_setStream k file
    · exact (streams_setStream_of_ne (by simpa using hd) file).trans (hk.streams_eq d stream hs)

omit [FuncMemory M] in
theorem exec_closeFile : exec (closeFile registers) (⟨k, c.rf, c.mem⟩ : MARSSystem w M)
    = if c.descriptor registers < 3#64 then ⟨k, c.rf, c.mem⟩
      else ⟨{ k with files := fun d => d != c.descriptor registers && k.files d }, c.rf, c.mem⟩ := by
  have hdescriptor := @run_readCpuRegister w M registers ⟨k, c.rf, c.mem⟩ a0
    (lt_trans (by decide) c.hasArguments)
  have hvalue : (⟨k, c.rf, c.mem⟩ : MARSSystem w M).cpuRegister registers a0
      = c.descriptor registers := rfl
  rw [closeFile, exec, run_bind_ok hdescriptor, hvalue]
  split_ifs <;> rfl

theorem run_filename (h : strlen c.mem (c.descriptor registers) < 2 ^ 63) :
    (readString (c.descriptor registers) : Action w M _).run.run ⟨k, c.rf, c.mem⟩
      = (.ok (c.filename registers), ⟨k, c.rf, c.mem⟩) := by
  rw [readString, run_get_bind, readStringBySize, run_bind_ok (run_vector h)]
  rfl

theorem run_filename_large (h : ¬ strlen c.mem (c.descriptor registers) < 2 ^ 63) :
    (readString (c.descriptor registers) : Action w M _).run.run ⟨k, c.rf, c.mem⟩
      = (.error (.simulator .lengthError), ⟨k, c.rf, c.mem⟩) := by
  rw [readString, run_get_bind, readStringBySize, run_bind_error (run_vector_large h)]

theorem exec_openFileCall_some (h : strlen c.mem (c.descriptor registers) < 2 ^ 63)
    {file : Stream} (hopened : c.opened registers = some file)
    (hfree : k.files k.nextDescriptor = false) :
    exec (openFileCall registers c.openFile) ⟨k, c.rf, c.mem⟩
      = ⟨{ k.setStream (.user k.nextDescriptor) file with
            files := fun d => d == k.nextDescriptor || k.files d
            nextDescriptor := k.nextDescriptor + 1#64 },
          c.rf.set (registers.fromCpuIndex v0) (k.nextDescriptor.setWidth w), c.mem⟩ := by
  have hv : ∀ r ≤ 6, r < c.rf.maxReg := fun r hr => lt_of_le_of_lt hr c.hasArguments
  have hopened' : c.openFile (c.filename registers)
      (getOpenmode ((⟨k, c.rf, c.mem⟩ : MARSSystem w M).cpuRegister registers a1)) = some file :=
    hopened
  have hname : (readString ((⟨k, c.rf, c.mem⟩ : MARSSystem w M).cpuRegister registers a0)
      : Action w M _).run.run ⟨k, c.rf, c.mem⟩ = _ := run_filename h
  rw [openFileCall, exec, run_bind_ok (run_readCpuRegister (hv a0 (by decide))),
    run_bind_ok (run_readCpuRegister (hv a1 (by decide))), run_bind_ok hname, hopened']
  dsimp only
  rw [run_get_bind]
  dsimp only
  rw [hfree, Bool.not_false, if_pos rfl]
  have hset (s t : MARSSystem w M) : (set t : Action w M _).run.run s = (.ok ⟨⟩, t) := rfl
  rw [run_bind_ok (hset _ _), run_bind_ok (run_writeCpuRegister (hv v0 (by decide)) (by decide) _)]
  rfl

theorem exec_openFileCall_none (h : strlen c.mem (c.descriptor registers) < 2 ^ 63)
    (hopened : c.opened registers = none) :
    exec (openFileCall registers c.openFile) ⟨k, c.rf, c.mem⟩
      = exec (ioFailure registers) ⟨k, c.rf, c.mem⟩ := by
  have hv : ∀ r ≤ 6, r < c.rf.maxReg := fun r hr => lt_of_le_of_lt hr c.hasArguments
  have hopened' : c.openFile (c.filename registers)
      (getOpenmode ((⟨k, c.rf, c.mem⟩ : MARSSystem w M).cpuRegister registers a1)) = none :=
    hopened
  have hname : (readString ((⟨k, c.rf, c.mem⟩ : MARSSystem w M).cpuRegister registers a0)
      : Action w M _).run.run ⟨k, c.rf, c.mem⟩ = _ := run_filename h
  rw [openFileCall, exec, run_bind_ok (run_readCpuRegister (hv a0 (by decide))),
    run_bind_ok (run_readCpuRegister (hv a1 (by decide))), run_bind_ok hname, hopened']
  rfl

/-- A name that is too long is not even read. -/
theorem exec_openFileCall_error (h : ¬ strlen c.mem (c.descriptor registers) < 2 ^ 63) :
    exec (openFileCall registers c.openFile) ⟨k, c.rf, c.mem⟩ = ⟨k, c.rf, c.mem⟩ := by
  have hv : ∀ r ≤ 6, r < c.rf.maxReg := fun r hr => lt_of_le_of_lt hr c.hasArguments
  have hname : (readString ((⟨k, c.rf, c.mem⟩ : MARSSystem w M).cpuRegister registers a0)
      : Action w M _).run.run ⟨k, c.rf, c.mem⟩ = _ := run_filename_large h
  rw [openFileCall, exec, run_bind_ok (run_readCpuRegister (hv a0 (by decide))),
    run_bind_ok (run_readCpuRegister (hv a1 (by decide))), run_bind_error hname]

theorem run_buffer (h : c.writeSize registers < 2 ^ 63) :
    (readStringLimited (c.register registers a1) (c.count registers) : Action w M _).run.run
        ⟨k, c.rf, c.mem⟩
      = (.ok (c.guestString (c.register registers a1) (c.writeSize registers)),
        ⟨k, c.rf, c.mem⟩) := by
  have hvector := run_vector (s := (⟨k, c.rf, c.mem⟩ : MARSSystem w M)) h
  rw [SystemCall.writeSize] at hvector
  rw [readStringLimited, run_get_bind, readStringBySize, run_bind_ok hvector]
  rfl

theorem run_buffer_large (h : ¬ c.writeSize registers < 2 ^ 63) :
    (readStringLimited (c.register registers a1) (c.count registers) : Action w M _).run.run
        ⟨k, c.rf, c.mem⟩
      = (.error (.simulator .lengthError), ⟨k, c.rf, c.mem⟩) := by
  have hvector := run_vector_large (s := (⟨k, c.rf, c.mem⟩ : MARSSystem w M)) h
  rw [SystemCall.writeSize] at hvector
  rw [readStringLimited, run_get_bind, readStringBySize, run_bind_error hvector]

/-- Where a call on a descriptor finds its stream. -/
inductive Finds (table : FileTable) (d : BitVec 64) : Option StreamRef → Prop
  | host (n : ℕ) : d.toNat < 3 → Finds table d (some (.host n))
  | missing : table.lookup d = none → Finds table d none
  | user {stream : Stream} : table.lookup d = some stream → Finds table d (some (.user d))

theorem lookup_small {d : BitVec 64} (h : d.toNat < 3) : table.lookup d = none := if_pos h

theorem HasTable.findUser (hk : k.HasTable table) (d : BitVec 64) :
    Finds table d (k.findUserFileByDescriptor d) := by
  unfold findUserFileByDescriptor
  have hfiles := hk.files_eq d
  rcases hlookup : table.lookup d with _ | stream <;> rw [hlookup] at hfiles <;> rw [hfiles]
  · exact .missing hlookup
  · exact .user hlookup

theorem HasTable.findIn (hk : k.HasTable table) (d : BitVec 64) :
    Finds table d (k.findInFileByDescriptor d) := by
  unfold findInFileByDescriptor
  split_ifs with h₀ h₁
  · exact .host _ (by rw [h₀]; decide)
  · refine .missing (lookup_small ?_)
    rcases h₁ with rfl | rfl <;> decide
  · exact hk.findUser d

theorem HasTable.findOut (hk : k.HasTable table) (d : BitVec 64) :
    Finds table d (k.findOutFileByDescriptor d) := by
  unfold findOutFileByDescriptor
  split_ifs with h₀ h₁ h₂
  · exact .missing (lookup_small (by rw [h₀]; decide))
  · exact .host _ (by rw [h₁]; decide)
  · exact .host _ (by rw [h₂]; decide)
  · exact hk.findUser d

end Steps

section Follows

variable {registers : RegisterSet} {k : MARSKernel} {table : FileTable} {c : SystemCall w M}
  (hk : k.HasTable table)
include hk

/-- A descriptor that is not open. -/
theorem follows_failure {expected : Option (BitVec 64)}
    (hexec : exec (execute registers c.openFile) ⟨k, c.rf, c.mem⟩
      = exec (ioFailure registers) ⟨k, c.rf, c.mem⟩)
    (htable : (tableMachine w M registers).step table c = (table, expected))
    (hexpected : ∀ value ∈ expected, value = allOnes 64) : Follows registers k table c := by
  have hregs : v0 < c.rf.maxReg := lt_trans (by decide) c.hasArguments
  rw [ioFailure, exec, exec, run_writeCpuRegister hregs (by decide)] at hexec
  refine follows_of_exec hexec htable hk fun value hvalue => ?_
  rw [hexpected value hvalue, RF.get_set, if_pos rfl]

theorem follows_close (hcode : c.code registers = 16#64) : Follows registers k table c := by
  have htable : (tableMachine w M registers).step table c
      = (table.put (c.descriptor registers) none, none) := by
    simp [tableMachine, hcode]
  have hexec := exec_execute (s := ⟨k, c.rf, c.mem⟩)
    (show v0 < c.rf.maxReg from lt_trans (by decide) c.hasArguments)
    (show call registers c.openFile (c.code registers).toNat = _ by rw [hcode]; rfl)
  refine follows_of_exec (hexec.trans exec_closeFile) htable ?_ (answers_none _)
  split_ifs with hsmall
  · have hput : table.put (c.descriptor registers) none = table := if_pos hsmall
    rw [hput]
    exact hk
  · exact hk.close (c.descriptor registers)

theorem follows_open (hcode : c.code registers = 13#64) (hroom : 3 + table.length < 2 ^ 64) :
    Follows registers k table c := by
  have hregs : v0 < c.rf.maxReg := lt_trans (by decide) c.hasArguments
  have hexec := exec_execute (s := ⟨k, c.rf, c.mem⟩) hregs
    (show call registers c.openFile (c.code registers).toNat = _ by rw [hcode]; rfl)
  have hstep : (tableMachine w M registers).step table c
      = if strlen c.mem (c.descriptor registers) < 2 ^ 63 then table.afterOpen (c.opened registers)
        else (table, none) := if_pos hcode
  by_cases hlen : strlen c.mem (c.descriptor registers) < 2 ^ 63
  · rw [if_pos hlen] at hstep
    rcases hopened : c.opened registers with _ | file <;> rw [hopened] at hstep
    · refine follows_failure hk (hexec.trans (exec_openFileCall_none hlen hopened)) hstep ?_
      intro value hvalue
      cases hvalue
      rfl
    · have hfree : k.files k.nextDescriptor = false := by
        rw [hk.files_eq, hk.nextDescriptor_eq, FileTable.lookup, toNat_descriptor hroom]
        simp
      refine follows_of_exec (hexec.trans (exec_openFileCall_some hlen hopened hfree)) hstep
        (hk.open hroom file) ?_
      rw [RF.get_set, if_pos rfl, hk.nextDescriptor_eq]
      exact answers_self _
  · rw [if_neg hlen] at hstep
    exact follows_of_exec (hexec.trans (exec_openFileCall_error hlen)) hstep hk (answers_none _)

omit hk in
theorem kernel_exec_memcpyHostToGuest (dst : Addr) (src : List Byte) (s : MARSSystem w M) :
    (exec (memcpyHostToGuest dst src) s).kernel = s.kernel := by
  rcases h : FuncMemory.memcpyHostToGuest s.mem dst src with e | mem
  · rw [exec, run_memcpyHostToGuest_error h]
  · rw [exec, run_memcpyHostToGuest_ok h]

omit [FuncMemory M] hk in
theorem sameFiles_setStream (n : ℕ) (stream : Stream) :
    k.SameFiles (k.setStream (.host n) stream) := by
  have hne (d : BitVec 64) : StreamRef.user d ≠ .host n := nofun
  exact ⟨rfl, rfl, fun d => streams_setStream_of_ne (hne d) _⟩

/-- A call on a descriptor leaves what it does on the stream that it finds. -/
theorem follows_onDescriptor {found : Option StreamRef}
    (hcode : c.code registers = 14#64 ∨ c.code registers = 15#64)
    (hfound : Finds table (c.descriptor registers) found)
    (hmissing : found = none → exec (execute registers c.openFile) ⟨k, c.rf, c.mem⟩
      = exec (ioFailure registers) ⟨k, c.rf, c.mem⟩)
    (hstream : ∀ {file}, found = some file →
      (exec (execute registers c.openFile) ⟨k, c.rf, c.mem⟩).kernel
        = k.setStream file (c.onFile registers (k.streams file))) :
    Follows registers k table c := by
  have hnot : c.code registers ≠ 13#64 := by
    rcases hcode with h | h <;> rw [h] <;> decide
  have hstep : (tableMachine w M registers).step table c
      = table.afterAccess (c.descriptor registers) (c.onFile registers) := by
    simp only [tableMachine, if_neg hnot, if_pos hcode]
  unfold FileTable.afterAccess at hstep
  cases hfound with
  | host n hsmall =>
    rw [lookup_small hsmall] at hstep
    dsimp only at hstep
    rw [if_pos hsmall] at hstep
    refine follows_of_exec rfl hstep ?_ (answers_none _)
    rw [hstream rfl]
    exact (sameFiles_setStream n _).hasTable hk
  | missing hlookup =>
    rw [hlookup] at hstep
    refine follows_failure hk (hmissing rfl) hstep fun value hvalue => ?_
    split_ifs at hvalue
    · cases hvalue
    · cases hvalue
      rfl
  | user hlookup =>
    rw [hlookup] at hstep
    refine follows_of_exec rfl hstep ?_ (answers_none _)
    rw [hstream rfl, hk.streams_eq _ _ hlookup]
    exact hk.setStream hlookup _

theorem follows_read (hcode : c.code registers = 14#64) : Follows registers k table c := by
  have hregs : 6 < c.rf.maxReg := c.hasArguments
  have hexec := exec_execute (s := ⟨k, c.rf, c.mem⟩)
    (show v0 < c.rf.maxReg from lt_trans (by decide) hregs)
    (show call registers c.openFile (c.code registers).toNat = _ by rw [hcode]; rfl)
  refine follows_onDescriptor hk (.inl hcode) (hk.findIn _) (fun hn => ?_) fun {file} hfile => ?_
  · have hn' : k.findInFileByDescriptor
        ((⟨k, c.rf, c.mem⟩ : MARSSystem w M).cpuRegister registers a0) = none := hn
    rw [hexec, readFromFile, exec, run_readArguments hregs, hn']
    rfl
  · have hrun := @MARSSystem.run_readFromFile _ _ _ registers ⟨k, c.rf, c.mem⟩ _ hregs hfile
    have hcount : (⟨k, c.rf, c.mem⟩ : MARSSystem w M).count registers = c.count registers := rfl
    rw [hexec, exec, hrun, hcount, SystemCall.onFile, if_pos hcode]
    by_cases hlen : c.count registers < 2 ^ 63
    · rw [if_pos hlen, if_pos hlen]
      exact kernel_exec_memcpyHostToGuest _ _ _
    · rw [if_neg hlen, if_neg hlen, setStream_self]

theorem follows_write (hcode : c.code registers = 15#64) : Follows registers k table c := by
  have hregs : 6 < c.rf.maxReg := c.hasArguments
  have hv0 : v0 < c.rf.maxReg := lt_trans (by decide) hregs
  have hexec := exec_execute (s := ⟨k, c.rf, c.mem⟩) hv0
    (show call registers c.openFile (c.code registers).toNat = _ by rw [hcode]; rfl)
  refine follows_onDescriptor hk (.inr hcode) (hk.findOut _) (fun hn => ?_) fun {file} hfile => ?_
  · have hn' : k.findOutFileByDescriptor
        ((⟨k, c.rf, c.mem⟩ : MARSSystem w M).cpuRegister registers a0) = none := hn
    rw [hexec, writeToFile, exec, run_readArguments hregs, hn']
    rfl
  · have hnot : c.code registers ≠ 14#64 := by rw [hcode]; decide
    have hfile' : k.findOutFileByDescriptor
        ((⟨k, c.rf, c.mem⟩ : MARSSystem w M).cpuRegister registers a0) = some file := hfile
    rw [hexec, exec, SystemCall.onFile, if_neg hnot, writeToFile, run_readArguments hregs, hfile']
    dsimp only
    by_cases hlen : c.writeSize registers < 2 ^ 63
    · have hbuffer : (readStringLimited ((⟨k, c.rf, c.mem⟩ : MARSSystem w M).cpuRegister registers
          a1) ((⟨k, c.rf, c.mem⟩ : MARSSystem w M).cpuRegister registers a2).toNat
          : Action w M _).run.run ⟨k, c.rf, c.mem⟩ = _ := run_buffer hlen
      unfold print
      rw [if_pos hlen, run_bind_ok hbuffer, run_bind_ok (run_onStream _),
        run_bind_ok (run_onStream _), run_bind_ok (run_onStream _)]
      simp only [streams_setStream, setStream_setStream]
      rw [run_writeCpuRegister hv0 (by decide)]
    · have hbuffer : (readStringLimited ((⟨k, c.rf, c.mem⟩ : MARSSystem w M).cpuRegister registers
          a1) ((⟨k, c.rf, c.mem⟩ : MARSSystem w M).cpuRegister registers a2).toNat
          : Action w M _).run.run ⟨k, c.rf, c.mem⟩ = _ := run_buffer_large hlen
      rw [if_neg hlen, run_bind_error hbuffer, setStream_self]

theorem follows (hroom : 3 + table.length < 2 ^ 64) : Follows registers k table c := by
  by_cases h₁₃ : c.code registers = 13#64
  · exact follows_open hk h₁₃ hroom
  by_cases h₁₄ : c.code registers = 14#64
  · exact follows_read hk h₁₄
  by_cases h₁₅ : c.code registers = 15#64
  · exact follows_write hk h₁₅
  by_cases h₁₆ : c.code registers = 16#64
  · exact follows_close hk h₁₆
  exact follows_other hk ⟨h₁₃, h₁₄, h₁₅, h₁₆⟩

variable (registers table) in
omit hk in
/-- A call adds a row at most. -/
theorem length_next (c : SystemCall w M) :
    ((tableMachine w M registers).next table c).length ≤ table.length + 1 := by
  unfold Machine.next tableMachine
  dsimp only
  split_ifs
  · rcases c.opened registers with _ | file <;> simp [FileTable.afterOpen]
  · exact Nat.le_succ _
  · unfold FileTable.afterAccess
    rcases table.lookup (c.descriptor registers) with _ | stream <;> simp
  · simp
  · exact Nat.le_succ _

end Follows

section Run

/-- No file is open, and none was. -/
structure IsFresh (k : MARSKernel) : Prop where
  files_eq (d : BitVec 64) : k.files d = false
  nextDescriptor_eq : k.nextDescriptor = 3#64

theorem IsFresh.hasTable {k : MARSKernel} (h : k.IsFresh) : k.HasTable [] where
  nextDescriptor_eq := h.nextDescriptor_eq
  files_eq d := by
    rw [h.files_eq, FileTable.lookup]
    split_ifs <;> rfl
  streams_eq d stream hs := by
    have hnone : FileTable.lookup [] d = none := by
      unfold FileTable.lookup
      split_ifs <;> rfl
    rw [hnone] at hs
    cases hs

variable (registers : RegisterSet)

theorem hasTable_run : ∀ (calls : List (SystemCall w M)) {k : MARSKernel} {table : FileTable},
    k.HasTable table → 3 + table.length + calls.length ≤ 2 ^ 64 →
    ((kernelMachine w M registers).run k calls).HasTable
        ((tableMachine w M registers).run table calls)
      ∧ List.Forall₂ Answers ((kernelMachine w M registers).outputs k calls)
        ((tableMachine w M registers).outputs table calls)
  | [], _, _, hk, _ => ⟨hk, .nil⟩
  | c :: calls, k, table, hk, hroom => by
    have hstep : Follows registers k table c := follows hk (by rw [List.length_cons] at hroom; omega)
    have hlen := length_next registers table c
    have ih := hasTable_run calls hstep.1 (by rw [List.length_cons] at hroom; omega)
    exact ⟨ih.1, .cons hstep.2 ih.2⟩

/-- Over every sequence of system calls the kernel has the files of the table, and gives the
results that the table fixes. -/
theorem run_follows_table {k : MARSKernel} (hfresh : k.IsFresh) (calls : List (SystemCall w M))
    (hroom : 3 + calls.length ≤ 2 ^ 64) :
    ((kernelMachine w M registers).run k calls).HasTable
        ((tableMachine w M registers).run [] calls)
      ∧ List.Forall₂ Answers ((kernelMachine w M registers).outputs k calls)
        ((tableMachine w M registers).outputs [] calls) :=
  hasTable_run registers calls hfresh.hasTable (by simpa using hroom)

theorem six_lt_maxReg : 6 < MipsRegister.maxReg := by decide

/-- A call with its number and a descriptor, on a host that opens every file. -/
def smallCall (code descriptor : BitVec 32) : SystemCall 32 PlainMemory where
  rf := ((RF.zeroed 32 MipsRegister.maxReg).set (MipsRegister.fromCpuIndex v0) code).set
    (MipsRegister.fromCpuIndex a0) descriptor
  mem := .create 3 PlainMemory.three_bits_lt fun _ => 0#8
  openFile _ _ := some { bytes := [] }
  hasArguments := six_lt_maxReg

/-- A descriptor is not given again after it was closed. -/
theorem run_follows_table_closed : ∃ x, (kernelMachine 32 PlainMemory .mips).outputs
    (MARSSystem.echoSystem 32 []).kernel
      [smallCall 13#32 0#32, smallCall 16#32 3#32, smallCall 13#32 0#32]
      = [3#32, x, 4#32] := by
  have h := (run_follows_table .mips (k := (MARSSystem.echoSystem 32 []).kernel)
    ⟨fun _ => rfl, rfl⟩ [smallCall 13#32 0#32, smallCall 16#32 3#32, smallCall 13#32 0#32]
    (by decide)).2
  have htable : (tableMachine 32 PlainMemory .mips).outputs []
      [smallCall 13#32 0#32, smallCall 16#32 3#32, smallCall 13#32 0#32]
      = [some 3#64, none, some 4#64] := by decide
  rw [htable] at h
  obtain ⟨x, xs, hx, hclosed, heq⟩ := List.forall₂_cons_right_iff.1 h
  obtain ⟨y, ys, -, hopened, rfl⟩ := List.forall₂_cons_right_iff.1 hclosed
  obtain ⟨z, zs, hz, hend, rfl⟩ := List.forall₂_cons_right_iff.1 hopened
  obtain rfl := List.forall₂_nil_right_iff.1 hend
  exact ⟨y, heq.trans (by rw [hx _ rfl, hz _ rfl]; rfl)⟩

end Run

end MARSKernel

end MiptMips
