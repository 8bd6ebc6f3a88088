import MiptMips.Memory.AnyMemory

/-!
# Replicated memory

A primary memory and its replicas: a copy goes to the primary, and then to each replica in turn.
Everything that is written is written by such copies. The primary takes a copy exactly when the
replicas do, so the copies that throw throw before anything is changed, and the replicas agree with
the primary after any sequence of writes.
-/

namespace MiptMips

open Machines Throwing FuncMemory LawfulFuncMemory

structure FuncMemoryReplicant (M : Type) where
  primary : M
  replicas : List M := []

namespace FuncMemoryReplicant

variable {w : ℕ}

section Model

variable {M : Type} [FuncMemory M]

/-- The loop over the replicas: the first one that throws leaves the ones after it as they are. -/
def copyAll (dst : Addr) (src : List Byte) : List M → List M × Option SimException
  | [] => ([], none)
  | e :: replicas =>
    match FuncMemory.memcpyHostToGuest e dst src with
    | .error failure => (e :: replicas, some failure)
    | .ok e => (e :: (copyAll dst src replicas).1, (copyAll dst src replicas).2)

abbrev Action (M : Type) (α : Type) := Throwing SimException (FuncMemoryReplicant M) α

def memcpyHostToGuest (dst : Addr) (src : List Byte) : Action M ℕ := do
  let m ← get
  match FuncMemory.memcpyHostToGuest m.primary dst src with
  | .error failure => throw failure
  | .ok primary =>
    let (replicas, failure) := copyAll dst src m.replicas
    set (FuncMemoryReplicant.mk primary replicas)
    match failure with
    | some failure => throw failure
    | none => return src.length

def memcpyHostToGuestNoexcept (dst : Addr) (src : List Byte) : Action M ℕ :=
  tryCatch (memcpyHostToGuest dst src) fun _ => return 0

def write (e : Endian) (value : BitVec w) (addr : Addr) : Action M PUnit := do
  let _ ← memcpyHostToGuest addr (unpackArray e value)

/-- A size that is no power of two up to 16 fails an assertion, and nothing is written. -/
def writeInteger (e : Endian) (value : BitVec w) (addr : Addr) (size : ℕ) : Action M PUnit :=
  if size = 1 then write e (value.setWidth 8) addr
  else if size = 2 then write e (value.setWidth 16) addr
  else if size = 4 then write e (value.setWidth 32) addr
  else if size = 8 then write e (value.setWidth 64) addr
  else if size = 16 then write e (value.setWidth 128) addr
  else return

def maskedWrite (e : Endian) (value : BitVec w) (addr : Addr) (mask : BitVec w) :
    Action M PUnit := do
  let m ← get
  write e ((value &&& mask) ||| (FuncMemory.read m.primary w e addr &&& ~~~mask)) addr

def writeStringBySize (value : List Byte) (addr : Addr) (size : ℕ) : Action M PUnit := do
  let _ ← memcpyHostToGuest addr (value.take size)

def writeString (value : List Byte) (addr : Addr) : Action M PUnit :=
  writeStringBySize value addr value.length

def writeStringLimited (value : List Byte) (addr : Addr) (size : ℕ) : Action M PUnit :=
  writeStringBySize value addr (Nat.min size value.length)

def memset (addr : Addr) (value : Byte) (size : ℕ) : Action M PUnit :=
  (List.range size).forM fun i => do
    let _ ← memcpyHostToGuest (addr.offset i) [value]

def store (instr : FuncInstr w) : Action M PUnit :=
  if instr.memAddr = 0#64 then throw .storeToZero
  else
    let fullMask := bitmask w (instr.memSize * 8)
    if instr.mask &&& fullMask = fullMask then
      writeInteger instr.endian instr.vSrc1 instr.memAddr instr.memSize
    else maskedWrite instr.endian instr.vSrc1 instr.memAddr instr.mask

/-- Everything that changes a memory through the replicant. -/
inductive Write where
  | copy (dst : Addr) (src : List Byte)
  | copyNoexcept (dst : Addr) (src : List Byte)
  | integer {w : ℕ} (e : Endian) (value : BitVec w) (addr : Addr)
  | sized {w : ℕ} (e : Endian) (value : BitVec w) (addr : Addr) (size : ℕ)
  | masked {w : ℕ} (e : Endian) (value : BitVec w) (addr : Addr) (mask : BitVec w)
  | string (value : List Byte) (addr : Addr)
  | stringLimited (value : List Byte) (addr : Addr) (size : ℕ)
  | memset (addr : Addr) (value : Byte) (size : ℕ)
  | store {w : ℕ} (instr : FuncInstr w)

def perform : Write → Action M PUnit
  | .copy dst src => do let _ ← memcpyHostToGuest dst src
  | .copyNoexcept dst src => do let _ ← memcpyHostToGuestNoexcept dst src
  | .integer e value addr => write e value addr
  | .sized e value addr size => writeInteger e value addr size
  | .masked e value addr mask => maskedWrite e value addr mask
  | .string value addr => writeString value addr
  | .stringLimited value addr size => writeStringLimited value addr size
  | .memset addr value size => FuncMemoryReplicant.memset addr value size
  | .store instr => FuncMemoryReplicant.store instr

/-- The memory after a sequence of writes, each of which may have thrown. -/
def run (m : FuncMemoryReplicant M) (writes : List Write) : FuncMemoryReplicant M :=
  runAll (writes.map perform) m

end Model

section Connect

def addReplica (m : FuncMemoryReplicant AnyMemory) (memory : AnyMemory) :
    FuncMemoryReplicant AnyMemory :=
  { m with replicas := m.replicas ++ [exec m.primary.duplicateTo memory] }

/-- A primary memory with all its replicas. -/
def connect (primary : AnyMemory) (replicas : List AnyMemory) : FuncMemoryReplicant AnyMemory :=
  replicas.foldl addReplica ⟨primary, []⟩

end Connect

section Coherent

variable {M : Type} [FuncMemory M] [LawfulFuncMemory M] {m : FuncMemoryReplicant M}

/-- Memories of one size with the same bytes. -/
structure Agree (primary e : M) : Prop where
  size_eq : size e = size primary
  byteAt_eq (x : Addr) : x.toNat < size primary → byteAt e x = byteAt primary x

def Coherent (m : FuncMemoryReplicant M) : Prop := ∀ e ∈ m.replicas, Agree m.primary e

/-- What one of two such memories takes, the other one takes, and they agree again. -/
theorem Agree.copy {primary primary' e : M} (h : Agree primary e) {dst : Addr} {src : List Byte}
    (hp : FuncMemory.memcpyHostToGuest primary dst src = .ok primary') :
    ∃ e', FuncMemory.memcpyHostToGuest e dst src = .ok e' ∧ Agree primary' e' := by
  have hin : dst.toNat + src.length ≤ size primary := by
    by_contra hout
    obtain ⟨failure, hf⟩ := host_to_guest_error (Nat.lt_of_not_le hout)
    rw [hf] at hp
    cases hp
  obtain ⟨p, hp', hps, -, hpb⟩ := host_to_guest hin
  obtain ⟨e', he', hes, -, heb⟩ := host_to_guest (m := e) (by rw [h.size_eq]; exact hin)
  rw [hp] at hp'
  cases hp'
  refine ⟨e', he', by rw [hes, hps, h.size_eq], fun x hx => ?_⟩
  rw [hps] at hx
  rw [hpb, heb, canon_of_lt hx, canon_of_lt (by rw [h.size_eq]; exact hx), h.byteAt_eq x hx]

theorem copyAll_agree {primary primary' : M} {dst : Addr} {src : List Byte}
    (hp : FuncMemory.memcpyHostToGuest primary dst src = .ok primary') :
    ∀ {replicas : List M}, (∀ e ∈ replicas, Agree primary e) →
      (∀ e ∈ (copyAll dst src replicas).1, Agree primary' e)
        ∧ (copyAll dst src replicas).1.length = replicas.length
  | [], _ => ⟨fun _ h => absurd h List.not_mem_nil, rfl⟩
  | e :: replicas, h => by
    obtain ⟨e', he', ha⟩ := (h e List.mem_cons_self).copy hp
    obtain ⟨hrest, hlength⟩ := copyAll_agree hp fun e he => h e (List.mem_cons_of_mem _ he)
    rw [copyAll, he']
    dsimp only
    refine ⟨fun x hx => ?_, by rw [List.length_cons, List.length_cons, hlength]⟩
    rcases List.mem_cons.1 hx with rfl | hx
    · exact ha
    · exact hrest x hx

/-- All replicas are there, and agree. -/
def CoherentOf (n : ℕ) (m : FuncMemoryReplicant M) : Prop := Coherent m ∧ m.replicas.length = n

variable {n : ℕ}

theorem keeps_memcpyHostToGuest (dst : Addr) (src : List Byte) :
    Keeps (CoherentOf n) (memcpyHostToGuest dst src : Action M ℕ) := by
  refine Keeps.get fun m hm => ?_
  rcases hp : FuncMemory.memcpyHostToGuest m.primary dst src with failure | primary
  · exact hm
  · obtain ⟨hagree, hlength⟩ := copyAll_agree hp hm.1
    have hnext : CoherentOf n (FuncMemoryReplicant.mk primary (copyAll dst src m.replicas).1) :=
      ⟨hagree, hlength.trans hm.2⟩
    change CoherentOf n (exec (match (copyAll dst src m.replicas).2 with
      | some failure => (throw failure : Action M ℕ)
      | none => return src.length) ⟨primary, (copyAll dst src m.replicas).1⟩)
    rcases (copyAll dst src m.replicas).2 with _ | failure
    · exact hnext
    · exact hnext

theorem keeps_copy (dst : Addr) (src : List Byte) :
    Keeps (CoherentOf n) (do let _ ← memcpyHostToGuest dst src : Action M PUnit) :=
  (keeps_memcpyHostToGuest dst src).bind fun _ => keeps_pure _

theorem keeps_writeInteger (e : Endian) (value : BitVec w) (addr : Addr) (size : ℕ) :
    Keeps (CoherentOf n) (writeInteger e value addr size : Action M PUnit) := by
  unfold writeInteger
  split_ifs
  all_goals first
    | exact keeps_copy _ _
    | exact keeps_pure _

theorem keeps_maskedWrite (e : Endian) (value : BitVec w) (addr : Addr) (mask : BitVec w) :
    Keeps (CoherentOf n) (maskedWrite e value addr mask : Action M PUnit) :=
  Keeps.get fun m hm => keeps_copy _ _ m hm

/-- Whatever is written, and wherever it stops, the replicas agree with the primary. -/
theorem keeps_perform : ∀ op : Write, Keeps (CoherentOf n) (perform op : Action M PUnit)
  | .copy _ _ => keeps_copy _ _
  | .copyNoexcept _ _ =>
    (Keeps.tryCatch (keeps_memcpyHostToGuest _ _) fun _ => keeps_pure _).bind fun _ => keeps_pure _
  | .integer _ _ _ => keeps_copy _ _
  | .sized _ _ _ _ => keeps_writeInteger _ _ _ _
  | .masked _ _ _ _ => keeps_maskedWrite _ _ _ _
  | .string _ _ => keeps_copy _ _
  | .stringLimited _ _ _ => keeps_copy _ _
  | .memset _ _ _ => keeps_forM fun _ _ => keeps_copy _ _
  | .store instr => by
    show Keeps _ (FuncMemoryReplicant.store instr)
    unfold FuncMemoryReplicant.store
    dsimp only
    split_ifs
    · exact keeps_throw _
    · exact keeps_writeInteger _ _ _ _
    · exact keeps_maskedWrite _ _ _ _

theorem coherentOf_run (hm : CoherentOf n m) (writes : List Write) : CoherentOf n (m.run writes) := by
  refine keeps_runAll (fun x hx => ?_) hm
  obtain ⟨op, -, rfl⟩ := List.mem_map.1 hx
  exact keeps_perform op

end Coherent

section Fresh

variable {primary e : AnyMemory}

/-- A new replica gets the zeroes of a new primary, or nothing. -/
theorem agree_duplicateTo (hp : primary.IsFresh) (he : e.IsFresh) (hsize : size e = size primary) :
    Agree primary (exec primary.duplicateTo e) := by
  have hzero : Agree primary e :=
    ⟨hsize, fun x hx => by rw [he.byteAt_eq (by rw [hsize]; exact hx), hp.byteAt_eq hx]⟩
  cases hp with
  | @plain addrBits h host =>
    have hlength : (PlainMemory.create addrBits h host).arena.length = size e := hsize.symm
    have hin : (0#64 : Addr).toNat + (PlainMemory.create addrBits h host).arena.length ≤ size e := by
      rw [BitVec.toNat_zero, hlength, Nat.zero_add]
    obtain ⟨e', he', hes, -, heb⟩ := host_to_guest hin
    have hexec : exec (PlainMemory.create addrBits h host).duplicateTo e = e' := exec_copyTo he'
    show Agree _ (exec (PlainMemory.create addrBits h host).duplicateTo e)
    rw [hexec]
    refine ⟨hes.trans hsize, fun x hx => ?_⟩
    rw [heb, ← hzero.byteAt_eq x hx]
    split_ifs
    · rw [he.byteAt_eq (by rw [hsize]; exact hx)]
      exact HierarchiedMemory.getD_replicate_self _ _ _
    · rfl
  | @hierarchied addrBits pageBits offsetBits m h =>
    -- there is no page to copy
    have hkeep : Keeps (· = e) (m.duplicateTo : Throwing SimException AnyMemory PUnit) := by
      refine keeps_forM fun ⟨pages, setIndex⟩ hmem => ?_
      obtain rfl : pages = [] := AnyMemory.memory_create h pages (List.fst_mem_of_mem_zipIdx hmem)
      exact keeps_pure _
    rw [show exec (AnyMemory.hierarchied m).duplicateTo e = e from hkeep e rfl]
    exact hzero

theorem coherentOf_addReplica {m : FuncMemoryReplicant AnyMemory} {n : ℕ} (hm : CoherentOf n m)
    (hp : m.primary.IsFresh) (he : e.IsFresh) (hsize : size e = size m.primary) :
    CoherentOf (n + 1) (m.addReplica e) := by
  refine ⟨fun x hx => ?_, by simp [addReplica, hm.2]⟩
  rcases List.mem_append.1 hx with hx | hx
  · exact hm.1 x hx
  · rw [List.mem_singleton.1 hx]
    exact agree_duplicateTo hp he hsize

theorem coherentOf_connect (hp : primary.IsFresh) : ∀ {replicas : List AnyMemory}
    {m : FuncMemoryReplicant AnyMemory} {n : ℕ}, m.primary = primary → CoherentOf n m →
    (∀ e ∈ replicas, e.IsFresh ∧ size e = size primary) →
    CoherentOf (n + replicas.length) (replicas.foldl addReplica m)
  | [], _, _, _, hm, _ => hm
  | e :: replicas, m, n, heq, hm, h => by
    obtain ⟨he, hsize⟩ := h e List.mem_cons_self
    rw [List.foldl_cons, List.length_cons, Nat.add_comm replicas.length, ← Nat.add_assoc]
    exact coherentOf_connect hp heq
      (coherentOf_addReplica hm (by rw [heq]; exact hp) he (by rw [heq]; exact hsize))
      fun x hx => h x (List.mem_cons_of_mem _ hx)

/-- After every sequence of writes, all replicas have the bytes of the primary. -/
theorem replicas_agree (hp : primary.IsFresh) {replicas : List AnyMemory}
    (h : ∀ e ∈ replicas, e.IsFresh ∧ size e = size primary) (writes : List Write) :
    let m := (connect primary replicas).run writes
    m.replicas.length = replicas.length ∧ ∀ e ∈ m.replicas, size e = size m.primary
      ∧ ∀ x : Addr, x.toNat < size m.primary → byteAt e x = byteAt m.primary x := by
  have hconnect : CoherentOf (0 + replicas.length) (connect primary replicas) :=
    coherentOf_connect hp rfl ⟨fun _ h => absurd h List.not_mem_nil, rfl⟩ h
  obtain ⟨hagree, hlength⟩ := coherentOf_run hconnect writes
  exact ⟨hlength.trans (Nat.zero_add _), fun e he => ⟨(hagree e he).1, (hagree e he).2⟩⟩

/-- A plain memory of sixteen bytes with a hierarchied replica; the second write is out of range. -/
theorem replicas_agree_small : ∃ e, AnyMemory.IsFresh (.hierarchied e)
    ∧ let m := (connect (.plain (PlainMemory.create 4 (by decide) fun _ => 0#8))
        [.hierarchied e]).run [.string [1#8, 2#8] 3#64, .memset 14#64 7#8 4]
      m.replicas.length = 1 ∧ ∀ e ∈ m.replicas, size e = size m.primary
        ∧ ∀ x : Addr, x.toNat < size m.primary → byteAt e x = byteAt m.primary x := by
  have hcreate : HierarchiedMemory.create 4#32 1#32 2#32 = .ok _ := rfl
  refine ⟨_, .hierarchied hcreate, replicas_agree (.plain _ _) (fun e he => ?_) _⟩
  rw [List.mem_singleton.1 he]
  exact ⟨.hierarchied hcreate, rfl⟩

end Fresh

end FuncMemoryReplicant

end MiptMips
