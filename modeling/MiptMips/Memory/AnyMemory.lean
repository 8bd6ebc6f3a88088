import MiptMips.Lib.Steps
import MiptMips.Lib.Throwing
import MiptMips.Memory.FlatMemory
import MiptMips.Memory.PlainMemory

/-!
# The memories of the simulators

A memory is a plain or a hierarchied one; both copy exactly the bytes they cover. One of them is
duplicated to another by copying all that it holds.
-/

namespace MiptMips

open Machines FuncMemory LawfulFuncMemory

inductive AnyMemory where
  | plain (memory : PlainMemory)
  | hierarchied (memory : HierarchiedMemory)

section Duplicate

variable {T : Type} [FuncMemory T]

/-- A copy into a memory that stays as it is when the copy throws. -/
def copyTo (dst : Addr) (src : List Byte) : Throwing SimException T PUnit := do
  let target ← get
  match memcpyHostToGuest target dst src with
  | .ok target => set target
  | .error e => throw e

theorem exec_copyTo {target t : T} {dst : Addr} {src : List Byte}
    (h : memcpyHostToGuest target dst src = .ok t) : Throwing.exec (copyTo dst src) target = t := by
  have hbody : Throwing.exec (match memcpyHostToGuest target dst src with
    | .ok target => set target
    | .error e => (throw e : Throwing SimException T PUnit)) target = t := by
    rw [h]
    rfl
  exact hbody

def PlainMemory.duplicateTo (m : PlainMemory) : Throwing SimException T PUnit :=
  copyTo 0#64 m.arena

def HierarchiedMemory.getAddr (m : HierarchiedMemory) (setIndex pageIndex offset : ℕ) : Addr :=
  (BitVec.ofNat 64 setIndex <<< (m.pageBits + m.offsetBits))
    ||| (BitVec.ofNat 64 pageIndex <<< m.offsetBits) ||| BitVec.ofNat 64 offset

def HierarchiedMemory.duplicateTo (m : HierarchiedMemory) : Throwing SimException T PUnit :=
  m.memory.zipIdx.forM fun (pages, setIndex) =>
    pages.zipIdx.forM fun (page, pageIndex) => copyTo (m.getAddr setIndex pageIndex 0) page

def AnyMemory.duplicateTo : AnyMemory → Throwing SimException T PUnit
  | .plain m => m.duplicateTo
  | .hierarchied m => m.duplicateTo

end Duplicate

namespace AnyMemory

section Access

instance : FuncMemory AnyMemory where
  memcpyGuestToHost
    | .plain m => FuncMemory.memcpyGuestToHost m
    | .hierarchied m => FuncMemory.memcpyGuestToHost m
  memcpyHostToGuest
    | .plain m, dst, src => (FuncMemory.memcpyHostToGuest m dst src).map .plain
    | .hierarchied m, dst, src => (FuncMemory.memcpyHostToGuest m dst src).map .hierarchied
  strlen
    | .plain m => FuncMemory.strlen m
    | .hierarchied m => FuncMemory.strlen m
  byteAt
    | .plain m => FuncMemory.byteAt m
    | .hierarchied m => FuncMemory.byteAt m

instance : LawfulFuncMemory AnyMemory where
  size
    | .plain m => LawfulFuncMemory.size m
    | .hierarchied m => LawfulFuncMemory.size m
  canon
    | .plain m => LawfulFuncMemory.canon m
    | .hierarchied m => LawfulFuncMemory.canon m
  size_eq
    | .plain m => LawfulFuncMemory.size_eq m
    | .hierarchied m => LawfulFuncMemory.size_eq m
  canon_of_lt {m} _ h := by
    cases m with
    | plain m => exact LawfulFuncMemory.canon_of_lt (m := m) h
    | hierarchied m => exact LawfulFuncMemory.canon_of_lt (m := m) h
  canon_mod {m} _ h := by
    cases m with
    | plain m => exact LawfulFuncMemory.canon_mod (m := m) h
    | hierarchied m => exact LawfulFuncMemory.canon_mod (m := m) h
  byteAt_canon
    | .plain m => LawfulFuncMemory.byteAt_canon m
    | .hierarchied m => LawfulFuncMemory.byteAt_canon m
  guest_to_host
    | .plain m => LawfulFuncMemory.guest_to_host m
    | .hierarchied m => LawfulFuncMemory.guest_to_host m
  host_to_guest {m addr bytes} h := by
    cases m with
    | plain m =>
      obtain ⟨m', hm, hs, hc, hb⟩ := LawfulFuncMemory.host_to_guest (m := m) h
      exact ⟨.plain m', congrArg (Except.map plain) hm, hs, hc, hb⟩
    | hierarchied m =>
      obtain ⟨m', hm, hs, hc, hb⟩ := LawfulFuncMemory.host_to_guest (m := m) h
      exact ⟨.hierarchied m', congrArg (Except.map hierarchied) hm, hs, hc, hb⟩
  host_to_guest_error {m addr bytes} h := by
    cases m with
    | plain m =>
      obtain ⟨e, he⟩ := LawfulFuncMemory.host_to_guest_error (m := m) h
      exact ⟨e, congrArg (Except.map plain) he⟩
    | hierarchied m =>
      obtain ⟨e, he⟩ := LawfulFuncMemory.host_to_guest_error (m := m) h
      exact ⟨e, congrArg (Except.map hierarchied) he⟩

theorem size_lt (m : AnyMemory) : size m < 2 ^ 64 := by
  cases m with
  | plain m =>
    show m.arena.length < 2 ^ 64
    rw [m.length_arena]
    exact Nat.pow_lt_pow_right (by decide) m.bits_lt
  | hierarchied m => exact BitVec.isLt _

end Access

section Fresh

/-- A memory right after its creation. -/
inductive IsFresh : AnyMemory → Prop
  | plain {addrBits : ℕ} (h : addrBits < 64) (host : Addr → Byte) :
    IsFresh (.plain (PlainMemory.create addrBits h host))
  | hierarchied {addrBits pageBits offsetBits : BitVec 32} {m : HierarchiedMemory}
    (h : HierarchiedMemory.create addrBits pageBits offsetBits = .ok m) : IsFresh (.hierarchied m)

variable {m : AnyMemory}

/-- A new memory holds zeroes. -/
theorem IsFresh.byteAt_eq (h : m.IsFresh) {x : Addr} (hx : x.toNat < size m) :
    FuncMemory.byteAt m x = 0#8 := by
  cases h with
  | plain h host =>
    show (PlainMemory.create _ h host).byteAt x = 0#8
    have hx' : x.toNat < (PlainMemory.create _ h host).arena.length := hx
    rw [PlainMemory.byteAt, if_pos hx']
    exact HierarchiedMemory.getD_replicate_self _ _ _
  | hierarchied h =>
    show HierarchiedMemory.checkAndReadByte _ x = 0#8
    rw [HierarchiedMemory.checkAndReadByte_eq, (HierarchiedMemory.create_cases h).2]

/-- A new hierarchied memory has no pages yet. -/
theorem memory_create {addrBits pageBits offsetBits : BitVec 32} {m : HierarchiedMemory}
    (h : HierarchiedMemory.create addrBits pageBits offsetBits = .ok m) :
    ∀ set ∈ m.memory, set = [] := by
  unfold HierarchiedMemory.create at h
  dsimp only at h
  split_ifs at h
  cases h
  exact fun set hs => List.eq_of_mem_replicate hs

end Fresh

section Errors

variable {w : ℕ} (m : AnyMemory) (instr : FuncInstr w)

/-- Only a memory reports an access that is out of its range, and it does so in its own words. -/
theorem memcpyHostToGuest_ne_outOfRange (dst : Addr) (src : List Byte) :
    FuncMemory.memcpyHostToGuest m dst src ≠ .error .outOfRange := by
  cases m with
  | plain m =>
    show (m.memcpyHostToGuest dst src).map plain ≠ _
    unfold PlainMemory.memcpyHostToGuest
    split_ifs <;> simp [Except.map]
  | hierarchied m =>
    show (m.memcpyHostToGuest dst src).map hierarchied ≠ _
    unfold HierarchiedMemory.memcpyHostToGuest
    dsimp only
    split_ifs <;> simp [Except.map]

theorem store_ne_outOfRange : FuncMemory.store m instr ≠ .error .outOfRange := by
  unfold FuncMemory.store FuncMemory.writeInteger
  dsimp only
  split_ifs
  all_goals first
    | exact memcpyHostToGuest_ne_outOfRange _ _ _
    | simp

theorem loadStore_ne_outOfRange : FuncMemory.loadStore m instr ≠ .error .outOfRange := by
  unfold FuncMemory.loadStore
  split_ifs
  · simp
  · exact bind_ne_error (store_ne_outOfRange m instr) fun _ _ => by simp [pure, Except.pure]
  · simp

end Errors

end AnyMemory

end MiptMips
