import MiptMips.Memory.AnyMemory

/-!
# The loader of arguments

The strings of the host are counted in an `int`, and so is the slot of a pointer. A count that does
not fit is undefined, and nothing is said about what the loader does then: it is a fault of its own
here.

A pointer is an address cut to the word of the guest.
-/

namespace MiptMips

open Machines Throwing FuncMemory

/-- A string of the host: what is before its terminator. -/
structure CString where
  bytes : List Byte
  nul_free : 0#8 ∉ bytes

namespace CString

def size (content : CString) : ℕ := content.bytes.length

end CString

inductive LoaderFault where
  /-- An `int` that overflows. -/
  | overflow
  | memory (e : SimException)
  deriving DecidableEq, Repr

section Int

/-- An addition of `int`s that are not negative. -/
def intAdd (x y : ℕ) : Except LoaderFault ℕ :=
  if x + y < 2 ^ 31 then .ok (x + y) else .error .overflow

def countArgcFrom (argc : ℕ) : List CString → Except LoaderFault ℕ
  | [] => .ok argc
  | _ :: argv => do
    let argc ← intAdd argc 1
    countArgcFrom argc argv

def countArgc (argv : List CString) : Except LoaderFault ℕ := countArgcFrom 0 argv

/-- `1 + argc + 1 + contents_offset`. -/
def envpSlot (argc contentsOffset : ℕ) : Except LoaderFault ℕ := do
  let n ← intAdd 1 argc
  let n ← intAdd n 1
  intAdd n contentsOffset

theorem envpSlot_eq (argc contentsOffset : ℕ) : envpSlot argc contentsOffset
    = if 1 + argc + 1 + contentsOffset < 2 ^ 31 then .ok (1 + argc + 1 + contentsOffset)
      else .error .overflow := by
  rw [envpSlot, intAdd]
  by_cases hargc : 1 + argc < 2 ^ 31
  · rw [if_pos hargc]
    show (do
      let n ← intAdd (1 + argc) 1
      intAdd n contentsOffset) = _
    rw [intAdd]
    by_cases hnext : 1 + argc + 1 < 2 ^ 31
    · rw [if_pos hnext]
      rfl
    · rw [if_neg hnext, if_neg (by omega)]
      rfl
  · rw [if_neg hargc, if_neg (by omega)]
    rfl

end Int

/-- The loader's offset, and the memory it loads to. -/
structure LoaderState (M : Type) where
  offset : Addr := 0#64
  mem : M

/-- The members of a loader that stay as they are. -/
structure ArgvLoader where
  argc : ℕ
  argv : Option (List CString)
  envp : Option (List CString)

namespace ArgvLoader

def create (argv envp : Option (List CString)) : Except LoaderFault ArgvLoader := do
  let argc ← match argv with
    | some argv => countArgc argv
    | none => .ok 0
  return ⟨argc, argv, envp⟩

/-- `GUEST_WORD_SIZE`. -/
def guestWordSize (w : ℕ) : ℕ := w / 8

variable {M : Type} [FuncMemory M]

abbrev Action (M : Type) (α : Type) := Throwing LoaderFault (LoaderState M) α

section Access

def int : Except LoaderFault ℕ → Action M ℕ
  | .ok n => return n
  | .error e => throw e

def memcpyHostToGuest (dst : Addr) (src : List Byte) : Action M PUnit := do
  let s ← get
  match FuncMemory.memcpyHostToGuest s.mem dst src with
  | .ok mem => set { s with mem := mem }
  | .error e => throw (.memory e)

def write {w : ℕ} (e : Endian) (value : BitVec w) (addr : Addr) : Action M PUnit :=
  memcpyHostToGuest addr (unpackArray e value)

def writeString (content : CString) (addr : Addr) : Action M PUnit :=
  memcpyHostToGuest addr content.bytes

def advance (n : ℕ) : Action M PUnit := do
  let s ← get
  set { s with offset := s.offset + BitVec.ofNat 64 n }

def placeNullptr (w : ℕ) (e : Endian) (addr : Addr) : Action M PUnit := write e 0#w addr

def placeNullterminator (e : Endian) (addr : Addr) : Action M PUnit := write e 0#8 addr

end Access

section Load

variable (w : ℕ) (e : Endian) (addr : Addr)

/-- A string is put at the offset, with its terminator. -/
def placeContent (content : CString) : Action M PUnit := do
  let s ← get
  writeString content (addr + s.offset)
  advance content.size
  let s ← get
  placeNullterminator e (addr + s.offset)
  advance 1

/-- The body of the loops: the address of the string is put into its slot. -/
def loadContent (slot : ℕ → Except LoaderFault ℕ) (content : CString) (contentsOffset : ℕ) :
    Action M PUnit := do
  let index ← int (slot contentsOffset)
  let s ← get
  write e ((addr + s.offset).setWidth w) (addr + BitVec.ofNat 64 (index * guestWordSize w))
  placeContent e addr content

def loadContents (slot : ℕ → Except LoaderFault ℕ) : List CString → ℕ → Action M PUnit
  | [], _ => return
  | content :: contents, contentsOffset => do
    loadContent w e addr slot content contentsOffset
    let contentsOffset ← int (intAdd contentsOffset 1)
    loadContents slot contents contentsOffset

variable (loader : ArgvLoader)

def loadArgvContents : Action M PUnit :=
  loadContents w e addr (intAdd 1) (loader.argv.getD []) 0

def loadEnvpContents (envp : List CString) : Action M PUnit :=
  loadContents w e addr (envpSlot loader.argc) envp 0

/-- The number of arguments, and the space for the pointers to them, with the null pointer after
them. -/
def reserveArgv : Action M PUnit := do
  let s ← get
  write e (BitVec.ofNat w loader.argc) (addr + s.offset)
  advance (guestWordSize w)
  advance (loader.argc * guestWordSize w)
  let s ← get
  placeNullptr w e (addr + s.offset)
  advance (guestWordSize w)

def reserveEnvp (envp : List CString) : Action M PUnit := do
  let count ← int (countArgc envp)
  advance (count * guestWordSize w)
  let s ← get
  placeNullptr w e (addr + s.offset)
  advance (guestWordSize w)

def loadTo : Action M Addr := do
  reserveArgv w e addr loader
  loader.envp.forM (reserveEnvp w e addr)
  loadArgvContents w e addr loader
  loader.envp.forM (loadEnvpContents w e addr loader)
  let s ← get
  return s.offset

end Load

section Runs

variable {s t : LoaderState M}

theorem countArgcFrom_eq : ∀ {argc : ℕ} (argv : List CString), argc < 2 ^ 31 →
    countArgcFrom argc argv
      = if argc + argv.length < 2 ^ 31 then .ok (argc + argv.length) else .error .overflow
  | argc, [], h => (if_pos h).symm
  | argc, _ :: argv, _ => by
    rw [countArgcFrom, intAdd, List.length_cons]
    by_cases hnext : argc + 1 < 2 ^ 31
    · rw [if_pos hnext, Nat.add_comm argv.length, ← Nat.add_assoc]
      exact countArgcFrom_eq argv hnext
    · rw [if_neg hnext, if_neg (by omega)]
      rfl

theorem countArgc_eq (argv : List CString) :
    countArgc argv = if argv.length < 2 ^ 31 then .ok argv.length else .error .overflow := by
  rw [countArgc, countArgcFrom_eq argv (by decide), Nat.zero_add]

theorem create_eq (argv envp : Option (List CString)) : create argv envp
    = if (argv.getD []).length < 2 ^ 31 then .ok ⟨(argv.getD []).length, argv, envp⟩
      else .error .overflow := by
  rcases argv with _ | argv
  · rfl
  · rw [create]
    dsimp only
    rw [countArgc_eq, Option.getD_some]
    split_ifs <;> rfl

omit [FuncMemory M] in
theorem run_int (n : ℕ) : (int (.ok n) : Action M ℕ).run.run s = (.ok n, s) := rfl

omit [FuncMemory M] in
theorem of_run_int {x : Except LoaderFault ℕ} {n : ℕ}
    (h : (int x : Action M ℕ).run.run s = (.ok n, t)) : x = .ok n := by
  rcases x with e | k
  · cases h
  · cases h
    rfl

omit [FuncMemory M] in
theorem run_get_bind {α : Type} (f : LoaderState M → Action M α) :
    (get >>= f).run.run s = (f s).run.run s := rfl

omit [FuncMemory M] in
theorem run_advance (offset n : ℕ) (m : M) :
    (advance n : Action M PUnit).run.run ⟨BitVec.ofNat 64 offset, m⟩
      = (.ok ⟨⟩, ⟨BitVec.ofNat 64 (offset + n), m⟩) := by
  rw [advance, run_get_bind, BitVec.ofNat_add]
  rfl

theorem run_memcpyHostToGuest {dst : Addr} {src : List Byte} {m : M}
    (h : FuncMemory.memcpyHostToGuest s.mem dst src = .ok m) :
    (memcpyHostToGuest dst src : Action M PUnit).run.run s = (.ok ⟨⟩, { s with mem := m }) := by
  rw [memcpyHostToGuest, run_get_bind, h]
  rfl

/-- Where the strings are loaded, all their slots have a number. -/
theorem exists_slot {w : ℕ} {e : Endian} {addr : Addr} {slot : ℕ → Except LoaderFault ℕ} :
    ∀ {contents : List CString} {i : ℕ} {s t : LoaderState M},
      (loadContents w e addr slot contents i).run.run s = (.ok ⟨⟩, t) →
      ∀ j < contents.length, ∃ n, slot (i + j) = .ok n
  | [], _, _, _, _, j, hj => absurd hj (Nat.not_lt_zero j)
  | content :: contents, i, s, t, h, j, hj => by
    rw [loadContents] at h
    obtain ⟨_, _, hbody, h⟩ := exists_of_run_bind h
    obtain ⟨i', _, hnext, h⟩ := exists_of_run_bind h
    rcases j with _ | j
    · rw [loadContent] at hbody
      obtain ⟨n, _, hslot, -⟩ := exists_of_run_bind hbody
      exact ⟨n, of_run_int hslot⟩
    · have hi : i' = i + 1 := by
        have hint := of_run_int hnext
        rw [intAdd] at hint
        split_ifs at hint
        exact (Except.ok.inj hint).symm
      rw [Nat.add_comm j, ← Nat.add_assoc, ← hi]
      exact exists_slot h j (Nat.lt_of_succ_lt_succ hj)

end Runs

end ArgvLoader

end MiptMips
