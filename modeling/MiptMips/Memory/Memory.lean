import MiptMips.FuncSim.Operation
import MiptMips.Infra.Exception

/-!
# Guest memory

A memory copies bytes between guest and host; everything else is built from the two copies. A read
gives as many bytes as the memory copies, and the rest of the host buffer is left as it was: those
bytes are indeterminate, and so are the ones a copy takes from outside of the memory. `byteAt` says
what is seen there, and nothing below assumes anything about it outside of the memory.

`LawfulFuncMemory` is what the simulators rely on: a copy into the memory either throws, or changes
exactly the bytes it covers. Addresses outside of a memory may be aliases of addresses inside it.
-/

namespace MiptMips

class FuncMemory (M : Type) where
  /-- The bytes that are copied, at most as many as asked for. -/
  memcpyGuestToHost : M → Addr → ℕ → List Byte
  memcpyHostToGuest : M → Addr → List Byte → Except SimException M
  strlen : M → Addr → ℕ
  /-- The byte that a load sees at an address. -/
  byteAt : M → Addr → Byte

/-- The address `i` bytes on. -/
def Addr.offset (addr : Addr) (i : ℕ) : Addr := addr + BitVec.ofNat 64 i

namespace FuncMemory

variable {M : Type} [FuncMemory M] {w : ℕ}

section Access

variable (m : M)

/-- A host buffer of `n` bytes after the copy. -/
def readBytes (addr : Addr) (n : ℕ) : List Byte :=
  let copied := memcpyGuestToHost m addr n
  copied ++ (List.range (n - copied.length)).map fun i => byteAt m (addr.offset (copied.length + i))

def read (w : ℕ) (e : Endian) (addr : Addr) : BitVec w := packArray w e (readBytes m addr (w / 8))

def write (e : Endian) (value : BitVec w) (addr : Addr) : Except SimException M :=
  memcpyHostToGuest m addr (unpackArray e value)

/-- A size that is no power of two up to 16 fails an assertion, and nothing is written. -/
def writeInteger (e : Endian) (value : BitVec w) (addr : Addr) (size : ℕ) :
    Except SimException M :=
  if size = 1 then write m e (value.setWidth 8) addr
  else if size = 2 then write m e (value.setWidth 16) addr
  else if size = 4 then write m e (value.setWidth 32) addr
  else if size = 8 then write m e (value.setWidth 64) addr
  else if size = 16 then write m e (value.setWidth 128) addr
  else .ok m

def maskedWrite (e : Endian) (value : BitVec w) (addr : Addr) (mask : BitVec w) :
    Except SimException M :=
  write m e ((value &&& mask) ||| (read m w e addr &&& ~~~mask)) addr

variable (instr : FuncInstr w)

def load : FuncInstr w :=
  instr.load (read m w instr.endian instr.memAddr &&& bitmask w (instr.memSize * 8))

def store : Except SimException M :=
  if instr.memAddr = 0#64 then .error .storeToZero
  else
    let fullMask := bitmask w (instr.memSize * 8)
    if instr.mask &&& fullMask = fullMask then
      writeInteger m instr.endian instr.vSrc1 instr.memAddr instr.memSize
    else maskedWrite m instr.endian instr.vSrc1 instr.memAddr instr.mask

def loadStore : Except SimException (FuncInstr w × M) :=
  if instr.isLoad then .ok (load m instr, m)
  else if instr.isStore then do
    let m ← store m instr
    return (instr, m)
  else .ok (instr, m)

end Access

end FuncMemory

/-- A memory of `size` bytes: `canon` gives the cell that an address stands for. -/
class LawfulFuncMemory (M : Type) [FuncMemory M] where
  size : M → ℕ
  canon : M → Addr → Addr
  size_eq (m : M) : size m = 0 ∨ ∃ k ≤ 64, size m = 2 ^ k
  canon_of_lt {m : M} {x : Addr} : x.toNat < size m → canon m x = x
  canon_mod {m : M} {x : Addr} :
    (canon m x).toNat < size m → (canon m x).toNat = x.toNat % size m
  byteAt_canon (m : M) (x : Addr) : FuncMemory.byteAt m (canon m x) = FuncMemory.byteAt m x
  guest_to_host (m : M) (addr : Addr) (n : ℕ) : ∃ k ≤ n,
    FuncMemory.memcpyGuestToHost m addr n
      = (List.range k).map fun i => FuncMemory.byteAt m (addr.offset i)
  host_to_guest {m : M} {addr : Addr} {bytes : List Byte} : addr.toNat + bytes.length ≤ size m →
    ∃ m', FuncMemory.memcpyHostToGuest m addr bytes = .ok m' ∧ size m' = size m
      ∧ canon m' = canon m ∧ ∀ x, FuncMemory.byteAt m' x
        = if addr.toNat ≤ (canon m x).toNat ∧ (canon m x).toNat < addr.toNat + bytes.length
          then bytes.getD ((canon m x).toNat - addr.toNat) 0#8 else FuncMemory.byteAt m x
  host_to_guest_error {m : M} {addr : Addr} {bytes : List Byte} :
    size m < addr.toNat + bytes.length →
    ∃ e, FuncMemory.memcpyHostToGuest m addr bytes = .error e

namespace FuncMemory

open LawfulFuncMemory

variable {M : Type} [FuncMemory M] [LawfulFuncMemory M] {w : ℕ}

theorem toNat_offset {addr : Addr} {d : ℕ} (h : addr.toNat + d < 2 ^ 64) :
    (addr.offset d).toNat = addr.toNat + d := by
  rw [Addr.offset, BitVec.toNat_add, BitVec.toNat_ofNat]
  omega

theorem size_le (m : M) : size m ≤ 2 ^ 64 := by
  rcases size_eq m with h | ⟨k, hk, h⟩
  · omega
  · rw [h]
    exact Nat.pow_le_pow_right (by omega) hk

section Read

variable (m : M)

/-- The bytes a read leaves in its buffer are the ones at the addresses it covers. -/
theorem readBytes_eq (addr : Addr) (n : ℕ) :
    readBytes m addr n = (List.range n).map fun i => byteAt m (addr.offset i) := by
  obtain ⟨k, hk, hc⟩ := guest_to_host m addr n
  unfold readBytes
  rw [hc]
  apply List.ext_getElem
  · simp
    omega
  · intro i h₁ h₂
    by_cases hi : i < k
    · simp [List.getElem_append_left, hi]
    · rw [List.getElem_append_right (by simpa using hi)]
      have : k + (i - k) = i := by omega
      simp [this]

/-- Bit `i` of a little-endian read is in the byte `i / 8` on. -/
theorem getLsbD_read_little (addr : Addr) (i : ℕ) (hi : i < w) (h8 : 8 ∣ w) :
    (read m w .little addr).getLsbD i = (byteAt m (addr.offset (i / 8))).getLsbD (i % 8) := by
  have hb : i / 8 < w / 8 := by omega
  show (packArrayLe w _).getLsbD i = _
  rw [getLsbD_packArrayLe _ _ hi, readBytes_eq, bitLe]
  simp [List.getD_eq_getElem?_getD, hb]

/-- Bit `i` of a big-endian read is in the byte `i / 8` before the last one. -/
theorem getLsbD_read_big (addr : Addr) (i : ℕ) (hi : i < w) (h8 : 8 ∣ w) :
    (read m w .big addr).getLsbD i
      = (byteAt m (addr.offset (w / 8 - 1 - i / 8))).getLsbD (i % 8) := by
  have hb : i / 8 < w / 8 := by omega
  show (packArrayBe w _).getLsbD i = _
  rw [packArrayBe_eq, getLsbD_packArrayLe _ _ hi, readBytes_eq, bitLe,
    List.getD_eq_getElem?_getD, List.getElem?_eq_getElem (by simpa using hb)]
  simp

end Read

end FuncMemory

end MiptMips
