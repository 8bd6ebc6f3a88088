import MiptMips.Lib.Machine
import MiptMips.Memory.HierarchiedMemory

/-!
# A flat array of bytes

What a memory is for: a byte for each address below a limit, and accesses that succeed when they
end by the limit. A memory that copies exactly the bytes it covers gives the same results as the
flat one in every sequence of accesses; a read that goes beyond the limit may give anything.
-/

namespace MiptMips

open Machines FuncMemory LawfulFuncMemory

/-- The accesses of the host; `width` bits are read and written at once. -/
inductive MemoryAccess where
  | copyIn (dst : Addr) (src : List Byte)
  | copyOut (src : Addr) (size : ℕ)
  | write (width : ℕ) (endian : Endian) (value : BitVec width) (addr : Addr)
  | read (width : ℕ) (endian : Endian) (addr : Addr)

inductive MemoryResult where
  | stored (succeeds : Bool)
  | bytes (bytes : List Byte)
  | value (value : ℕ)
  deriving DecidableEq

section Machines

/-- A memory of the simulators: an access that throws leaves it as it is. -/
def hosted (M : Type) [FuncMemory M] : Machine M MemoryAccess MemoryResult where
  step m access :=
    match access with
    | .copyIn dst src =>
      match memcpyHostToGuest m dst src with
      | .ok m => (m, .stored true)
      | .error _ => (m, .stored false)
    | .copyOut src size => (m, .bytes (readBytes m src size))
    | .write _ endian value addr =>
      match FuncMemory.write m endian value addr with
      | .ok m => (m, .stored true)
      | .error _ => (m, .stored false)
    | .read width endian addr => (m, .value (FuncMemory.read m width endian addr).toNat)

/-- The bytes of the flat memory from an address on. -/
def flatBytes (bytes : ℕ → Byte) (src : Addr) (size : ℕ) : List Byte :=
  (List.range size).map fun i => bytes (src.toNat + i)

def flatCopy (limit : ℕ) (bytes : ℕ → Byte) (dst : Addr) (src : List Byte) :
    (ℕ → Byte) × Option MemoryResult :=
  if dst.toNat + src.length ≤ limit then
    (fun a => if dst.toNat ≤ a ∧ a < dst.toNat + src.length then src.getD (a - dst.toNat) 0#8
      else bytes a, some (.stored true))
  else (bytes, some (.stored false))

/-- The flat memory: nothing is said about a read that does not end by the limit. -/
def flat (limit : ℕ) : Machine (ℕ → Byte) MemoryAccess (Option MemoryResult) where
  step bytes access :=
    match access with
    | .copyIn dst src => flatCopy limit bytes dst src
    | .copyOut src size =>
      (bytes, if src.toNat + size ≤ limit then some (.bytes (flatBytes bytes src size)) else none)
    | .write _ endian value addr => flatCopy limit bytes addr (unpackArray endian value)
    | .read width endian addr =>
      (bytes, if addr.toNat + width / 8 ≤ limit then
        some (.value (packArray width endian (flatBytes bytes addr (width / 8))).toNat) else none)

end Machines

section Refinement

/-- What the flat memory gives, a memory has to give. -/
def Agrees (result : MemoryResult) (expected : Option MemoryResult) : Prop :=
  ∀ value ∈ expected, result = value

/-- In every sequence of accesses a memory gives what the flat one of `limit` zero bytes does. -/
def RefinesFlat {M : Type} [FuncMemory M] (m : M) (limit : ℕ) : Prop :=
  ∀ accesses, List.Forall₂ Agrees ((hosted M).outputs m accesses)
    ((flat limit).outputs (fun _ => 0#8) accesses)

variable {M : Type} [FuncMemory M] [LawfulFuncMemory M]

/-- The flat memory has the bytes that loads see. -/
structure SameBytes (limit : ℕ) (m : M) (bytes : ℕ → Byte) : Prop where
  size_eq : size m = limit
  byteAt_eq (x : Addr) : x.toNat < limit → byteAt m x = bytes x.toNat

variable {limit : ℕ} {m : M} {bytes : ℕ → Byte}

theorem SameBytes.readBytes_eq (h : SameBytes limit m bytes) {src : Addr} {n : ℕ}
    (hin : src.toNat + n ≤ limit) : readBytes m src n = flatBytes bytes src n := by
  rw [FuncMemory.readBytes_eq, flatBytes]
  refine List.map_congr_left fun i hi => ?_
  rw [List.mem_range] at hi
  have hle := size_le m
  rw [h.size_eq] at hle
  have ho : (src.offset i).toNat = src.toNat + i := toNat_offset (by omega)
  rw [h.byteAt_eq _ (by omega), ho]

theorem SameBytes.copy (h : SameBytes limit m bytes) (dst : Addr) (src : List Byte) :
    (∃ m', memcpyHostToGuest m dst src = .ok m'
        ∧ (flatCopy limit bytes dst src).2 = some (.stored true)
        ∧ SameBytes limit m' (flatCopy limit bytes dst src).1)
      ∨ ∃ e, memcpyHostToGuest m dst src = .error e
        ∧ flatCopy limit bytes dst src = (bytes, some (.stored false)) := by
  unfold flatCopy
  by_cases hin : dst.toNat + src.length ≤ limit
  · left
    obtain ⟨m', hm, hs, hc, hb⟩ := host_to_guest (m := m) (by rw [h.size_eq]; exact hin)
    rw [if_pos hin]
    refine ⟨m', hm, rfl, by rw [hs, h.size_eq], fun x hx => ?_⟩
    have hcanon : canon m x = x := canon_of_lt (by rw [h.size_eq]; exact hx)
    rw [hb, hcanon]
    dsimp only
    split_ifs
    · rfl
    · exact h.byteAt_eq x hx
  · right
    have hout : size m < dst.toNat + src.length := by
      rw [h.size_eq]
      omega
    obtain ⟨e, he⟩ := host_to_guest_error hout
    exact ⟨e, he, if_neg hin⟩

/-- A memory that copies exactly the bytes it covers follows the flat one. -/
theorem hosted_simulates (limit : ℕ) :
    Machine.Simulates (hosted M) (flat limit) (SameBytes limit) Agrees := by
  refine ⟨fun {m bytes} access h => ?_, fun {m bytes} access h => ?_⟩
  · cases access with
    | copyIn dst src =>
      rcases h.copy dst src with ⟨m', hm, -, hs⟩ | ⟨e, he, hf⟩
      · simpa [Machine.next, hosted, flat, hm] using hs
      · simpa [Machine.next, hosted, flat, he, hf] using h
    | copyOut src size => exact h
    | write width endian value addr =>
      rcases h.copy addr (unpackArray endian value) with ⟨m', hm, -, hs⟩ | ⟨e, he, hf⟩
      · simpa [Machine.next, hosted, flat, FuncMemory.write, hm] using hs
      · simpa [Machine.next, hosted, flat, FuncMemory.write, he, hf] using h
    | read width endian addr => exact h
  · cases access with
    | copyIn dst src =>
      rcases h.copy dst src with ⟨m', hm, hf, -⟩ | ⟨e, he, hf⟩
      · simp [Machine.out, hosted, flat, Agrees, hm, hf]
      · simp [Machine.out, hosted, flat, Agrees, he, hf]
    | copyOut src size =>
      intro value hv
      simp only [Machine.out, flat, Option.mem_def] at hv
      split_ifs at hv with hin
      cases hv
      simp [Machine.out, hosted, h.readBytes_eq hin]
    | write width endian value addr =>
      rcases h.copy addr (unpackArray endian value) with ⟨m', hm, hf, -⟩ | ⟨e, he, hf⟩
      · simp [Machine.out, hosted, flat, Agrees, FuncMemory.write, hm, hf]
      · simp [Machine.out, hosted, flat, Agrees, FuncMemory.write, he, hf]
    | read width endian addr =>
      intro value hv
      simp only [Machine.out, flat, Option.mem_def] at hv
      split_ifs at hv with hin
      cases hv
      simp [Machine.out, hosted, FuncMemory.read, h.readBytes_eq hin]

theorem refinesFlat_of_sameBytes (h : SameBytes limit m fun _ => 0#8) : RefinesFlat m limit :=
  fun accesses => (hosted_simulates limit).outputs accesses h

end Refinement

namespace HierarchiedMemory

variable {addrBits pageBits offsetBits : BitVec 32} {m : HierarchiedMemory}

/-- A new memory: the geometry it was asked for, and zeroes. -/
theorem create_cases (h : create addrBits pageBits offsetBits = .ok m) :
    m.addrBits = addrBits.toNat ∧ ∀ x, m.readByte x = 0#8 := by
  unfold create at h
  dsimp only at h
  split at h
  · cases h
  · split at h
    · cases h
    · split at h
      · cases h
      · cases h
        refine ⟨?_, fun x => ?_⟩
        · dsimp only
          simp only [BitVec.toNat_sub] at *
          omega
        · rw [readByte, getD_replicate_self]
          rfl

theorem sameBytes_create (h : create addrBits pageBits offsetBits = .ok m)
    (hlt : addrBits.toNat < 64) : SameBytes (2 ^ addrBits.toNat) m fun _ => 0#8 := by
  obtain ⟨hbits, hzero⟩ := create_cases h
  refine ⟨?_, fun x _ => ?_⟩
  · show m.size = _
    rw [size_eq, if_pos (by rw [hbits]; exact hlt), hbits]
  · show m.checkAndReadByte x = _
    rw [checkAndReadByte_eq, hzero]

/-- With all 64 address bits the limit wraps around to zero, and no byte can be written. -/
theorem not_refinesFlat_of_size_eq_zero {limit : ℕ} (h : m.size = 0) (hlimit : 0 < limit) :
    ¬ RefinesFlat m limit := by
  intro hr
  obtain ⟨e, he⟩ : ∃ e, m.memcpyHostToGuest 0#64 [0#8] = .error e :=
    memcpyHostToGuest_error (by rw [h]; decide)
  have he' : FuncMemory.memcpyHostToGuest m 0#64 [0#8] = .error e := he
  have hstep := hr [.copyIn 0#64 [0#8]]
  have hin : (0#64).toNat + [0#8].length ≤ limit := hlimit
  simp only [Machine.outputs, Machine.out, hosted, flat, flatCopy, he', hin, if_true,
    List.forall₂_cons, List.Forall₂.nil, and_true, Agrees, Option.mem_def] at hstep
  cases hstep _ rfl

/-- A new memory is the flat memory of its addresses exactly when it has less than 64 address
bits. -/
theorem refinesFlat_iff (h : create addrBits pageBits offsetBits = .ok m) :
    RefinesFlat m (2 ^ addrBits.toNat) ↔ addrBits.toNat < 64 := by
  constructor
  · intro hr
    by_contra hge
    refine not_refinesFlat_of_size_eq_zero ?_ (Nat.two_pow_pos _) hr
    rw [size_eq, (create_cases h).1, if_neg hge]
  · exact fun hlt => refinesFlat_of_sameBytes (sameBytes_create h hlt)

/-- Twelve address bits, in four pages of one set each. -/
theorem refinesFlat_iff_small : ∃ m,
    create 12#32 2#32 8#32 = .ok m ∧ (RefinesFlat m (2 ^ 12) ↔ 12 < 64) :=
  ⟨_, rfl, refinesFlat_iff (show create 12#32 2#32 8#32 = .ok _ from rfl)⟩

/-- The first byte of a memory of 64 address bits cannot be written. -/
theorem not_refinesFlat_wide : ∃ m e,
    create 64#32 31#32 31#32 = .ok m ∧ m.memcpyHostToGuest 0#64 [0#8] = .error e
      ∧ ¬ RefinesFlat m (2 ^ 64) :=
  ⟨_, _, rfl, rfl, not_refinesFlat_of_size_eq_zero rfl (by decide)⟩

end HierarchiedMemory

end MiptMips
