import MiptMips.Memory.Memory

/-!
# Plain memory

An arena of `2 ^ addrBits` bytes. A copy out of it takes what is left of the arena after the source
address; the subtraction is unsigned, so past the end it gives a huge number, and the copy reads
outside of the arena. What is there is `host`. The search for the end of a string compares iterators
instead, whose difference is signed.
-/

namespace MiptMips

structure PlainMemory where
  addrBits : ℕ
  arena : List Byte
  host : Addr → Byte
  bits_lt : addrBits < 64
  length_arena : arena.length = 2 ^ addrBits

namespace PlainMemory

section Model

/-- `create_plain_memory`. -/
def create (addrBits : ℕ) (h : addrBits < 64) (host : Addr → Byte) : PlainMemory where
  addrBits := addrBits
  arena := List.replicate (2 ^ addrBits) 0#8
  host := host
  bits_lt := h
  length_arena := List.length_replicate

/-- Widths of small address spaces. -/
theorem three_bits_lt : 3 < 64 := by decide

theorem four_bits_lt : 4 < 64 := by decide

theorem five_bits_lt : 5 < 64 := by decide

theorem six_bits_lt : 6 < 64 := by decide

variable (m : PlainMemory)

def byteAt (x : Addr) : Byte :=
  if x.toNat < m.arena.length then m.arena.getD x.toNat 0#8 else m.host x

def validSize (src : Addr) (size : ℕ) : ℕ :=
  Nat.min size (BitVec.ofNat 64 m.arena.length - src).toNat

def memcpyGuestToHost (src : Addr) (size : ℕ) : List Byte :=
  (List.range (m.validSize src size)).map fun i => m.byteAt (src.offset i)

/-- The arena with the bytes put at an index they fit at. -/
def copyInto (dst : ℕ) (src : List Byte) (h : dst + src.length ≤ m.arena.length) : PlainMemory :=
  { m with
    arena := m.arena.take dst ++ src ++ m.arena.drop (dst + src.length)
    length_arena := by
      have := m.length_arena
      simp
      omega }

def memcpyHostToGuest (dst : Addr) (src : List Byte) : Except SimException PlainMemory :=
  if h₁ : src.length > m.arena.length then
    .error (.funcMemoryOutOfRange (dst.offset src.length) (BitVec.ofNat 64 m.arena.length))
  else if h₂ : dst.toNat > m.arena.length then
    .error (.funcMemoryOutOfRange dst (BitVec.ofNat 64 m.arena.length))
  else if h₃ : dst.toNat > m.arena.length - src.length then
    .error (.funcMemoryOutOfRange (dst.offset src.length) (BitVec.ofNat 64 m.arena.length))
  else .ok (m.copyInto dst.toNat src (by omega))

/-- The iterators are in order. From an address past the end they are not, unless it is so large
that it wraps around to a place in front of the arena. -/
def InOrder (addr : Addr) : Prop :=
  addr.toNat ≤ m.arena.length ∨ (BitVec.ofNat 64 m.arena.length - addr).toNat < 2 ^ 63

instance (addr : Addr) : Decidable (m.InOrder addr) := inferInstanceAs (Decidable (_ ∨ _))

/-- `std::find`: the index of the first zero, with the number of bytes that are left to look at. -/
def findFrom (addr : Addr) (i : ℕ) : ℕ → ℕ
  | 0 => i
  | left + 1 => if m.byteAt (addr.offset i) = 0#8 then i else findFrom addr (i + 1) left

/-- Where the iterators are not in order nothing is found, and the distance is negative. -/
def strlen (addr : Addr) : ℕ :=
  let left := (BitVec.ofNat 64 m.arena.length - addr).toNat
  if m.InOrder addr then m.findFrom addr 0 left else left

instance : FuncMemory PlainMemory where
  memcpyGuestToHost := memcpyGuestToHost
  memcpyHostToGuest := memcpyHostToGuest
  strlen := strlen
  byteAt := byteAt

end Model

section Lawful

variable {m : PlainMemory}

theorem memcpyHostToGuest_ok {dst : Addr} {src : List Byte}
    (h : dst.toNat + src.length ≤ m.arena.length) :
    m.memcpyHostToGuest dst src = .ok (m.copyInto dst.toNat src h) := by
  have h₁ : ¬ src.length > m.arena.length := by omega
  have h₂ : ¬ dst.toNat > m.arena.length := by omega
  have h₃ : ¬ dst.toNat > m.arena.length - src.length := by omega
  simp [memcpyHostToGuest, h₁, h₂, h₃]

theorem memcpyHostToGuest_error {dst : Addr} {src : List Byte}
    (h : m.arena.length < dst.toNat + src.length) :
    ∃ e, m.memcpyHostToGuest dst src = .error e := by
  unfold memcpyHostToGuest
  split
  · exact ⟨_, rfl⟩
  · split
    · exact ⟨_, rfl⟩
    · rw [dif_pos (by omega)]
      exact ⟨_, rfl⟩

theorem getD_copyInto {dst : ℕ} {src : List Byte} (h : dst + src.length ≤ m.arena.length) (i : ℕ) :
    (m.copyInto dst src h).arena.getD i 0#8
      = if dst ≤ i ∧ i < dst + src.length then src.getD (i - dst) 0#8 else m.arena.getD i 0#8 := by
  have hd : Nat.min dst m.arena.length = dst := Nat.min_eq_left (by omega)
  simp only [copyInto, List.append_assoc, List.getD_eq_getElem?_getD]
  by_cases h₁ : i < dst
  · have : ¬ dst ≤ i := by omega
    rw [List.getElem?_append_left (by simp; omega), List.getElem?_take]
    simp [h₁, this]
  · rw [List.getElem?_append_right (by simp; omega)]
    by_cases h₂ : i < dst + src.length
    · have hi : i - min dst m.arena.length = i - dst := by omega
      rw [List.getElem?_append_left (by simp; omega), List.length_take, hi]
      simp [h₂, Nat.le_of_not_lt h₁]
    · rw [List.getElem?_append_right (by simp; omega), List.getElem?_drop, List.length_take]
      have hi : dst + src.length + (i - min dst m.arena.length - src.length) = i := by omega
      simp [h₂, hi]

@[simp]
theorem length_copyInto {dst : ℕ} {src : List Byte} (h : dst + src.length ≤ m.arena.length) :
    (m.copyInto dst src h).arena.length = m.arena.length := by
  simp [copyInto]
  omega

theorem byteAt_copyInto {dst : ℕ} {src : List Byte} (h : dst + src.length ≤ m.arena.length)
    (x : Addr) :
    (m.copyInto dst src h).byteAt x
      = if dst ≤ x.toNat ∧ x.toNat < dst + src.length
        then src.getD (x.toNat - dst) 0#8 else m.byteAt x := by
  rw [byteAt, length_copyInto, getD_copyInto h]
  by_cases hx : dst ≤ x.toNat ∧ x.toNat < dst + src.length
  · have : x.toNat < m.arena.length := by omega
    simp [hx, this]
  · simp only [hx, if_false]
    rfl

instance : LawfulFuncMemory PlainMemory where
  size m := m.arena.length
  canon _ x := x
  size_eq m := .inr ⟨m.addrBits, m.bits_lt.le, m.length_arena⟩
  canon_of_lt _ := rfl
  canon_mod h := (Nat.mod_eq_of_lt h).symm
  byteAt_canon _ _ := rfl
  guest_to_host m addr n := ⟨m.validSize addr n, Nat.min_le_left _ _, rfl⟩
  host_to_guest {m addr bytes} h :=
    ⟨m.copyInto addr.toNat bytes h, memcpyHostToGuest_ok h, length_copyInto h,
      rfl, byteAt_copyInto h⟩
  host_to_guest_error h := memcpyHostToGuest_error h

end Lawful

end PlainMemory

end MiptMips
