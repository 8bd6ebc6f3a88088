import MiptMips.Memory.PlainMemory

/-!
# What a plain memory reads

A copy out of a plain memory and a search for the end of a string start at any address, and the
arena is only so long. Up to its end they stay inside: a copy takes the bytes that are there. From
an address past it, whatever a copy asks for is looked up outside of the arena. The search finds
that it is at its end already, other than from addresses that wrap around to the front of the
arena; the length it gives is too much for a vector of characters.
-/

namespace MiptMips

namespace PlainMemory

section Model

/-- What is read out of a memory. -/
inductive Reading where
  | copy (src : Addr) (size : ℕ)
  | strlen (addr : Addr)
  | load {w : ℕ} (instr : FuncInstr w)
  | readString (addr : Addr)
  | readStringLimited (addr : Addr) (size : ℕ)

variable (m : PlainMemory)

/-- The addresses that `memcpy_guest_to_host` takes bytes from. -/
def copyIndices (src : Addr) (size : ℕ) : List Addr :=
  (List.range (m.validSize src size)).map src.offset

/-- The addresses that a search for a zero looks at, with the number of those that are left before
it is at the end. -/
def findIndices (addr : Addr) : ℕ → ℕ → List Addr
  | _, 0 => []
  | i, left + 1 =>
    addr.offset i ::
      if m.byteAt (addr.offset i) = 0#8 then [] else findIndices addr (i + 1) left

/-- The search stops at a zero or at the end of the arena. -/
def strlenIndices (addr : Addr) : List Addr :=
  if m.InOrder addr then m.findIndices addr 0 (BitVec.ofNat 64 m.arena.length - addr).toNat else []

/-- `read_string_by_size`: nothing is copied when the vector of characters cannot be made. -/
def stringIndices (addr : Addr) (size : ℕ) : List Addr :=
  if size < 2 ^ 63 then m.copyIndices addr size else []

def indices : Reading → List Addr
  | .copy src size => m.copyIndices src size
  | .strlen addr => m.strlenIndices addr
  | .load (w := w) instr => m.copyIndices instr.memAddr (w / 8)
  | .readString addr => m.strlenIndices addr ++ m.stringIndices addr (m.strlen addr)
  | .readStringLimited addr size =>
    m.strlenIndices addr ++ m.stringIndices addr (Nat.min size (m.strlen addr))

/-- All that is read is in the arena, and a copy gives the bytes of its range that there are. -/
structure ReadsWithin (reading : Reading) : Prop where
  indices : ∀ x ∈ m.indices reading, x.toNat < m.arena.length
  copied : ∀ src size, reading = .copy src size →
    m.memcpyGuestToHost src size = (m.arena.drop src.toNat).take size

namespace Reading

def addr : Reading → Addr
  | copy src _ => src
  | strlen addr => addr
  | load instr => instr.memAddr
  | readString addr => addr
  | readStringLimited addr _ => addr

/-- A byte is looked up even if the address is past the end of an arena of this length. -/
def LooksPast (length : ℕ) : Reading → Prop
  | copy _ size => 0 < size
  | strlen addr | readString addr => length + 2 ^ 63 < addr.toNat
  | load (w := w) _ => 0 < w / 8
  | readStringLimited addr size => length + 2 ^ 63 < addr.toNat ∨ 0 < size ∧ size < 2 ^ 63

end Reading

end Model

section Distance

variable {m : PlainMemory} {addr : Addr}

theorem length_lt (m : PlainMemory) : m.arena.length < 2 ^ 64 := by
  rw [m.length_arena]
  exact Nat.pow_lt_pow_right (by decide) m.bits_lt

/-- Up to the end of the arena, what is left of it. -/
theorem distance_of_le (h : addr.toNat ≤ m.arena.length) :
    (BitVec.ofNat 64 m.arena.length - addr).toNat = m.arena.length - addr.toNat := by
  have hlen := m.length_lt
  have hnat : (BitVec.ofNat 64 m.arena.length).toNat = m.arena.length := by
    rw [BitVec.toNat_ofNat, Nat.mod_eq_of_lt hlen]
  rw [BitVec.toNat_sub_of_le (by rw [BitVec.le_def, hnat]; exact h), hnat]

/-- Past the end, the subtraction wraps around. -/
theorem distance_of_lt (h : m.arena.length < addr.toNat) :
    (BitVec.ofNat 64 m.arena.length - addr).toNat = 2 ^ 64 - (addr.toNat - m.arena.length) := by
  have hlen := m.length_lt
  have haddr := addr.isLt
  rw [BitVec.toNat_sub, BitVec.toNat_ofNat]
  omega

theorem distance_pos_of_lt (h : m.arena.length < addr.toNat) :
    0 < (BitVec.ofNat 64 m.arena.length - addr).toNat := by
  have haddr := addr.isLt
  rw [distance_of_lt h]
  omega

theorem inOrder_iff (h : m.arena.length < addr.toNat) :
    m.InOrder addr ↔ m.arena.length + 2 ^ 63 < addr.toNat := by
  have haddr := addr.isLt
  rw [InOrder, distance_of_lt h]
  omega

theorem toNat_offset (m : PlainMemory) {i : ℕ} (h : addr.toNat + i < m.arena.length) :
    (addr.offset i).toNat = addr.toNat + i := by
  have hlen := m.length_lt
  exact FuncMemory.toNat_offset (by omega)

end Distance

section Copy

variable {m : PlainMemory} {src : Addr} {size : ℕ}

theorem validSize_of_le (h : src.toNat ≤ m.arena.length) :
    m.validSize src size = Nat.min size (m.arena.length - src.toNat) := by
  rw [validSize, distance_of_le h]

theorem copyIndices_lt (h : src.toNat ≤ m.arena.length) :
    ∀ x ∈ m.copyIndices src size, x.toNat < m.arena.length := by
  intro x hx
  obtain ⟨i, hi, rfl⟩ := List.mem_map.1 hx
  rw [List.mem_range, validSize_of_le h, Nat.lt_min] at hi
  rw [m.toNat_offset (by omega)]
  omega

theorem memcpyGuestToHost_eq (h : src.toNat ≤ m.arena.length) :
    m.memcpyGuestToHost src size = (m.arena.drop src.toNat).take size := by
  rw [memcpyGuestToHost, validSize_of_le h]
  apply List.ext_getElem
  · simp
  · intro i h₁ h₂
    have hi : i < size ∧ i < m.arena.length - src.toNat := by simpa using h₂
    rw [List.getElem_map, List.getElem_range, List.getElem_take, List.getElem_drop, byteAt,
      m.toNat_offset (by omega), if_pos (by omega), List.getD_eq_getElem?_getD,
      List.getElem?_eq_getElem (by omega), Option.getD_some]

/-- A copy of no bytes. -/
theorem validSize_zero (src : Addr) : m.validSize src 0 = 0 := Nat.zero_min _

/-- The first byte of a copy is the one at its address. -/
theorem src_mem_copyIndices (h : m.arena.length < src.toNat) (hsize : 0 < size) :
    src ∈ m.copyIndices src size := by
  have hpos : 0 < m.validSize src size := Nat.lt_min.2 ⟨hsize, distance_pos_of_lt h⟩
  refine List.mem_map.2 ⟨0, List.mem_range.2 hpos, ?_⟩
  rw [Addr.offset]
  simp

end Copy

section Strlen

variable {m : PlainMemory} {addr : Addr}

theorem findIndices_lt : ∀ {left i : ℕ}, addr.toNat + i + left ≤ m.arena.length →
    ∀ x ∈ m.findIndices addr i left, x.toNat < m.arena.length
  | 0, _, _, x, hx => by cases hx
  | left + 1, i, h, x, hx => by
    rw [findIndices] at hx
    rcases List.mem_cons.1 hx with rfl | hx
    · rw [m.toNat_offset (by omega)]
      omega
    · split_ifs at hx
      · cases hx
      · exact findIndices_lt (by omega) x hx

theorem strlenIndices_lt (h : addr.toNat ≤ m.arena.length) :
    ∀ x ∈ m.strlenIndices addr, x.toNat < m.arena.length := by
  rw [strlenIndices, if_pos (.inl h), distance_of_le h]
  exact findIndices_lt (by omega)

/-- The first byte that the search looks at is the one at its address. -/
theorem addr_mem_strlenIndices (h : m.arena.length + 2 ^ 63 < addr.toNat) :
    addr ∈ m.strlenIndices addr := by
  have hpast : m.arena.length < addr.toNat := by omega
  have hpos := distance_pos_of_lt hpast
  rw [strlenIndices, if_pos ((inOrder_iff hpast).2 h)]
  rcases hleft : (BitVec.ofNat 64 m.arena.length - addr).toNat with _ | left
  · omega
  · rw [findIndices, Addr.offset]
    simp

variable (hpast : m.arena.length < addr.toNat) (hnear : ¬ m.arena.length + 2 ^ 63 < addr.toNat)
include hpast hnear

theorem strlenIndices_of_near : m.strlenIndices addr = [] := by
  rw [strlenIndices, if_neg (mt (inOrder_iff hpast).1 hnear)]

/-- The distance that the search gives is negative. -/
theorem le_strlen_of_near : 2 ^ 63 ≤ m.strlen addr := by
  rw [strlen, if_neg (mt (inOrder_iff hpast).1 hnear), distance_of_lt hpast]
  omega

end Strlen

section Reads

variable {m : PlainMemory} {reading : Reading}

theorem stringIndices_lt {addr : Addr} (h : addr.toNat ≤ m.arena.length) (size : ℕ) :
    ∀ x ∈ m.stringIndices addr size, x.toNat < m.arena.length := by
  unfold stringIndices
  split_ifs
  · exact copyIndices_lt h
  · exact fun _ hx => nomatch hx

theorem readsWithin_of_le (h : reading.addr.toNat ≤ m.arena.length) : m.ReadsWithin reading := by
  refine ⟨?_, ?_⟩
  · cases reading with
    | copy src size => exact copyIndices_lt h
    | strlen addr => exact strlenIndices_lt h
    | load instr => exact copyIndices_lt h
    | readString addr =>
      intro x hx
      exact (List.mem_append.1 hx).elim (strlenIndices_lt h x) (stringIndices_lt h _ x)
    | readStringLimited addr size =>
      intro x hx
      exact (List.mem_append.1 hx).elim (strlenIndices_lt h x) (stringIndices_lt h _ x)
  · rintro src size rfl
    exact memcpyGuestToHost_eq h

/-- Past the end, nothing may be looked up. -/
theorem indices_eq_nil (h : m.arena.length < reading.addr.toNat)
    (hlook : ¬ reading.LooksPast m.arena.length) : m.indices reading = [] := by
  cases reading with
  | copy src size =>
    obtain rfl : size = 0 := Nat.eq_zero_of_not_pos hlook
    rw [indices, copyIndices, validSize_zero]
    rfl
  | strlen addr => exact strlenIndices_of_near h hlook
  | load instr =>
    rw [indices, copyIndices, Nat.eq_zero_of_not_pos hlook, validSize_zero]
    rfl
  | readString addr =>
    have hpast : m.arena.length < addr.toNat := h
    rw [indices, strlenIndices_of_near hpast hlook, stringIndices,
      if_neg (Nat.not_lt.2 (le_strlen_of_near hpast hlook))]
    rfl
  | readStringLimited addr size =>
    have hpast : m.arena.length < addr.toNat := h
    obtain ⟨hnear, hsize⟩ := not_or.1 hlook
    have hstrlen := le_strlen_of_near hpast hnear
    rw [indices, strlenIndices_of_near hpast hnear, stringIndices, List.nil_append]
    split_ifs with hlt
    · -- a limit that is not zero is too large as well
      have hzero : size = 0 := by
        by_contra hne
        exact absurd hlt (Nat.not_lt.2 (Nat.le_min.2 ⟨by omega, hstrlen⟩))
      have hmin : Nat.min 0 (m.strlen addr) = 0 := Nat.zero_min _
      rw [hzero, hmin, copyIndices, validSize_zero]
      rfl
    · rfl

theorem readsWithin_of_not_looksPast (h : m.arena.length < reading.addr.toNat)
    (hlook : ¬ reading.LooksPast m.arena.length) : m.ReadsWithin reading := by
  refine ⟨fun x hx => ?_, ?_⟩
  · rw [indices_eq_nil h hlook] at hx
    cases hx
  · rintro src size rfl
    obtain rfl : size = 0 := Nat.eq_zero_of_not_pos hlook
    rw [memcpyGuestToHost, validSize_zero, List.take_zero]
    rfl

/-- Otherwise the byte at the address is. -/
theorem addr_mem_indices (h : m.arena.length < reading.addr.toNat)
    (hlook : reading.LooksPast m.arena.length) : reading.addr ∈ m.indices reading := by
  cases reading with
  | copy src size => exact src_mem_copyIndices h hlook
  | strlen addr => exact addr_mem_strlenIndices hlook
  | load instr => exact src_mem_copyIndices h hlook
  | readString addr => exact List.mem_append_left _ (addr_mem_strlenIndices hlook)
  | readStringLimited addr size =>
    rcases Decidable.em (m.arena.length + 2 ^ 63 < addr.toNat) with hfar | hnear
    · exact List.mem_append_left _ (addr_mem_strlenIndices hfar)
    · obtain ⟨hpos, hlt⟩ := hlook.resolve_left hnear
      have hmin : Nat.min size (m.strlen addr) = size :=
        Nat.min_eq_left (hlt.le.trans (le_strlen_of_near h hnear))
      rw [indices, hmin, stringIndices, if_pos hlt]
      exact List.mem_append_right _ (src_mem_copyIndices h hpos)

/-- For every arena, a reading stays inside and a copy is right if and only if the address is not
past the end, or nothing is looked up there. -/
theorem readsWithin_iff (m : PlainMemory) (reading : Reading) :
    m.ReadsWithin reading
      ↔ reading.addr.toNat ≤ m.arena.length ∨ ¬ reading.LooksPast m.arena.length := by
  rcases Nat.lt_or_ge m.arena.length reading.addr.toNat with hpast | hle
  · refine ⟨fun h => .inr fun hlook => ?_, fun h => ?_⟩
    · exact absurd (h.indices _ (addr_mem_indices hpast hlook)) (by omega)
    · exact readsWithin_of_not_looksPast hpast (h.resolve_left (by omega))
  · exact ⟨fun _ => .inl hle, fun _ => readsWithin_of_le hle⟩

/-- One byte from the second address past sixteen bytes, and a string at the last address of all. -/
theorem not_readsWithin : let m := create 4 four_bits_lt fun _ => 0#8
    ¬ m.ReadsWithin (.copy 17#64 1) ∧ ¬ m.ReadsWithin (.strlen (-1#64)) := by
  have hlen : (create 4 four_bits_lt fun _ => 0#8).arena.length = 16 := by
    rw [length_arena]
    rfl
  have hfar : 16 + 2 ^ 63 < (-1#64 : Addr).toNat := by decide
  constructor
  · intro h
    have hmem := h.indices _ (src_mem_copyIndices (hlen ▸ by decide) Nat.one_pos)
    rw [hlen] at hmem
    exact absurd hmem (by decide)
  · intro h
    have hmem := h.indices _ (addr_mem_strlenIndices (hlen ▸ hfar))
    rw [hlen] at hmem
    exact absurd hmem (by decide)

end Reads

end PlainMemory

end MiptMips
