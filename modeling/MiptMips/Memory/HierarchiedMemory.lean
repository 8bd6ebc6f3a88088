import MiptMips.Memory.Memory

/-!
# Hierarchied memory

Sets of pages of bytes, allocated as they are written. An address is cut into the number of its
set, of its page and of its byte. Reading where nothing was allocated gives zero, and an address
above the memory is read as the address below it with the same low bits.
-/

namespace MiptMips

abbrev Page := List Byte

abbrev PageSet := List Page

structure HierarchiedMemory where
  addrBits : ℕ
  pageBits : ℕ
  offsetBits : ℕ
  setBits : ℕ
  memory : List PageSet
  addr_eq : addrBits = setBits + pageBits + offsetBits
  set_lt : setBits < 32
  page_lt : pageBits < 32
  offset_lt : offsetBits < 32
  length_memory : memory.length = 2 ^ setBits
  length_set : ∀ set ∈ memory, set = [] ∨ set.length = 2 ^ pageBits
  length_page : ∀ set ∈ memory, ∀ page ∈ set, page = [] ∨ page.length = 2 ^ offsetBits

namespace HierarchiedMemory

section Create

/-- The constructor. The number of set bits is what the other two leave, in 32 bits. -/
def create (addrBits pageBits offsetBits : BitVec 32) : Except SimException HierarchiedMemory :=
  let setBits := addrBits - offsetBits - pageBits
  if hs : setBits.toNat ≥ 32 then .error .funcMemoryBadMapping
  else if hp : pageBits.toNat ≥ 32 then .error .funcMemoryBadMapping
  else if ho : offsetBits.toNat ≥ 32 then .error .funcMemoryBadMapping
  else .ok
    { addrBits := setBits.toNat + pageBits.toNat + offsetBits.toNat
      pageBits := pageBits.toNat
      offsetBits := offsetBits.toNat
      setBits := setBits.toNat
      memory := List.replicate (2 ^ setBits.toNat) []
      addr_eq := rfl
      set_lt := by omega
      page_lt := by omega
      offset_lt := by omega
      length_memory := List.length_replicate
      length_set := fun set h => .inl (List.eq_of_mem_replicate h)
      length_page := fun set h page hp => by
        rw [List.eq_of_mem_replicate h] at hp
        exact absurd hp List.not_mem_nil }

end Create

section Geometry

variable (m : HierarchiedMemory)

def addrMask : Addr := bitmask 64 (Nat.min m.addrBits 64)

def offsetMask : Addr := bitmask 64 m.offsetBits

def pageMask : Addr := bitmask 64 m.pageBits <<< m.offsetBits

def setMask : Addr := bitmask 64 m.setBits <<< (m.pageBits + m.offsetBits)

def getSet (addr : Addr) : ℕ := ((addr &&& m.setMask) >>> (m.pageBits + m.offsetBits)).toNat

def getPage (addr : Addr) : ℕ := ((addr &&& m.pageMask) >>> m.offsetBits).toNat

def getOffset (addr : Addr) : ℕ := (addr &&& m.offsetMask).toNat

end Geometry

section Modify

variable {α : Type*}

theorem mem_modify {f : α → α} {x : α} : ∀ {l : List α} {i : ℕ},
    x ∈ l.modify i f → x ∈ l ∨ ∃ y ∈ l, x = f y
  | [], i, h => by simp at h
  | y :: l, 0, h => by
    simp only [List.modify_zero_cons, List.mem_cons] at h
    rcases h with rfl | h
    · exact .inr ⟨y, List.mem_cons_self, rfl⟩
    · exact .inl (List.mem_cons_of_mem _ h)
  | y :: l, i + 1, h => by
    simp only [List.modify_succ_cons, List.mem_cons] at h
    rcases h with rfl | h
    · exact .inl List.mem_cons_self
    · rcases mem_modify h with h | ⟨z, hz, hx⟩
      · exact .inl (List.mem_cons_of_mem _ h)
      · exact .inr ⟨z, List.mem_cons_of_mem _ hz, hx⟩

theorem getD_modify {f : α → α} {l : List α} {i j : ℕ} {d : α} (h : i < l.length) :
    (l.modify i f).getD j d = if i = j then f (l.getD j d) else l.getD j d := by
  simp only [List.getD_eq_getElem?_getD, List.getElem?_modify]
  split
  case isTrue hij =>
    subst hij
    simp [h]
  case isFalse => simp

theorem getD_mem {l : List α} {i : ℕ} {d : α} (h : i < l.length) : l.getD i d ∈ l := by
  rw [List.getD_eq_getElem?_getD, List.getElem?_eq_getElem h]
  exact List.getElem_mem h

end Modify

section Bytes

variable (m : HierarchiedMemory)

/-- The set, allocated when it was not. -/
def allocSet (set : PageSet) : PageSet :=
  if set.isEmpty then List.replicate (2 ^ m.pageBits) [] else set

def allocPage (page : Page) : Page :=
  if page.isEmpty then List.replicate (2 ^ m.offsetBits) 0#8 else page

theorem length_allocSet {set : PageSet} (h : set = [] ∨ set.length = 2 ^ m.pageBits) :
    (m.allocSet set).length = 2 ^ m.pageBits := by
  unfold allocSet
  split
  · simp
  · rcases h with rfl | h
    · simp_all
    · exact h

theorem length_allocPage {page : Page} (h : page = [] ∨ page.length = 2 ^ m.offsetBits) :
    (m.allocPage page).length = 2 ^ m.offsetBits := by
  unfold allocPage
  split
  · simp
  · rcases h with rfl | h
    · simp_all
    · exact h

theorem allocSet_pages {set : PageSet} (h : ∀ page ∈ set, page = [] ∨ page.length = 2 ^ m.offsetBits) :
    ∀ page ∈ m.allocSet set, page = [] ∨ page.length = 2 ^ m.offsetBits := by
  unfold allocSet
  split
  · exact fun page hp => .inl (List.eq_of_mem_replicate hp)
  · exact h

def check (addr : Addr) : Bool :=
  !(m.memory.getD (m.getSet addr) []).isEmpty
    && !((m.memory.getD (m.getSet addr) []).getD (m.getPage addr) []).isEmpty

def readByte (addr : Addr) : Byte :=
  ((m.memory.getD (m.getSet addr) []).getD (m.getPage addr) []).getD (m.getOffset addr) 0#8

def checkAndReadByte (addr : Addr) : Byte := if m.check addr then m.readByte addr else 0#8

/-- `alloc_and_write_byte`: the set and the page are allocated on the way to the byte. -/
def allocAndWriteByte (addr : Addr) (value : Byte) : HierarchiedMemory :=
  { m with
    memory := m.memory.modify (m.getSet addr) fun set =>
      (m.allocSet set).modify (m.getPage addr) fun page =>
        (m.allocPage page).set (m.getOffset addr) value
    length_memory := by rw [List.length_modify, m.length_memory]
    length_set := by
      intro set hset
      rcases mem_modify hset with h | ⟨set', h, rfl⟩
      · exact m.length_set set h
      · rw [List.length_modify]
        exact .inr (m.length_allocSet (m.length_set set' h))
    length_page := by
      intro set hset page hpage
      rcases mem_modify hset with h | ⟨set', h, rfl⟩
      · exact m.length_page set h page hpage
      · rcases mem_modify hpage with hp | ⟨page', hp, rfl⟩
        · exact m.allocSet_pages (m.length_page set' h) page hp
        · rw [List.length_set]
          exact .inr (m.length_allocPage (m.allocSet_pages (m.length_page set' h) page' hp)) }

def copyFrom (dst : Addr) : HierarchiedMemory → ℕ → List Byte → HierarchiedMemory
  | m, _, [] => m
  | m, offset, value :: src =>
    copyFrom dst (m.allocAndWriteByte (dst.offset offset) value) (offset + 1) src

def memcpyHostToGuest (dst : Addr) (src : List Byte) : Except SimException HierarchiedMemory :=
  let limit := m.addrMask + 1#64
  if src.length > limit.toNat then .error (.funcMemoryOutOfRange (dst.offset src.length) limit)
  else if dst.toNat > limit.toNat then .error (.funcMemoryOutOfRange dst limit)
  else if dst.toNat > limit.toNat - src.length then .error (.funcMemoryOutOfRange dst limit)
  else .ok (copyFrom dst m 0 src)

def memcpyGuestToHost (src : Addr) (size : ℕ) : List Byte :=
  (List.range size).map fun i => m.checkAndReadByte (src.offset i)

/-- The loop of `strlen`, with the number of addresses still to look at. -/
def strlenFrom (addr : Addr) : ℕ → ℕ → ℕ
  | _, 0 => (m.addrMask + 1#64).toNat
  | i, fuel + 1 =>
    if m.checkAndReadByte (addr.offset i) = 0#8 then i else strlenFrom addr (i + 1) fuel

def strlen (addr : Addr) : ℕ := m.strlenFrom addr 0 (m.addrMask.toNat + 1)

instance : FuncMemory HierarchiedMemory where
  memcpyGuestToHost := memcpyGuestToHost
  memcpyHostToGuest := memcpyHostToGuest
  strlen := strlen
  byteAt := checkAndReadByte

end Bytes

section Cells

variable (m : HierarchiedMemory)

theorem getSet_eq (x : Addr) :
    m.getSet x = x.toNat / 2 ^ (m.pageBits + m.offsetBits) % 2 ^ m.setBits := toNat_field x _ _

theorem getPage_eq (x : Addr) : m.getPage x = x.toNat / 2 ^ m.offsetBits % 2 ^ m.pageBits :=
  toNat_field x _ _

theorem getOffset_eq (x : Addr) : m.getOffset x = x.toNat % 2 ^ m.offsetBits := by
  have h := toNat_field x m.offsetBits 0
  simpa [getOffset, offsetMask] using h

/-- The fields of an address are its low bits. -/
theorem fields_eq (x : Addr) : x.toNat % 2 ^ m.addrBits
    = m.getOffset x + 2 ^ m.offsetBits * (m.getPage x + 2 ^ m.pageBits * m.getSet x) := by
  have ha : 2 ^ m.addrBits = 2 ^ m.offsetBits * (2 ^ m.pageBits * 2 ^ m.setBits) := by
    rw [m.addr_eq, ← Nat.pow_add, ← Nat.pow_add]
    congr 1
    omega
  have hd : x.toNat / 2 ^ (m.pageBits + m.offsetBits)
      = x.toNat / 2 ^ m.offsetBits / 2 ^ m.pageBits := by
    rw [Nat.div_div_eq_div_mul, ← Nat.pow_add, Nat.add_comm]
  rw [ha, Nat.mod_mul, Nat.mod_mul, getOffset_eq, getPage_eq, getSet_eq, hd]

/-- Two addresses with the same low bits are cut into the same set, page and byte. -/
theorem fields_iff (x y : Addr) :
    (m.getSet x = m.getSet y ∧ m.getPage x = m.getPage y ∧ m.getOffset x = m.getOffset y)
      ↔ x.toNat % 2 ^ m.addrBits = y.toNat % 2 ^ m.addrBits := by
  constructor
  · rintro ⟨hs, hp, ho⟩
    rw [fields_eq, fields_eq, hs, hp, ho]
  · intro h
    have hcut : ∀ k n, k + n ≤ m.addrBits →
        x.toNat / 2 ^ k % 2 ^ n = y.toNat / 2 ^ k % 2 ^ n := by
      intro k n hk
      have hz : ∀ z : ℕ, z / 2 ^ k % 2 ^ n = z % 2 ^ m.addrBits / 2 ^ k % 2 ^ n := by
        intro z
        have hd : 2 ^ (k + n) ∣ 2 ^ m.addrBits := Nat.pow_dvd_pow 2 hk
        rw [← Nat.mod_mul_right_div_self, ← Nat.mod_mul_right_div_self, ← Nat.pow_add,
          Nat.mod_mod_of_dvd _ hd]
      rw [hz x.toNat, hz y.toNat, h]
    have ha := m.addr_eq
    rw [getSet_eq, getSet_eq, getPage_eq, getPage_eq]
    refine ⟨hcut _ _ (by omega), hcut _ _ (by omega), ?_⟩
    have := hcut 0 m.offsetBits (by omega)
    simpa [getOffset_eq] using this

theorem getSet_lt (x : Addr) : m.getSet x < m.memory.length := by
  rw [m.length_memory, getSet_eq]
  exact Nat.mod_lt _ (Nat.two_pow_pos _)

theorem getPage_lt (x : Addr) : m.getPage x < 2 ^ m.pageBits := by
  rw [getPage_eq]
  exact Nat.mod_lt _ (Nat.two_pow_pos _)

theorem getOffset_lt (x : Addr) : m.getOffset x < 2 ^ m.offsetBits := by
  rw [getOffset_eq]
  exact Nat.mod_lt _ (Nat.two_pow_pos _)

end Cells

section Write

variable (m : HierarchiedMemory)

/-- The check before the read only spares the access: nothing is allocated where it fails. -/
theorem checkAndReadByte_eq (x : Addr) : m.checkAndReadByte x = m.readByte x := by
  unfold checkAndReadByte
  split
  · rfl
  case isFalse h =>
    simp only [check, Bool.not_eq_true, Bool.and_eq_false_iff, Bool.not_eq_false',
      List.isEmpty_iff] at h
    rw [readByte]
    rcases h with h | h
    · rw [h]
      rfl
    · rw [h]
      rfl

theorem getD_replicate_self {α : Type*} (n i : ℕ) (d : α) : (List.replicate n d).getD i d = d := by
  by_cases h : i < n <;> simp [List.getD_eq_getElem?_getD, h]

/-- Allocation is not seen by reads. -/
theorem getD_allocSet (set : PageSet) (i : ℕ) : (m.allocSet set).getD i [] = set.getD i [] := by
  unfold allocSet
  split
  case isTrue h =>
    rw [List.isEmpty_iff.1 h, getD_replicate_self]
    rfl
  · rfl

theorem getD_allocPage (page : Page) (i : ℕ) :
    (m.allocPage page).getD i 0#8 = page.getD i 0#8 := by
  unfold allocPage
  split
  case isTrue h =>
    rw [List.isEmpty_iff.1 h, getD_replicate_self]
    rfl
  · rfl

theorem readByte_allocAndWriteByte (addr x : Addr) (value : Byte) :
    (m.allocAndWriteByte addr value).readByte x
      = if x.toNat % 2 ^ m.addrBits = addr.toNat % 2 ^ m.addrBits then value
        else m.readByte x := by
  have hset := m.length_set _ (getD_mem (d := []) (m.getSet_lt addr))
  have hpages := m.length_page _ (getD_mem (d := []) (m.getSet_lt addr))
  have hlen := m.length_allocSet hset
  have hp : m.getPage addr < (m.allocSet (m.memory.getD (m.getSet addr) [])).length := by
    rw [hlen]
    exact m.getPage_lt addr
  have hpage := m.allocSet_pages hpages _ (getD_mem (d := []) hp)
  have ho := m.length_allocPage hpage
  simp only [← fields_iff]
  show ((List.getD (List.modify m.memory _ _) (m.getSet x) []).getD (m.getPage x) []).getD
    (m.getOffset x) 0#8 = _
  rw [getD_modify (m.getSet_lt addr), readByte]
  by_cases hs : m.getSet addr = m.getSet x
  · rw [if_pos hs, ← hs, getD_modify hp]
    by_cases hpx : m.getPage addr = m.getPage x
    · rw [if_pos hpx, ← hpx, List.getD_eq_getElem?_getD, List.getElem?_set]
      by_cases hox : m.getOffset addr = m.getOffset x
      · rw [if_pos hox, if_pos (by rw [ho]; exact m.getOffset_lt addr)]
        simp [hox]
      · have hne : ¬ m.getOffset x = m.getOffset addr := fun h => hox h.symm
        rw [if_neg hox, ← List.getD_eq_getElem?_getD, getD_allocPage, getD_allocSet]
        simp only [hne, and_false, if_false]
    · have hne : ¬ m.getPage x = m.getPage addr := fun h => hpx h.symm
      rw [if_neg hpx, getD_allocSet]
      simp only [hne, false_and, and_false, if_false]
  · have hne : ¬ m.getSet x = m.getSet addr := fun h => hs h.symm
    rw [if_neg hs]
    simp only [hne, false_and, if_false]

end Write

section Lawful

variable {m : HierarchiedMemory}

def size (m : HierarchiedMemory) : ℕ := (m.addrMask + 1#64).toNat

def canon (m : HierarchiedMemory) (x : Addr) : Addr := x &&& m.addrMask

theorem toNat_canon (x : Addr) : (m.canon x).toNat = x.toNat % 2 ^ m.addrBits := by
  rw [canon, addrMask, and_bitmask, BitVec.toNat_setWidth, BitVec.toNat_setWidth]
  rcases Nat.le_total m.addrBits 64 with h | h
  · have : Nat.min m.addrBits 64 = m.addrBits := Nat.min_eq_left h
    rw [this, Nat.mod_eq_of_lt]
    exact Nat.lt_of_le_of_lt (Nat.mod_le _ _) x.isLt
  · have : Nat.min m.addrBits 64 = 64 := Nat.min_eq_right h
    have hlt : x.toNat < 2 ^ m.addrBits :=
      Nat.lt_of_lt_of_le x.isLt (Nat.pow_le_pow_right (by omega) h)
    rw [this, Nat.mod_eq_of_lt hlt, Nat.mod_mod, Nat.mod_eq_of_lt x.isLt]

/-- With all 64 address bits in use the limit of the copies wraps around to zero. -/
theorem size_eq : m.size = if m.addrBits < 64 then 2 ^ m.addrBits else 0 := by
  split
  case isTrue h =>
    have hmin : Nat.min m.addrBits 64 = m.addrBits := Nat.min_eq_left h.le
    have hb : bitmask 64 m.addrBits = BitVec.twoPow 64 m.addrBits - 1#64 := by
      apply BitVec.eq_of_getLsbD_eq
      intro i hi
      rw [getLsbD_twoPow_sub_one _ _ h, getLsbD_bitmask]
      simp [hi]
    rw [size, addrMask, hmin, hb, BitVec.sub_add_cancel, BitVec.toNat_twoPow_of_lt h]
  case isFalse h =>
    have hmin : Nat.min m.addrBits 64 = 64 := Nat.min_eq_right (by omega)
    rw [size, addrMask, hmin, bitmask_width]
    rfl

theorem addrBits_copyFrom (dst : Addr) : ∀ (src : List Byte) (m : HierarchiedMemory) (offset : ℕ),
    (copyFrom dst m offset src).addrBits = m.addrBits
  | [], _, _ => rfl
  | value :: src, m, offset => by rw [copyFrom, addrBits_copyFrom dst src]; rfl

theorem readByte_copyFrom (dst x : Addr) :
    ∀ (src : List Byte) (m : HierarchiedMemory) (offset : ℕ),
      dst.toNat + offset + src.length ≤ m.size →
      (copyFrom dst m offset src).readByte x
        = if dst.toNat + offset ≤ (m.canon x).toNat
            ∧ (m.canon x).toNat < dst.toNat + offset + src.length
          then src.getD ((m.canon x).toNat - (dst.toNat + offset)) 0#8 else m.readByte x
  | [], m, offset, _ => by
    have h : ¬ (dst.toNat + offset ≤ (m.canon x).toNat
        ∧ (m.canon x).toNat < dst.toNat + offset + ([] : List Byte).length) := by
      simp only [List.length_nil]
      omega
    rw [copyFrom, if_neg h]
  | value :: src, m, offset, h => by
    have hb : m.addrBits < 64 := by
      by_contra hge
      rw [size_eq, if_neg hge, List.length_cons] at h
      omega
    have hsize : m.size = 2 ^ m.addrBits := by rw [size_eq, if_pos hb]
    have hsize' : (m.allocAndWriteByte (dst.offset offset) value).size = m.size := rfl
    have hcanon' : (m.allocAndWriteByte (dst.offset offset) value).canon x = m.canon x := rfl
    rw [List.length_cons] at h
    have hpow : 2 ^ m.addrBits < 2 ^ 64 := Nat.pow_lt_pow_right (by omega) hb
    have hd : (dst.offset offset).toNat % 2 ^ m.addrBits = dst.toNat + offset := by
      rw [Addr.offset, BitVec.toNat_add, BitVec.toNat_ofNat]
      have h₁ : offset % 2 ^ 64 = offset := Nat.mod_eq_of_lt (by omega)
      have h₂ : (dst.toNat + offset) % 2 ^ 64 = dst.toNat + offset := Nat.mod_eq_of_lt (by omega)
      rw [h₁, h₂, Nat.mod_eq_of_lt (by omega)]
    rw [copyFrom, readByte_copyFrom dst x src _ _ (by rw [hsize']; omega), hcanon',
      readByte_allocAndWriteByte, hd, ← toNat_canon]
    by_cases h₀ : (m.canon x).toNat = dst.toNat + offset
    · have h₁ : ¬ dst.toNat + (offset + 1) ≤ (m.canon x).toNat := by omega
      simp [h₀]
    · by_cases h₁ : dst.toNat + (offset + 1) ≤ (m.canon x).toNat
          ∧ (m.canon x).toNat < dst.toNat + (offset + 1) + src.length
      · have h₂ : dst.toNat + offset ≤ (m.canon x).toNat
            ∧ (m.canon x).toNat < dst.toNat + offset + (value :: src).length := by
          simp only [List.length_cons]
          omega
        obtain ⟨k, hk⟩ : ∃ k, (m.canon x).toNat - (dst.toNat + offset) = k + 1 :=
          ⟨(m.canon x).toNat - (dst.toNat + offset) - 1, by omega⟩
        have hk' : (m.canon x).toNat - (dst.toNat + (offset + 1)) = k := by omega
        rw [if_pos h₁, if_pos h₂, hk, hk', List.getD_cons_succ]
      · have h₂ : ¬ (dst.toNat + offset ≤ (m.canon x).toNat
            ∧ (m.canon x).toNat < dst.toNat + offset + (value :: src).length) := by
          simp only [List.length_cons]
          omega
        rw [if_neg h₁, if_neg h₂, if_neg h₀]

theorem memcpyHostToGuest_ok {dst : Addr} {src : List Byte} (h : dst.toNat + src.length ≤ m.size) :
    m.memcpyHostToGuest dst src = .ok (copyFrom dst m 0 src) := by
  have h' : dst.toNat + src.length ≤ (m.addrMask + 1#64).toNat := h
  have h₁ : ¬ src.length > (m.addrMask + 1#64).toNat := by omega
  have h₂ : ¬ dst.toNat > (m.addrMask + 1#64).toNat := by omega
  have h₃ : ¬ dst.toNat > (m.addrMask + 1#64).toNat - src.length := by omega
  simp only [memcpyHostToGuest, h₁, h₂, h₃, if_false]

theorem memcpyHostToGuest_error {dst : Addr} {src : List Byte}
    (h : m.size < dst.toNat + src.length) : ∃ e, m.memcpyHostToGuest dst src = .error e := by
  have h' : (m.addrMask + 1#64).toNat < dst.toNat + src.length := h
  unfold memcpyHostToGuest
  dsimp only
  split
  · exact ⟨_, rfl⟩
  · split
    · exact ⟨_, rfl⟩
    · rw [if_pos (by omega)]
      exact ⟨_, rfl⟩

theorem size_copyFrom (dst : Addr) (src : List Byte) (offset : ℕ) :
    (copyFrom dst m offset src).size = m.size := by
  simp only [size_eq, addrBits_copyFrom]

/-- The fields of an address are cut out of its low bits. -/
theorem readByte_canon (x : Addr) : m.readByte (m.canon x) = m.readByte x := by
  have hbits := m.addr_eq
  have hset : m.canon x &&& m.setMask = x &&& m.setMask := by
    apply BitVec.eq_of_getLsbD_eq
    intro i hi
    by_cases h : i < m.addrBits
    · simp [canon, addrMask, setMask, hi, h]
    · have : ¬ i - (m.pageBits + m.offsetBits) < m.setBits := by omega
      simp [setMask, this]
  have hpage : m.canon x &&& m.pageMask = x &&& m.pageMask := by
    apply BitVec.eq_of_getLsbD_eq
    intro i hi
    by_cases h : i < m.addrBits
    · simp [canon, addrMask, pageMask, hi, h]
    · have : ¬ i - m.offsetBits < m.pageBits := by omega
      simp [pageMask, this]
  have hoffset : m.canon x &&& m.offsetMask = x &&& m.offsetMask := by
    apply BitVec.eq_of_getLsbD_eq
    intro i hi
    by_cases h : i < m.addrBits
    · simp [canon, addrMask, offsetMask, hi, h]
    · have : ¬ i < m.offsetBits := by omega
      simp [offsetMask, this]
  simp only [readByte, getSet, getPage, getOffset, hset, hpage, hoffset]

instance : LawfulFuncMemory HierarchiedMemory where
  size := size
  canon := canon
  size_eq m := by
    rw [size_eq]
    split
    case isTrue h => exact .inr ⟨m.addrBits, h.le, rfl⟩
    case isFalse => exact .inl rfl
  canon_of_lt {m x} h := by
    apply BitVec.eq_of_toNat_eq
    rw [toNat_canon]
    rw [size_eq] at h
    split at h
    · exact Nat.mod_eq_of_lt h
    · omega
  canon_mod {m x} h := by
    rw [size_eq] at h ⊢
    split at h
    case isTrue hb => rw [if_pos hb, toNat_canon]
    case isFalse => omega
  byteAt_canon m x := by
    show m.checkAndReadByte (m.canon x) = m.checkAndReadByte x
    rw [checkAndReadByte_eq, checkAndReadByte_eq, readByte_canon]
  guest_to_host m addr n := ⟨n, le_rfl, rfl⟩
  host_to_guest {m addr bytes} h := by
    refine ⟨copyFrom addr m 0 bytes, memcpyHostToGuest_ok h, size_copyFrom _ _ _, ?_, fun x => ?_⟩
    · funext x
      rw [canon, canon, addrMask, addrMask, addrBits_copyFrom]
    show checkAndReadByte _ x = _
    rw [checkAndReadByte_eq, readByte_copyFrom addr x bytes m 0 h, ← checkAndReadByte_eq]
    rfl
  host_to_guest_error h := memcpyHostToGuest_error h

end Lawful

end HierarchiedMemory

end MiptMips
