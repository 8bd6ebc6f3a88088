import Mathlib.Data.Nat.Prime.Basic
import MiptMips.Infra.CacheTagArray

/-!
# The geometry of a cache

An address in the address space of a cache lies in a line. In a geometry that the constructor
accepts, the number of sets is a power of two: the set of an address is the remainder of its line by
this number and its tag is the quotient (`set_eq`, `toNat_tag`), so the two together stand for the
line (`set_tag_iff`).
-/

namespace MiptMips

theorem PseudoLRU.isPowerOfTwo_iff {n : ℕ} : isPowerOfTwo n = true ↔ ∃ k, n = 2 ^ k := by
  unfold isPowerOfTwo
  rw [List.any_eq_true]
  constructor
  · rintro ⟨k, -, h⟩
    exact ⟨k, (by simpa using h : 2 ^ k = n).symm⟩
  · rintro ⟨k, rfl⟩
    have hk : k < 2 ^ k := Nat.lt_two_pow_self
    exact ⟨k, List.mem_range.2 (by omega), by simp⟩

/-- The trailing zeroes of a power of two. -/
theorem toNat_ctz {w k : ℕ} {x : BitVec w} (h : x.toNat = 2 ^ k) : x.ctz.toNat = k := by
  have hx : x ≠ 0#w := by
    rintro rfl
    exact Nat.ne_of_lt (Nat.two_pow_pos k) h
  have hbit := BitVec.getLsbD_true_ctz_of_ne_zero hx
  rw [BitVec.getLsbD, h, Nat.testBit_two_pow] at hbit
  exact (of_decide_eq_true hbit).symm

theorem ite_error_ne {ε α : Type} {c : Prop} [Decidable c] {e : ε} {x : Except ε α} :
    (if c then .error e else x) ≠ .error e ↔ ¬ c ∧ x ≠ .error e := by
  by_cases hc : c <;> simp [hc]

namespace CacheTagArraySize

section Model

variable (size : CacheTagArraySize)

/-- The line that an address of the address space lies in. -/
def line (addr : Addr) : ℕ := addr.toNat % 2 ^ size.addrSizeInBits.toNat / size.lineSize.toNat

/-- What the constructor makes sure of. -/
structure Regular (lineBits indexBits : ℕ) : Prop where
  lineSize : size.lineSize.toNat = 2 ^ lineBits
  sets : size.sets.toNat = 2 ^ indexBits
  addrSize : size.addrSizeInBits.toNat ≤ 32
  ways : 0 < size.ways.toNat

end Model

variable {size : CacheTagArraySize} {lineBits indexBits : ℕ}

/-- The checks before the last one, which divides. -/
structure Checked (size : CacheTagArraySize) : Prop where
  ways : size.ways ≠ 0#32
  addrPos : 0 < size.addrSizeInBits.toNat
  addrLe : size.addrSizeInBits.toNat ≤ 32
  sizeInBytes : PseudoLRU.isPowerOfTwo size.sizeInBytes.toNat = true
  lineSize : PseudoLRU.isPowerOfTwo size.lineSize.toNat = true

theorem sizeInBytes_ne_zero (h : PseudoLRU.isPowerOfTwo size.sizeInBytes.toNat = true) :
    size.sizeInBytes ≠ 0#32 := by
  intro hzero
  rw [hzero] at h
  exact absurd h (by decide)

theorem checked_of_ne (h : size.check ≠ .error .cacheTagArrayInvalidSize) : size.Checked := by
  unfold check at h
  iterate 8 rw [ite_error_ne] at h
  rcases h with ⟨-, hways, -, haddr, hle, -, hsize, hline, -⟩
  rw [Bool.not_eq_true', Bool.not_eq_false] at hsize hline
  exact ⟨hways, Nat.pos_of_ne_zero fun h0 => haddr (BitVec.eq_of_toNat_eq h0), BitVec.not_lt.1 hle,
    hsize, hline⟩

/-- The size is not compared with a product that is not zero: a smaller one is no multiple. -/
theorem Checked.check_eq (h : size.Checked) : size.check
    = if size.lineSize * size.ways = 0#32 then .error .divisionByZero
      else if size.sizeInBytes % (size.lineSize * size.ways) = 0#32 then .ok ()
      else .error .cacheTagArrayInvalidSize := by
  have hsize := sizeInBytes_ne_zero h.sizeInBytes
  have hline : size.lineSize ≠ 0#32 := by
    intro hzero
    have hpower := h.lineSize
    rw [hzero] at hpower
    exact absurd hpower (by decide)
  have haddr : size.addrSizeInBits ≠ 0#32 := by
    intro hzero
    have hpos := h.addrPos
    rw [hzero] at hpos
    exact absurd hpos (by decide)
  have hle : ¬ 32#32 < size.addrSizeInBits := BitVec.not_lt.2 h.addrLe
  unfold check
  rw [if_neg hsize, if_neg h.ways, if_neg hline, if_neg haddr, if_neg hle, h.sizeInBytes,
    h.lineSize, BitVec.mul_comm size.ways]
  generalize size.lineSize * size.ways = product
  by_cases hzero : product = 0#32
  · simp [hzero]
  · by_cases hmod : size.sizeInBytes % product = 0#32
    · have hge : ¬ size.sizeInBytes < product := by
        intro hlt
        rw [BitVec.umod_eq_of_lt hlt] at hmod
        exact hsize hmod
      simp [hzero, hmod, hge]
    · simp [hzero, hmod]

theorem error_of_check {e : SimException} (h : size.check = .error e) :
    e = .cacheTagArrayInvalidSize ∨ e = .divisionByZero := by
  by_cases hinvalid : size.check = .error .cacheTagArrayInvalidSize
  · exact .inl (Except.error.inj (h.symm.trans hinvalid))
  · have heq := (checked_of_ne hinvalid).check_eq
    rw [h] at heq
    split_ifs at heq
    · exact .inr (Except.error.inj heq)
    · exact .inl (Except.error.inj heq)

theorem regular_of_check (h : size.check = .ok ()) :
    ∃ lineBits indexBits, size.Regular lineBits indexBits := by
  have hchecked := checked_of_ne (by rw [h]; exact nofun)
  have hmod : size.sizeInBytes % (size.lineSize * size.ways) = 0#32 := by
    have heq := hchecked.check_eq
    rw [h] at heq
    split_ifs at heq with hzero hmod
    exact hmod
  obtain ⟨m, hm⟩ := PseudoLRU.isPowerOfTwo_iff.1 hchecked.sizeInBytes
  obtain ⟨j, hj⟩ := PseudoLRU.isPowerOfTwo_iff.1 hchecked.lineSize
  have hdvd : (size.lineSize * size.ways).toNat ∣ size.sizeInBytes.toNat := by
    refine Nat.dvd_of_mod_eq_zero ?_
    rw [← BitVec.toNat_umod, hmod]
    rfl
  rw [hm] at hdvd
  obtain ⟨p, hp, hprod⟩ := (Nat.dvd_prime_pow Nat.prime_two).1 hdvd
  refine ⟨j, m - p, hj, ?_, hchecked.addrLe, ?_⟩
  · rw [sets, BitVec.toNat_udiv, BitVec.mul_comm, hprod, hm, Nat.pow_div hp (by decide)]
  · exact Nat.pos_of_ne_zero fun h0 => hchecked.ways (BitVec.eq_of_toNat_eq h0)

theorem toNat_tag_le (size : CacheTagArraySize) (addr : Addr) :
    (size.tag addr).toNat ≤ addr.toNat := by
  rw [tag, BitVec.toNat_ushiftRight, BitVec.toNat_and]
  exact Nat.le_trans (Nat.shiftRight_le _ _) Nat.and_le_left

namespace Regular

variable (h : size.Regular lineBits indexBits)
include h

theorem lineBits_eq : size.lineBits = lineBits := toNat_ctz h.lineSize

theorem setBits_eq : size.setBits = indexBits + lineBits := by
  rw [CacheTagArraySize.setBits, toNat_ctz h.sets, h.lineBits_eq]

theorem toNat_and_addrMask (addr : Addr) :
    (addr &&& size.addrMask).toNat = addr.toNat % 2 ^ size.addrSizeInBits.toNat := by
  have hle : 2 ^ size.addrSizeInBits.toNat ≤ 2 ^ 64 :=
    Nat.pow_le_pow_right (by decide) (Nat.le_trans h.addrSize (by decide))
  have hpos := Nat.two_pow_pos size.addrSizeInBits.toNat
  have hlt := Nat.mod_lt addr.toNat hpos
  rw [addrMask, and_bitmask, BitVec.toNat_setWidth, BitVec.toNat_setWidth, Nat.mod_eq_of_lt]
  omega

theorem set_eq (addr : Addr) : size.set addr = size.line addr % 2 ^ indexBits := by
  have hpos := Nat.two_pow_pos indexBits
  have hsets : ((size.sets - 1#32).setWidth 64 : Addr).toNat = 2 ^ indexBits - 1 := by
    have hlt := size.sets.isLt
    rw [h.sets] at hlt
    rw [BitVec.toNat_setWidth, BitVec.toNat_sub_of_le, h.sets]
    · exact Nat.mod_eq_of_lt (by simp; omega)
    · rw [BitVec.le_def, h.sets]
      exact hpos
  rw [set, BitVec.toNat_and, hsets, Nat.and_two_pow_sub_one_eq_mod, BitVec.toNat_ushiftRight,
    h.toNat_and_addrMask, h.lineBits_eq, Nat.shiftRight_eq_div_pow, line, h.lineSize]

theorem toNat_tag (addr : Addr) : (size.tag addr).toNat = size.line addr / 2 ^ indexBits := by
  rw [tag, BitVec.toNat_ushiftRight, h.toNat_and_addrMask, h.setBits_eq,
    Nat.shiftRight_eq_div_pow, line, h.lineSize, Nat.div_div_eq_div_mul, Nat.pow_add,
    Nat.mul_comm]

/-- Two addresses share the set and the tag when they lie in the same line. -/
theorem set_tag_iff {a b : Addr} :
    size.set a = size.set b ∧ size.tag a = size.tag b ↔ size.line a = size.line b := by
  rw [h.set_eq, h.set_eq]
  constructor
  · rintro ⟨hset, htag⟩
    have hdiv : size.line a / 2 ^ indexBits = size.line b / 2 ^ indexBits := by
      rw [← h.toNat_tag, ← h.toNat_tag, htag]
    rw [← Nat.div_add_mod (size.line a) (2 ^ indexBits), hset, hdiv, Nat.div_add_mod]
  · intro hline
    rw [hline]
    refine ⟨rfl, BitVec.eq_of_toNat_eq ?_⟩
    rw [h.toNat_tag, h.toNat_tag, hline]

/-- The sets that addresses have: all of them, or one for each line of a small address space. -/
theorem set_lt_iff {n : ℕ} (hline : size.lineSize = 4#32) :
    (∀ addr, size.set addr < n)
      ↔ min size.sets.toNat (2 ^ (size.addrSizeInBits.toNat - 2)) ≤ n := by
  have hline' : ∀ addr, size.line addr = addr.toNat % 2 ^ size.addrSizeInBits.toNat / 4 := by
    intro addr
    rw [line, hline]
    rfl
  have hspace : 2 ^ size.addrSizeInBits.toNat ≤ 4 * 2 ^ (size.addrSizeInBits.toNat - 2) := by
    rw [show 4 = 2 ^ 2 from rfl, ← Nat.pow_add]
    exact Nat.pow_le_pow_right (by decide) (by omega)
  rw [h.sets]
  have hsets := Nat.two_pow_pos indexBits
  constructor
  · intro hall
    -- the highest of these sets
    generalize hm : min (2 ^ indexBits) (2 ^ (size.addrSizeInBits.toNat - 2)) = m
    have hpos := Nat.two_pow_pos (size.addrSizeInBits.toNat - 2)
    have hin : 4 * (m - 1) < 2 ^ size.addrSizeInBits.toNat := by
      by_cases hsmall : size.addrSizeInBits.toNat < 2
      · have hone : size.addrSizeInBits.toNat - 2 = 0 := by omega
        rw [hone] at hm
        have := Nat.two_pow_pos size.addrSizeInBits.toNat
        omega
      · have hsplit : size.addrSizeInBits.toNat = 2 + (size.addrSizeInBits.toNat - 2) := by omega
        rw [hsplit, Nat.pow_add]
        omega
    have hwide : 2 ^ size.addrSizeInBits.toNat ≤ 2 ^ 32 :=
      Nat.pow_le_pow_right (by decide) h.addrSize
    have hset : size.set (BitVec.ofNat 64 (4 * (m - 1))) = m - 1 := by
      rw [h.set_eq, hline', BitVec.toNat_ofNat, Nat.mod_eq_of_lt (b := 2 ^ 64) (by omega),
        Nat.mod_eq_of_lt hin, Nat.mul_div_cancel_left _ (by decide), Nat.mod_eq_of_lt (by omega)]
    have hlt := hall (BitVec.ofNat 64 (4 * (m - 1)))
    omega
  · intro hle addr
    have hmod := Nat.mod_lt (size.line addr) hsets
    have hlt : size.line addr < 2 ^ (size.addrSizeInBits.toNat - 2) := by
      have hcut := Nat.mod_lt addr.toNat (Nat.two_pow_pos size.addrSizeInBits.toNat)
      rw [hline']
      omega
    have hmodle := Nat.mod_le (size.line addr) (2 ^ indexBits)
    rw [h.set_eq]
    omega

end Regular

section Checks

variable (size : CacheTagArraySize)

/-- The number of bytes in one set, as an exact number. -/
def setBytes : ℕ := size.ways.toNat * size.lineSize.toNat

/-- The sets are a power of two, fill the cache exactly, and an address has one of them. -/
structure Sound : Prop where
  sets : ∃ k, size.sets.toNat = 2 ^ k
  bytes : size.sets.toNat * size.ways.toNat * size.lineSize.toNat = size.sizeInBytes.toNat
  set_lt : ∀ addr, size.set addr < size.sets.toNat

/-- The constructor throws, or the geometry is sound; it divides by zero in neither case. -/
def SoundlyChecked : Prop :=
  size.check = .error .cacheTagArrayInvalidSize ∨ size.check = .ok () ∧ size.Sound

/-- The product is exact, or a check before the last one fails, or the wrapped product divides
nothing: it is not zero, and no divisor of the size. -/
def ProductSafe : Prop :=
  size.setBytes < 2 ^ 32 ∨ ¬ size.Checked
    ∨ size.lineSize * size.ways ≠ 0#32 ∧ size.sizeInBytes % (size.lineSize * size.ways) ≠ 0#32

variable {size}

theorem toNat_product (h : size.setBytes < 2 ^ 32) :
    (size.lineSize * size.ways).toNat = size.setBytes := by
  rw [BitVec.toNat_mul, Nat.mul_comm]
  exact Nat.mod_eq_of_lt h

theorem sound_of_check (h : size.check = .ok ()) (hbytes : size.setBytes < 2 ^ 32) :
    size.Sound := by
  obtain ⟨lineBits, indexBits, hr⟩ := regular_of_check h
  have hmod : size.sizeInBytes % (size.lineSize * size.ways) = 0#32 := by
    have heq := (checked_of_ne (by rw [h]; exact nofun)).check_eq
    rw [h] at heq
    split_ifs at heq with hzero hmod
    exact hmod
  have hdvd : size.setBytes ∣ size.sizeInBytes.toNat := by
    refine Nat.dvd_of_mod_eq_zero ?_
    rw [← toNat_product hbytes, ← BitVec.toNat_umod, hmod]
    rfl
  refine ⟨⟨indexBits, hr.sets⟩, ?_, fun addr => ?_⟩
  · rw [Nat.mul_assoc, sets, BitVec.mul_comm, BitVec.toNat_udiv, toNat_product hbytes]
    exact Nat.div_mul_cancel hdvd
  · rw [hr.set_eq, hr.sets]
    exact Nat.mod_lt _ (Nat.two_pow_pos _)

theorem Checked.setBytes_pos (h : size.Checked) : 0 < size.setBytes := by
  obtain ⟨j, hj⟩ := PseudoLRU.isPowerOfTwo_iff.1 h.lineSize
  have hways : 0 < size.ways.toNat :=
    Nat.pos_of_ne_zero fun h0 => h.ways (BitVec.eq_of_toNat_eq h0)
  rw [setBytes, hj]
  exact Nat.mul_pos hways (Nat.two_pow_pos j)

/-- A geometry whose sets would be larger than the address space does not fill the cache. -/
theorem Sound.setBytes_lt (h : size.Sound) : size.setBytes < 2 ^ 32 := by
  obtain ⟨k, hk⟩ := h.sets
  have hbytes := h.bytes
  rw [Nat.mul_assoc] at hbytes
  have hpos : 0 < size.sets.toNat := by
    rw [hk]
    exact Nat.two_pow_pos k
  have hle : size.setBytes ≤ size.sets.toNat * size.setBytes := Nat.le_mul_of_pos_left _ hpos
  have hlt := size.sizeInBytes.isLt
  rw [← hbytes] at hlt
  exact hle.trans_lt hlt

/-- For every configuration: the constructor is sound exactly when the product of the ways and the
line size either does not wrap around, or does not get through the checks. -/
theorem soundlyChecked_iff (size : CacheTagArraySize) : size.SoundlyChecked ↔ size.ProductSafe := by
  constructor
  · intro h
    by_contra hn
    simp only [ProductSafe, not_or, not_not, not_and_or] at hn
    obtain ⟨hlarge, hchecked, hproduct⟩ := hn
    have heq := hchecked.check_eq
    rcases h with herror | ⟨-, hsound⟩
    · rw [herror] at heq
      rcases hproduct with hz | hm
      · rw [if_pos hz] at heq
        cases heq
      · rw [if_pos hm] at heq
        split_ifs at heq <;> cases heq
    · exact hlarge hsound.setBytes_lt
  · intro h
    by_cases hinvalid : size.check = .error .cacheTagArrayInvalidSize
    · exact .inl hinvalid
    · have hchecked := checked_of_ne hinvalid
      have heq := hchecked.check_eq
      rcases h with hbytes | hnot | ⟨hzero, hmod⟩
      · have hzero : size.lineSize * size.ways ≠ 0#32 := by
          intro hz
          have hpos := hchecked.setBytes_pos
          rw [← toNat_product hbytes, hz] at hpos
          exact absurd hpos (by decide)
        rw [if_neg hzero] at heq
        split_ifs at heq
        · exact .inr ⟨heq, sound_of_check heq hbytes⟩
        · exact absurd heq hinvalid
      · exact absurd hchecked hnot
      · rw [if_neg hzero, if_neg hmod] at heq
        exact absurd heq hinvalid

/-- Ways and lines whose product wraps around: to zero, by which the last check divides, or to the
size of a line, and the cache seems to have one set. -/
theorem not_soundlyChecked :
    ¬ (⟨4#32, 0x40000000#32, 4#32, 32#32⟩ : CacheTagArraySize).SoundlyChecked
      ∧ ¬ (⟨4#32, 0x40000001#32, 4#32, 32#32⟩ : CacheTagArraySize).SoundlyChecked := by
  have hzero : (⟨4#32, 0x40000000#32, 4#32, 32#32⟩ : CacheTagArraySize).check
      = .error .divisionByZero := rfl
  have hsmall : (⟨4#32, 0x40000001#32, 4#32, 32#32⟩ : CacheTagArraySize).check = .ok () := rfl
  constructor
  · rintro (h | ⟨h, -⟩)
    · exact absurd (hzero.symm.trans h) nofun
    · exact absurd (hzero.symm.trans h) nofun
  · rintro (h | ⟨-, h⟩)
    · exact absurd (hsmall.symm.trans h) nofun
    · exact absurd h.bytes (by decide)

end Checks

end CacheTagArraySize

end MiptMips
