import Mathlib.Tactic.IntervalCases
import MiptMips.Memory.PlainMemory

/-!
# Store, then load

A store of `n` bytes writes exactly `n` bytes at its address. A load of `n` bytes reads a whole
register from that address and keeps its low bits. In little-endian order the low bits come from
the bytes the store wrote. In big-endian order they come from the far end of the register, so a
load narrower than the register looks at the bytes from `w / 8 - n` on, which the store did not
touch (`byteAt_after_store_big`).
-/

namespace MiptMips

open FuncMemory LawfulFuncMemory

variable {M : Type} [FuncMemory M] {w : ℕ}

/-- Byte `k` of a value, counted from the low end. -/
def byteOf (v : BitVec w) (k : ℕ) : Byte := (v >>> (8 * k)).setWidth 8

theorem getLsbD_byteOf (v : BitVec w) (k j : ℕ) :
    (byteOf v k).getLsbD j = (decide (j < 8) && v.getLsbD (8 * k + j)) := by
  simp [byteOf]

/-- Two values agree on the low `8 * n` bits when they agree on the low `n` bytes. -/
theorem setWidth_eq_iff_byteOf (x y : BitVec w) (n : ℕ) :
    x.setWidth (8 * n) = y.setWidth (8 * n) ↔ ∀ k < n, byteOf x k = byteOf y k := by
  constructor
  · intro h k hk
    apply BitVec.eq_of_getLsbD_eq
    intro j hj
    have hb := congrArg (fun z => z.getLsbD (8 * k + j)) h
    have hlt : 8 * k + j < 8 * n := by omega
    rw [getLsbD_byteOf, getLsbD_byteOf]
    simpa [hlt] using congrArg (decide (j < 8) && ·) hb
  · intro h
    apply BitVec.eq_of_getLsbD_eq
    intro i hi
    have hb := congrArg (fun z => z.getLsbD (i % 8)) (h (i / 8) (by omega))
    have hlt : i % 8 < 8 := by omega
    have heq : 8 * (i / 8) + i % 8 = i := by omega
    simp only [getLsbD_byteOf, hlt, heq, decide_true, Bool.true_and] at hb
    simp [hi, hb]

section Unpack

theorem getD_unpackArray_little (v : BitVec w) (k : ℕ) (hk : k < w / 8) :
    (unpackArray .little v).getD k 0#8 = byteOf v k := by
  simp [unpackArray, unpackArrayLe, List.getD_eq_getElem?_getD, hk, byteOf]

theorem getD_unpackArray_big (v : BitVec w) (k : ℕ) (hk : k < w / 8) :
    (unpackArray .big v).getD k 0#8 = byteOf v (w / 8 - 1 - k) := by
  simp [unpackArray, unpackArrayBe, List.getD_eq_getElem?_getD, hk, byteOf]

theorem byteOf_setWidth (v : BitVec w) (n k : ℕ) (hk : k < n) :
    byteOf (v.setWidth (8 * n)) k = byteOf v k := by
  apply BitVec.eq_of_getLsbD_eq
  intro j hj
  have : 8 * k + j < 8 * n := by omega
  simp [getLsbD_byteOf, this]

end Unpack

section Read

variable [LawfulFuncMemory M]

/-- Where a read of a whole register finds the byte `k` of its value. -/
def bytePosition (w : ℕ) (e : Endian) (k : ℕ) : ℕ :=
  match e with
  | .little => k
  | .big => w / 8 - 1 - k

theorem byteOf_read (m : M) (e : Endian) (addr : Addr) (k : ℕ) (hk : k < w / 8) (h8 : 8 ∣ w) :
    byteOf (read m w e addr) k = byteAt m (addr.offset (bytePosition w e k)) := by
  apply BitVec.eq_of_getLsbD_eq
  intro j hj
  have hi : 8 * k + j < w := by omega
  have hd : (8 * k + j) / 8 = k := by omega
  have hm : (8 * k + j) % 8 = j := by omega
  rw [getLsbD_byteOf]
  cases e with
  | little =>
    rw [getLsbD_read_little m addr _ hi h8, hd, hm]
    simp [hj, bytePosition]
  | big =>
    rw [getLsbD_read_big m addr _ hi h8, hd, hm]
    simp [hj, bytePosition]

end Read

section Store

/-- The sizes of the accesses. -/
def IsSize (n : ℕ) : Prop := n = 1 ∨ n = 2 ∨ n = 4 ∨ n = 8

instance (n : ℕ) : Decidable (IsSize n) := inferInstanceAs (Decidable (_ ∨ _))

/-- The sizes of the accesses that fit into a register of `w` bits. -/
def AccessSize (w n : ℕ) : Prop := IsSize n ∧ 8 * n ≤ w

theorem writeInteger_eq {n : ℕ} (h : IsSize n) (m : M) (e : Endian) (v : BitVec w)
    (addr : Addr) : writeInteger m e v addr n = write m e (v.setWidth (8 * n)) addr := by
  obtain rfl | rfl | rfl | rfl := h <;> simp [writeInteger]

variable [LawfulFuncMemory M]

/-- An address inside the memory stands for itself. -/
theorem canon_offset {m : M} {addr : Addr} {d : ℕ} (h : addr.toNat + d < size m) :
    (canon m (addr.offset d)).toNat = addr.toNat + d := by
  have hs := size_le m
  have ht : (addr.offset d).toNat = addr.toNat + d := toNat_offset (by omega)
  rw [canon_of_lt (by omega), ht]

/-- The far end of a register is not an alias of the `n` bytes at the address, as long as the
address is not zero. -/
theorem canon_far {m : M} {addr : Addr} {n d : ℕ} (hw : w = 32 ∨ w = 64) (hn : AccessSize w n)
    (hlt : 8 * n < w) (ha : addr ≠ 0#64) (hin : addr.toNat + n ≤ size m)
    (hd : w / 8 - n ≤ d) (hd' : d < w / 8) :
    ¬ (addr.toNat ≤ (canon m (addr.offset d)).toNat
      ∧ (canon m (addr.offset d)).toNat < addr.toNat + n) := by
  rintro ⟨h₁, h₂⟩
  have hpos : 0 < addr.toNat := by
    rcases Nat.eq_zero_or_pos addr.toNat with h | h
    · exact absurd (BitVec.eq_of_toNat_eq (by simpa using h)) ha
    · exact h
  have hlow : n = 1 ∨ n = 2 ∨ n = 4 := by
    obtain ⟨rfl | rfl | rfl | rfl, h⟩ := hn <;> omega
  rcases size_eq m with h | ⟨k, hk, hs⟩
  · omega
  · have hmod := canon_mod (m := m) (x := addr.offset d) (by omega)
    have hdvd : 2 ^ k ∣ 2 ^ 64 := Nat.pow_dvd_pow 2 hk
    rw [hs, Addr.offset, BitVec.toNat_add, BitVec.toNat_ofNat, Nat.mod_mod_of_dvd _ hdvd,
      Nat.add_mod, Nat.mod_mod_of_dvd _ hdvd, ← Nat.add_mod] at hmod
    rw [hs] at hin
    rw [Addr.offset] at h₁ h₂
    -- the distance is a multiple of the size, so the memory has at most four bytes
    have hsmall : k < 3 := by
      by_contra hge
      have h8 : 8 ≤ 2 ^ k := by
        calc 8 = 2 ^ 3 := rfl
          _ ≤ 2 ^ k := Nat.pow_le_pow_right (by omega) (by omega)
      have hq := Nat.div_add_mod (addr.toNat + d) (2 ^ k)
      rcases Nat.eq_zero_or_pos ((addr.toNat + d) / 2 ^ k) with h0 | h0
      · rw [h0] at hq
        rcases hw with rfl | rfl <;> omega
      · have : 2 ^ k ≤ 2 ^ k * ((addr.toNat + d) / 2 ^ k) := Nat.le_mul_of_pos_right _ h0
        rcases hw with rfl | rfl <;> omega
    interval_cases k <;> rcases hw with rfl | rfl <;> rcases hlow with rfl | rfl | rfl <;> omega

/-- Which byte of an `n`-byte value lies `i` bytes on. -/
def byteIndex (n : ℕ) (e : Endian) (i : ℕ) : ℕ :=
  match e with
  | .little => i
  | .big => n - 1 - i

/-- The memory after a full store of `n` bytes of `v`, as a load sees it. -/
def bytesAfterStore (m : M) (e : Endian) (addr : Addr) (v : BitVec w) (n : ℕ) (x : Addr) : Byte :=
  if addr.toNat ≤ (canon m x).toNat ∧ (canon m x).toNat < addr.toNat + n
  then byteOf v (byteIndex n e ((canon m x).toNat - addr.toNat))
  else byteAt m x

/-- A write inside the memory: where it stands for itself, and what a load sees after it. -/
structure Written (m m' : M) (e : Endian) (addr : Addr) (v : BitVec w) (n : ℕ) : Prop where
  size : size m' = size m
  canon : canon m' = canon m
  bytes : ∀ x, byteAt m' x = bytesAfterStore m e addr v n x

theorem writeInteger_written {m : M} {addr : Addr} {n : ℕ} (e : Endian) (v : BitVec w)
    (hn : IsSize n) (hin : addr.toNat + n ≤ size m) :
    ∃ m', writeInteger m e v addr n = .ok m' ∧ Written m m' e addr v n := by
  have hlen : (unpackArray e (v.setWidth (8 * n))).length = n := by simp
  rw [writeInteger_eq hn, write]
  have hin' : addr.toNat + (unpackArray e (v.setWidth (8 * n))).length ≤ size m := by
    rw [hlen]
    exact hin
  obtain ⟨m', hm', hsize, hcanon, hb⟩ := host_to_guest hin'
  refine ⟨m', hm', hsize, hcanon, fun x => ?_⟩
  rw [hb x, hlen, bytesAfterStore]
  split
  case isTrue hx =>
    have hk : (canon m x).toNat - addr.toNat < 8 * n / 8 := by omega
    cases e with
    | little => rw [getD_unpackArray_little _ _ hk, byteOf_setWidth _ _ _ (by omega), byteIndex]
    | big =>
      rw [getD_unpackArray_big _ _ hk, byteOf_setWidth _ _ _ (by omega), byteIndex]
      congr 1
      omega
  case isFalse => rfl

theorem writeInteger_ok {m : M} {addr : Addr} {n : ℕ} (e : Endian) (v : BitVec w)
    (hn : IsSize n) (hin : addr.toNat + n ≤ size m) :
    ∃ m', writeInteger m e v addr n = .ok m'
      ∧ ∀ x, byteAt m' x = bytesAfterStore m e addr v n x := by
  obtain ⟨m', hm', hwritten⟩ := writeInteger_written e v hn hin
  exact ⟨m', hm', hwritten.bytes⟩

/-- A store that did not throw was inside the memory. -/
theorem inRange_of_writeInteger {m m' : M} {addr : Addr} {n : ℕ} {e : Endian} {v : BitVec w}
    (hn : IsSize n) (h : writeInteger m e v addr n = .ok m') : addr.toNat + n ≤ size m := by
  by_contra hin
  have hlen : (unpackArray e (v.setWidth (8 * n))).length = n := by simp
  rw [writeInteger_eq hn, write] at h
  have hfar : size m < addr.toNat + (unpackArray e (v.setWidth (8 * n))).length := by omega
  obtain ⟨err, he⟩ := host_to_guest_error hfar
  rw [he] at h
  cases h

/-- A store changes nothing when its bytes are there already. -/
theorem writeInteger_unchanged_iff {m m' : M} {addr : Addr} {n : ℕ} {e : Endian} {v : BitVec w}
    (hn : IsSize n) (h : writeInteger m e v addr n = .ok m') :
    (∀ x, byteAt m' x = byteAt m x)
      ↔ ∀ i < n, byteAt m (addr.offset i) = byteOf v (byteIndex n e i) := by
  have hin := inRange_of_writeInteger hn h
  obtain ⟨m₁, h₁, hb⟩ := writeInteger_ok e v hn hin
  obtain rfl : m' = m₁ := by
    rw [h] at h₁
    exact Except.ok.inj h₁
  simp only [hb, bytesAfterStore]
  constructor
  · intro hx i hi
    have hc : (canon m (addr.offset i)).toNat = addr.toNat + i := canon_offset (by omega)
    have hi' : addr.toNat + i - addr.toNat = i := by omega
    simpa [hc, hi, hi'] using (hx (addr.offset i)).symm
  · intro hbytes x
    split
    case isTrue hx =>
      obtain ⟨i, hi⟩ : ∃ i, (canon m x).toNat = addr.toNat + i :=
        ⟨(canon m x).toNat - addr.toNat, by omega⟩
      have hs := size_le m
      have hx' : addr.offset i = canon m x := by
        apply BitVec.eq_of_toNat_eq
        rw [toNat_offset (by omega), hi]
      have hsub : addr.toNat + i - addr.toNat = i := by omega
      rw [← byteAt_canon m x, ← hx', hbytes i (by omega), hx', hi, hsub]
    case isFalse => rfl

end Store

section RoundTrip

/-- What a load of `n` bytes makes of the value that was stored. -/
def extended (l : FuncInstr w) (v : BitVec w) : BitVec w :=
  if l.isUnsignedLoad then (v.setWidth (8 * l.memSize)).setWidth w
  else (v.setWidth (8 * l.memSize)).signExtend w

theorem vDst0_load (m : M) (l : FuncInstr w) (hpos : 0 < l.memSize) :
    (load m l).vDst0 = extended l (read m w l.endian l.memAddr) := by
  rw [load, FuncInstr.load, extended, Nat.mul_comm, and_bitmask]
  dsimp only
  split
  · rfl
  · rw [FuncInstr.signExtensionForLoad]
    rcases Nat.le_total (8 * l.memSize) w with hw | hw
    · rw [sign_extension_eq (by omega) hw, BitVec.setWidth_setWidth_of_le _ hw, BitVec.setWidth_eq]
    · have hlt : ¬ 8 * l.memSize < w := by omega
      rw [signExtension, if_neg hlt, BitVec.signExtend_eq_setWidth_of_le _ hw]

/-- Extension loses nothing of the low bits. -/
theorem extended_inj {n : ℕ} (l : FuncInstr w) (hsize : l.memSize = n) (hw : 8 * n ≤ w)
    (x y : BitVec w) :
    extended l x = extended l y ↔ x.setWidth (8 * n) = y.setWidth (8 * n) := by
  subst hsize
  constructor
  · intro h
    apply BitVec.eq_of_getLsbD_eq
    intro i hi
    have hiw : i < w := by omega
    have hb := congrArg (fun z => z.getLsbD i) h
    unfold extended at hb
    split at hb
    · simpa [hiw] using hb
    · rw [BitVec.getLsbD_signExtend, BitVec.getLsbD_signExtend] at hb
      simpa [hiw, hi] using hb
  · intro h
    simp only [extended, h]

/-- A full store of `n` bytes and a load of `n` bytes at the same non-zero address, inside the
memory. -/
structure StoreThenLoad [LawfulFuncMemory M] (m : M) (s l : FuncInstr w) (n : ℕ) : Prop where
  width : w = 32 ∨ w = 64
  access : AccessSize w n
  isStore : s.isStore
  isLoad : l.isLoad
  storeSize : s.memSize = n
  loadSize : l.memSize = n
  sameAddr : l.memAddr = s.memAddr
  sameEndian : l.endian = s.endian
  unmasked : s.mask &&& bitmask w (n * 8) = bitmask w (n * 8)
  nonZero : s.memAddr ≠ 0#64
  inRange : s.memAddr.toNat + n ≤ size m

/-- The store succeeds, and the load after it gives back the low bits of the stored value. -/
def RoundTrip (m : M) (s l : FuncInstr w) : Prop :=
  ∃ m', loadStore m s = .ok (s, m') ∧ ∃ l', loadStore m' l = .ok (l', m')
    ∧ l'.vDst0 = extended l s.vSrc1

theorem roundTrip_iff_vDst0 {m m' : M} {s l : FuncInstr w} (h : l.isLoad)
    (hm' : loadStore m s = .ok (s, m')) :
    RoundTrip m s l ↔ (load m' l).vDst0 = extended l s.vSrc1 := by
  have hload : loadStore m' l = .ok (load m' l, m') := by simp [loadStore, h]
  constructor
  · rintro ⟨m₁, h₁, l₁, hl₁, hv⟩
    rw [hm'] at h₁
    simp only [Except.ok.injEq, Prod.mk.injEq, true_and] at h₁
    subst h₁
    rw [hload] at hl₁
    simp only [Except.ok.injEq, Prod.mk.injEq, and_true] at hl₁
    rw [hl₁, hv]
  · exact fun hv => ⟨m', hm', load m' l, hload, hv⟩

/-- The bytes at the far end of the register hold the value already. -/
def FarBytesHold (m : M) (s : FuncInstr w) (n : ℕ) : Prop :=
  ∀ k < n, byteAt m (s.memAddr.offset (w / 8 - 1 - k)) = byteOf s.vSrc1 k

variable [LawfulFuncMemory M] {m : M} {s l : FuncInstr w} {n : ℕ}

theorem loadStore_store (h : StoreThenLoad m s l n) :
    ∃ m', loadStore m s = .ok (s, m')
      ∧ ∀ x, byteAt m' x = bytesAfterStore m s.endian s.memAddr s.vSrc1 n x := by
  obtain ⟨m', hm', hb⟩ := writeInteger_ok s.endian s.vSrc1 h.access.1 h.inRange
  refine ⟨m', ?_, hb⟩
  have hl : s.isLoad = false := by
    have := h.isStore
    simp only [FuncInstr.isStore, beq_iff_eq] at this
    simp [FuncInstr.isLoad, FuncInstr.isUnsignedLoad, FuncInstr.isSignedLoad,
      FuncInstr.isPartialLoad, this]
  rw [loadStore, hl, h.isStore, store, if_neg h.nonZero, h.storeSize]
  simp only [Bool.false_eq_true, if_false, if_true, h.unmasked, hm']
  rfl

/-- The byte a load finds where it expects byte `k` of the value. -/
theorem byteAt_bytePosition (h : StoreThenLoad m s l n) {k : ℕ} (hk : k < n) :
    bytesAfterStore m s.endian s.memAddr s.vSrc1 n
        (s.memAddr.offset (bytePosition w s.endian k))
      = if s.endian = .little ∨ 8 * n = w then byteOf s.vSrc1 k
        else byteAt m (s.memAddr.offset (w / 8 - 1 - k)) := by
  have hin := h.inRange
  have hw8 : 8 * n ≤ w := h.access.2
  rcases he : s.endian with _ | _
  · have hc : (canon m (s.memAddr.offset k)).toNat = s.memAddr.toNat + k :=
      canon_offset (by omega)
    have hi : s.memAddr.toNat + k - s.memAddr.toNat = k := by omega
    simp [bytesAfterStore, bytePosition, byteIndex, hc, hk, hi]
  · by_cases hfull : 8 * n = w
    · have hp : w / 8 - 1 - k < n := by omega
      have hc : (canon m (s.memAddr.offset (w / 8 - 1 - k))).toNat
          = s.memAddr.toNat + (w / 8 - 1 - k) := canon_offset (by omega)
      have hi : n - 1 - (w / 8 - 1 - k) = k := by omega
      simp [bytesAfterStore, bytePosition, byteIndex, hc, hp, hi, hfull]
    · have hfar := canon_far (d := w / 8 - 1 - k) h.width h.access (by omega) h.nonZero hin
        (by omega) (by omega)
      simp [bytesAfterStore, bytePosition, hfar, hfull]

/-- The value comes back when the order is little-endian, when the access is as wide as the
register, or when the far end of the register happens to hold the value before the store. -/
theorem roundTrip_iff (h : StoreThenLoad m s l n) :
    RoundTrip m s l ↔ s.endian = .little ∨ 8 * n = w ∨ FarBytesHold m s n := by
  obtain ⟨m', hm', hb⟩ := loadStore_store h
  have h8 : 8 ∣ w := by rcases h.width with rfl | rfl <;> decide
  have hw8 : 8 * n ≤ w := h.access.2
  have hbytes : ∀ k < n, byteOf (read m' w l.endian l.memAddr) k
      = if s.endian = .little ∨ 8 * n = w then byteOf s.vSrc1 k
        else byteAt m (s.memAddr.offset (w / 8 - 1 - k)) := by
    intro k hk
    rw [byteOf_read m' _ _ k (by omega) h8, hb, h.sameEndian, h.sameAddr,
      byteAt_bytePosition h hk]
  have hpos : 0 < l.memSize := by
    have := h.access.1
    rw [IsSize] at this
    rw [h.loadSize]
    omega
  rw [roundTrip_iff_vDst0 h.isLoad hm', vDst0_load m' l hpos, extended_inj l h.loadSize hw8,
    setWidth_eq_iff_byteOf]
  by_cases hc : s.endian = .little ∨ 8 * n = w
  · simp only [hc, if_true] at hbytes
    refine iff_of_true hbytes ?_
    rcases hc with hc | hc
    · exact .inl hc
    · exact .inr (.inl hc)
  · simp only [hc, if_false] at hbytes
    simp only [not_or] at hc
    simp only [hc, false_or]
    exact forall₂_congr fun k hk => by rw [hbytes k hk]

end RoundTrip

section Example

/-- Sixteen bytes of zeroes. -/
def smallMemory : PlainMemory := .create 4 PlainMemory.four_bits_lt fun _ => 0#8

/-- `sh $t1, 4($zero)` with `0x1234` in its register, after its address is computed. -/
def halfStore (e : Endian) : FuncInstr 32 :=
  { operation := .outStore, memAddr := 4#64, memSize := 2, PC := 0x1000#64, newPC := 0x1004#64
    vSrc1 := 0x1234#32, mask := bitmask 32 16, executor := .storeAddrAligned
    src0 := .mips 0, src1 := .mips 9, dst0 := .mips 0, dst1 := .mips 0
    raw := 0xa4090004#32, endian := e }

/-- `lhu $t1, 4($zero)`, after its address is computed. -/
def halfLoad (e : Endian) : FuncInstr 32 :=
  { operation := .outLoadu, memAddr := 4#64, memSize := 2, PC := 0x1004#64, newPC := 0x1008#64
    executor := .loadAddrAligned, src0 := .mips 0, src1 := .mips 0, dst0 := .mips 9
    dst1 := .mips 0, raw := 0x94090004#32, endian := e }

theorem halfStore_then_halfLoad (e : Endian) :
    StoreThenLoad smallMemory (halfStore e) (halfLoad e) 2 where
  width := .inl rfl
  access := ⟨.inr (.inl rfl), by decide⟩
  isStore := rfl
  isLoad := rfl
  storeSize := rfl
  loadSize := rfl
  sameAddr := rfl
  sameEndian := rfl
  unmasked := by cases e <;> decide
  nonZero := by cases e <;> decide
  inRange := by cases e <;> decide

theorem roundTrip_iff_little :
    StoreThenLoad smallMemory (halfStore .little) (halfLoad .little) 2
      ∧ RoundTrip smallMemory (halfStore .little) (halfLoad .little) :=
  ⟨halfStore_then_halfLoad .little,
    (roundTrip_iff (halfStore_then_halfLoad .little)).2 (.inl rfl)⟩

/-- In big-endian order the halfword load looks two bytes past the stored halfword. -/
theorem not_roundTrip_big :
    StoreThenLoad smallMemory (halfStore .big) (halfLoad .big) 2
      ∧ ¬ RoundTrip smallMemory (halfStore .big) (halfLoad .big) := by
  refine ⟨halfStore_then_halfLoad .big, ?_⟩
  have hm : loadStore smallMemory (halfStore .big)
      = .ok (halfStore .big, smallMemory.copyInto 4 [0x12#8, 0x34#8] (by decide)) := rfl
  rw [roundTrip_iff_vDst0 rfl hm]
  decide

end Example

end MiptMips
