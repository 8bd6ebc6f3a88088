import MiptMips.Memory.StoreLoad
import MiptMips.Mips.Narrow

/-!
# Memories that look the same

Two memories look the same when they have the same cells and every load sees the same bytes. A
copy keeps that. So do the accesses of an instruction on 64-bit registers and of its narrowing,
except that a store under a partial mask reads and writes a whole register: the wider one touches
four more bytes, which have to be there and are written back as they were read
(`store_narrow`).
-/

namespace MiptMips

open Bits FuncMemory LawfulFuncMemory

variable {M : Type} [FuncMemory M] [LawfulFuncMemory M]

structure SameMemory (m m' : M) : Prop where
  size_eq : size m' = size m
  canon_eq : canon m' = canon m
  byteAt_eq (x : Addr) : byteAt m' x = byteAt m x

variable {m m' r : M}

section Copy

theorem SameMemory.read_eq (h : SameMemory m m') (w : ℕ) (e : Endian) (addr : Addr) :
    read m' w e addr = read m w e addr := by
  simp only [FuncMemory.read, readBytes_eq, h.byteAt_eq]

/-- What a copy that did not throw leaves. -/
theorem memcpy_ok {addr : Addr} {bytes : List Byte} (h : memcpyHostToGuest m addr bytes = .ok r) :
    addr.toNat + bytes.length ≤ size m ∧ size r = size m ∧ canon r = canon m ∧ ∀ x, byteAt r x
      = if addr.toNat ≤ (canon m x).toNat ∧ (canon m x).toNat < addr.toNat + bytes.length
        then bytes.getD ((canon m x).toNat - addr.toNat) 0#8 else byteAt m x := by
  have hin : addr.toNat + bytes.length ≤ size m := by
    by_contra hlt
    have hfar : size m < addr.toNat + bytes.length := by omega
    obtain ⟨e, he⟩ := host_to_guest_error hfar
    rw [he] at h
    cases h
  obtain ⟨r', hr', hs, hc, hb⟩ := host_to_guest hin
  obtain rfl : r = r' := by
    rw [h] at hr'
    exact Except.ok.inj hr'
  exact ⟨hin, hs, hc, hb⟩

/-- A wider copy that puts back what it covers beyond the narrower one looks the same. -/
theorem SameMemory.memcpy (h : SameMemory m m') {addr : Addr} {bytes more : List Byte}
    (hr : memcpyHostToGuest m addr bytes = .ok r)
    (hin : addr.toNat + (bytes.length + more.length) ≤ size m)
    (hmore : ∀ k < more.length,
      more.getD k 0#8 = byteAt m (addr.offset (bytes.length + k))) :
    ∃ r', memcpyHostToGuest m' addr (bytes ++ more) = .ok r' ∧ SameMemory r r' := by
  obtain ⟨-, hs, hc, hb⟩ := memcpy_ok hr
  have hlen : (bytes ++ more).length = bytes.length + more.length := List.length_append
  have hin' : addr.toNat + (bytes ++ more).length ≤ size m' := by
    rw [hlen, h.size_eq]
    exact hin
  obtain ⟨r', hr', hs', hc', hb'⟩ := host_to_guest hin'
  refine ⟨r', hr', ⟨by rw [hs', hs, h.size_eq], by rw [hc', hc, h.canon_eq], fun x => ?_⟩⟩
  rw [hb' x, hb x, h.canon_eq, h.byteAt_eq, hlen]
  by_cases h₁ : addr.toNat ≤ (canon m x).toNat ∧ (canon m x).toNat < addr.toNat + bytes.length
  · have h₂ : addr.toNat ≤ (canon m x).toNat
        ∧ (canon m x).toNat < addr.toNat + (bytes.length + more.length) := by omega
    rw [if_pos h₁, if_pos h₂, List.getD_eq_getElem?_getD, List.getD_eq_getElem?_getD,
      List.getElem?_append_left (by omega)]
  · rw [if_neg h₁]
    split
    case isTrue h₂ =>
      obtain ⟨k, hk⟩ : ∃ k, (canon m x).toNat = addr.toNat + (bytes.length + k) :=
        ⟨(canon m x).toNat - addr.toNat - bytes.length, by omega⟩
      have hsize := size_le m
      have hx : addr.offset (bytes.length + k) = canon m x := by
        apply BitVec.eq_of_toNat_eq
        rw [toNat_offset (by omega), hk]
      have hsub : addr.toNat + (bytes.length + k) - addr.toNat = bytes.length + k := by omega
      have hk' := hmore k (by omega)
      rw [hx, byteAt_canon] at hk'
      rw [hk, hsub, ← hk', List.getD_eq_getElem?_getD, List.getD_eq_getElem?_getD,
        List.getElem?_append_right (by omega)]
      simp
    case isFalse => rfl

theorem SameMemory.memcpy_same (h : SameMemory m m') {addr : Addr} {bytes : List Byte}
    (hr : memcpyHostToGuest m addr bytes = .ok r) :
    ∃ r', memcpyHostToGuest m' addr bytes = .ok r' ∧ SameMemory r r' := by
  have hin : addr.toNat + (bytes.length + ([] : List Byte).length) ≤ size m := (memcpy_ok hr).1
  simpa using h.memcpy hr hin (by simp)

end Copy

section Access

variable {g : FuncInstr 64}

/-- A narrow little-endian read is the low half of a wide one. -/
theorem read_narrow (m : M) (addr : Addr) :
    (read m 64 .little addr).setWidth 32 = read m 32 .little addr := by
  apply BitVec.eq_of_getLsbD_eq
  intro i hi
  rw [BitVec.getLsbD_setWidth, getLsbD_read_little m addr i (by omega) (by decide),
    getLsbD_read_little m addr i hi (by decide)]
  simp [hi]

theorem signExtension_narrow {bits : ℕ} (h₀ : 0 < bits) (h₁ : bits ≤ 32) (v : BitVec 64) :
    (signExtension bits v).setWidth 32 = signExtension bits (v.setWidth 32) := by
  rw [sign_extension_eq h₀ (by omega), sign_extension_eq h₀ h₁,
    BitVec.setWidth_setWidth_of_le _ h₁]
  apply BitVec.eq_of_getLsbD_eq
  intro i hi
  have : i < 64 := by omega
  rw [BitVec.getLsbD_setWidth, BitVec.getLsbD_signExtend, BitVec.getLsbD_signExtend]
  simp [hi, this]

theorem load_narrow (h : SameMemory m m') (he : g.endian = .little) (hpos : 0 < g.memSize)
    (hsize : g.memSize ≤ 4) : (load m' g).narrow = load m g.narrow := by
  have hread : (read m' 64 g.endian g.memAddr &&& bitmask 64 (g.memSize * 8)).setWidth 32
      = read m 32 g.endian g.memAddr &&& bitmask 32 (g.memSize * 8) := by
    rw [h.read_eq, BitVec.setWidth_and, he, read_narrow, setWidth_bitmask]
  have hsign := signExtension_narrow (show 0 < 8 * g.memSize by omega) (by omega)
    (read m' 64 g.endian g.memAddr &&& bitmask 64 (g.memSize * 8))
  rw [hread] at hsign
  have hu : g.narrow.isUnsignedLoad = g.isUnsignedLoad := rfl
  unfold FuncMemory.load FuncInstr.load
  rw [hu]
  cases g.isUnsignedLoad <;>
    simp [FuncInstr.narrow, FuncInstr.signExtensionForLoad, hread, hsign]

theorem byteOf_setWidth_narrow (v : BitVec 64) {k : ℕ} (hk : k < 4) :
    byteOf (v.setWidth 32) k = byteOf v k := byteOf_setWidth v 4 k hk

/-- The bytes of a value are those of its low half and then those of its high half. -/
theorem unpackArray_narrow (v : BitVec 64) :
    unpackArray .little v
      = unpackArray .little (v.setWidth 32) ++ (List.range 4).map fun k => byteOf v (4 + k) := by
  have hrange : List.range (64 / 8) = List.range 4 ++ (List.range 4).map (4 + ·) :=
    List.range_add (n := 4) (m := 4)
  have hlow : (List.range 4).map (byteOf v) = (List.range 4).map (byteOf (v.setWidth 32)) := by
    apply List.map_congr_left
    intro k hk
    exact (byteOf_setWidth_narrow v (List.mem_range.1 hk)).symm
  show (List.range (64 / 8)).map (byteOf v) = (List.range 4).map (byteOf (v.setWidth 32)) ++ _
  rw [hrange, List.map_append, hlow, List.map_map]
  rfl

theorem writeInteger_narrow (h : SameMemory m m') {e : Endian} {v : BitVec 64} {addr : Addr}
    {n : ℕ} (hn : IsSize n) (hle : n ≤ 4) (hr : writeInteger m e (v.setWidth 32) addr n = .ok r) :
    ∃ r', writeInteger m' e v addr n = .ok r' ∧ SameMemory r r' := by
  rw [writeInteger_eq hn, BitVec.setWidth_setWidth_of_le _ (by omega), write] at hr
  rw [writeInteger_eq hn, write]
  exact h.memcpy_same hr

/-- A partial store on 64-bit registers writes four bytes more, as it read them. -/
theorem maskedWrite_narrow (h : SameMemory m m') {v mask : BitVec 64} {addr : Addr}
    (hmask : mask = (mask.setWidth 32).setWidth 64) (hin : addr.toNat + 8 ≤ size m)
    (hr : maskedWrite m .little (v.setWidth 32) addr (mask.setWidth 32) = .ok r) :
    ∃ r', maskedWrite m' .little v addr mask = .ok r' ∧ SameMemory r r' := by
  unfold maskedWrite write at hr ⊢
  have hlow : ((v &&& mask) ||| (FuncMemory.read m' 64 .little addr &&& ~~~mask)).setWidth 32
      = (v.setWidth 32 &&& mask.setWidth 32)
        ||| (FuncMemory.read m 32 .little addr &&& ~~~mask.setWidth 32) := by
    rw [BitVec.setWidth_or, BitVec.setWidth_and, BitVec.setWidth_and, h.read_eq, read_narrow,
      BitVec.setWidth_not (by decide)]
  rw [unpackArray_narrow, hlow]
  refine h.memcpy hr (by simpa using hin) fun k hk => ?_
  have hk4 : k < 4 := by simpa using hk
  have hlen : (unpackArray .little ((v.setWidth 32 &&& mask.setWidth 32)
      ||| (FuncMemory.read m 32 .little addr &&& ~~~mask.setWidth 32))).length = 4 := by simp
  rw [hlen, List.getD_eq_getElem?_getD, List.getElem?_eq_getElem hk, List.getElem_map,
    List.getElem_range, Option.getD_some]
  have hbyte := byteOf_read (w := 64) m .little addr (4 + k) (by omega) (by decide)
  rw [← h.read_eq] at hbyte
  rw [show byteAt m (addr.offset (4 + k)) = _ from hbyte.symm]
  -- above the low half the mask is empty
  apply BitVec.eq_of_getLsbD_eq
  intro j hj
  have hi : 8 * (4 + k) + j < 64 := by omega
  have hm : mask.getLsbD (8 * (4 + k) + j) = false := by
    rw [hmask, BitVec.getLsbD_setWidth, BitVec.getLsbD_setWidth]
    have : ¬ 8 * (4 + k) + j < 32 := by omega
    simp [this]
  rw [getLsbD_byteOf, getLsbD_byteOf, BitVec.getLsbD_or, BitVec.getLsbD_and, BitVec.getLsbD_and,
    BitVec.getLsbD_not, hm]
  simp [hi]

/-- Stores of both widths keep memories that look the same, as long as a partial one is in
little-endian order and leaves eight bytes. -/
theorem store_narrow (h : SameMemory m m') (hn : IsSize g.memSize) (hle : g.memSize ≤ 4)
    (hpart : g.mask &&& bitmask 64 (g.memSize * 8) = bitmask 64 (g.memSize * 8)
      ∨ g.endian = .little ∧ g.mask = (g.mask.setWidth 32).setWidth 64
        ∧ g.memAddr.toNat + 8 ≤ size m')
    (hr : store m g.narrow = .ok r) : ∃ r', store m' g = .ok r' ∧ SameMemory r r' := by
  have hfull : g.narrow.mask &&& bitmask 32 (g.memSize * 8) = bitmask 32 (g.memSize * 8)
      ↔ g.mask &&& bitmask 64 (g.memSize * 8) = bitmask 64 (g.memSize * 8) := by
    constructor
    · intro hf
      apply BitVec.eq_of_getLsbD_eq
      intro i hi
      by_cases hlt : i < g.memSize * 8
      · have hb := congrArg (fun x => x.getLsbD i) hf
        have : i < 32 := by omega
        simpa [FuncInstr.narrow, hlt, hi, this] using hb
      · simp [hlt]
    · intro hf
      have := congrArg (BitVec.setWidth 32) hf
      rwa [BitVec.setWidth_and, setWidth_bitmask] at this
  unfold store at hr ⊢
  have hz : g.narrow.memAddr = g.memAddr := rfl
  have hs : g.narrow.memSize = g.memSize := rfl
  rw [hz, hs] at hr
  split_ifs at hr ⊢ with h0
  dsimp only at hr ⊢
  by_cases hf : g.mask &&& bitmask 64 (g.memSize * 8) = bitmask 64 (g.memSize * 8)
  · rw [if_pos hf]
    rw [if_pos (hfull.2 hf)] at hr
    exact writeInteger_narrow h hn hle hr
  · rw [if_neg hf]
    rw [if_neg (fun hf' => hf (hfull.1 hf'))] at hr
    obtain ⟨he, hmask, hin⟩ := hpart.resolve_left hf
    have he' : g.narrow.endian = .little := he
    rw [he'] at hr
    rw [he]
    exact maskedWrite_narrow h hmask (by rw [← h.size_eq]; exact hin) hr

end Access

end MiptMips
