import MiptMips.Lib.Words
import MiptMips.Memory.PlainMemory

/-!
# The memory over a CEN64 bus

The bus reads a word, and writes the bits of a word that a mask selects. A copy is cut into a head
of less than a word and full words: the head is read as a word and cut, and written under a mask of
its bytes. Over a bus whose words are four bytes in big-endian order this is a memory of bytes.
-/

namespace MiptMips

open Machines

/-- The functions of the bus, with the `int` they return. -/
class BusController (B : Type) where
  busReadWord : B → BitVec 32 → BitVec 32 × BitVec 32
  busWriteWord : B → BitVec 32 → BitVec 32 → BitVec 32 → Except SimException (BitVec 32 × B)

/-- Byte `i` of a word on the bus. -/
def busByte (word : BitVec 32) (i : ℕ) : Byte := (unpackArray .big word).getD i 0#8

/-- A byte after a masked write of a word whose byte `i` it is. -/
def maskedByte (old : Byte) (word dqm : BitVec 32) (i : ℕ) : Byte :=
  (old &&& ~~~busByte dqm i) ||| (busByte word i &&& busByte dqm i)

/-- A bus over bytes: a word is the four bytes from its address on, the first one the highest. -/
class LawfulBus (B : Type) [BusController B] where
  size : B → ℕ
  byteAt : B → ℕ → Byte
  readWord (bus : B) {address : BitVec 32} : address.toNat + 4 ≤ size bus →
    (BusController.busReadWord bus address).2
      = packArray 32 .big ((List.range 4).map fun i => byteAt bus (address.toNat + i))
  writeWord (bus : B) {address : BitVec 32} (word dqm : BitVec 32) : address.toNat + 4 ≤ size bus →
    ∃ result bus', BusController.busWriteWord bus address word dqm = .ok (result, bus')
      ∧ size bus' = size bus ∧ ∀ x < size bus, byteAt bus' x
        = if address.toNat ≤ x ∧ x < address.toNat + 4 then
            maskedByte (byteAt bus x) word dqm (x - address.toNat)
          else byteAt bus x

namespace Cen64Memory

open BusController

section Model

variable {B : Type} [BusController B] (bus : B)

def copyWordToHost (src : Addr) (size : ℕ) : BitVec 64 × List Byte :=
  let (result, val) := busReadWord bus (src.setWidth 32)
  (result.signExtend 64, putValueToPointer .big val size)

def copyWordToGuest (dst : Addr) (src : List Byte) (size : ℕ) :
    Except SimException (BitVec 64 × B) := do
  let val := getValueFromPointer 32 .big src size
  let dqm := swapEndian (bitmask 32 (size * 8))
  let (result, bus) ← busWriteWord bus (dst.setWidth 32) val dqm
  return (result.signExtend 64, bus)

/-- The copy of one piece after another; `copyWord` takes where a piece starts and its length. -/
def copyByWords {S : Type} (copyWord : S → Piece → Except SimException (BitVec 64 × S))
    (size : ℕ) (s : S) : Except SimException (BitVec 64 × S) :=
  (pieces 4 size).foldlM (fun result piece => do
    let (copied, s) ← copyWord result.2 piece
    return (result.1 + copied, s)) (0#64, s)

/-- The host buffer is filled from its start on. -/
def memcpyGuestToHost (src : Addr) (size : ℕ) : Except SimException (BitVec 64 × List Byte) :=
  copyByWords (fun dst piece =>
    let copied := copyWordToHost bus (src.offset piece.1) piece.2
    .ok (copied.1, dst ++ copied.2)) size []

def memcpyHostToGuest (dst : Addr) (src : List Byte) : Except SimException (BitVec 64 × B) :=
  copyByWords (fun bus piece =>
    copyWordToGuest bus (dst.offset piece.1) (src.drop piece.1) piece.2) src.length bus

/-- A copy of either direction. -/
inductive HostCopy where
  | toGuest (dst : Addr) (src : List Byte)
  | toHost (src : Addr) (size : ℕ)

/-- The bus after a sequence of copies. -/
def run : B → List HostCopy → Except SimException B
  | bus, [] => .ok bus
  | bus, .toGuest dst src :: copies => do
    let (_, bus) ← memcpyHostToGuest bus dst src
    run bus copies
  | bus, .toHost src size :: copies => do
    let _ ← memcpyGuestToHost bus src size
    run bus copies

end Model

section Spec

/-- All words of a copy start at an address of the bus and end by its size. -/
def WordsInRange (limit : ℕ) (addr : Addr) (size : ℕ) : Prop :=
  ∀ piece ∈ pieces 4 size, addr.toNat + piece.1 < 2 ^ 32 ∧ addr.toNat + piece.1 + 4 ≤ limit

instance (limit : ℕ) (addr : Addr) (size : ℕ) : Decidable (WordsInRange limit addr size) :=
  inferInstanceAs (Decidable (∀ piece ∈ pieces 4 size, _))

def HostCopy.InRange (limit : ℕ) : HostCopy → Prop
  | .toGuest dst src => WordsInRange limit dst src.length
  | .toHost src size => WordsInRange limit src size

/-- The byte that a copy puts at an address, if it covers it. -/
def HostCopy.byteFor (x : ℕ) : HostCopy → Option Byte
  | .toGuest dst src => if dst.toNat ≤ x then src[x - dst.toNat]? else none
  | .toHost _ _ => none

/-- The value that was last copied to an address, or the one that was there before. -/
def lastCopied (bytes : ℕ → Byte) (copies : List HostCopy) (x : ℕ) : Byte :=
  (copies.reverse.findSome? (·.byteFor x)).getD (bytes x)

end Spec

section Words

variable {B : Type} [BusController B] [LawfulBus B] {bus : B}

open LawfulBus

/-- The mask of the first bytes of a word. -/
theorem busByte_mask {n i : ℕ} (hn : n ≤ 4) (hi : i < 4) :
    busByte (swapEndian (bitmask 32 (n * 8))) i = if i < n then BitVec.allOnes 8 else 0#8 := by
  show (unpackArrayBe _).getD i 0#8 = _
  rw [unpackArrayBe_swapEndian]
  have hall : ∀ n ≤ 4, ∀ i < 4, (unpackArrayLe (bitmask 32 (n * 8))).getD i 0#8
      = if i < n then BitVec.allOnes 8 else 0#8 := by decide
  exact hall n hn i hi

theorem busByte_value {bytes : List Byte} {n i : ℕ} (hn : n ≤ 4) (hlength : n ≤ bytes.length)
    (hi : i < n) : busByte (getValueFromPointer 32 .big bytes n) i = bytes.getD i 0#8 := by
  have hpack : (bytes.take n ++ List.replicate (32 / 8 - n) 0#8).length = 32 / 8 := by
    simp
    omega
  rw [busByte, getValueFromPointer, unpack_pack _ hpack]
  have hlt : i < bytes.length := by omega
  simp [List.getElem?_append, hi, hlength, hlt]

theorem copyWordToHost_eq {src : Addr} {n : ℕ} (hsrc : src.toNat < 2 ^ 32)
    (hin : src.toNat + 4 ≤ size bus) (hn : n ≤ 4) : (copyWordToHost bus src n).2
      = (List.range n).map fun i => byteAt bus (src.toNat + i) := by
  have haddr : (src.setWidth 32).toNat = src.toNat := by
    rw [BitVec.toNat_setWidth, Nat.mod_eq_of_lt hsrc]
  show (unpackArray .big (busReadWord bus (src.setWidth 32)).2).take n = _
  rw [readWord bus (by rw [haddr]; exact hin), unpack_pack _ (by simp), haddr, ← List.map_take,
    List.take_range, Nat.min_eq_left hn]

theorem copyWordToGuest_spec {dst : Addr} {bytes : List Byte} {n : ℕ} (hdst : dst.toNat < 2 ^ 32)
    (hin : dst.toNat + 4 ≤ size bus) (hn : n ≤ 4) (hlength : n ≤ bytes.length) :
    ∃ result bus', copyWordToGuest bus dst bytes n = .ok (result, bus') ∧ size bus' = size bus
      ∧ ∀ x < size bus, byteAt bus' x = if dst.toNat ≤ x ∧ x < dst.toNat + n then
          bytes.getD (x - dst.toNat) 0#8 else byteAt bus x := by
  have haddr : (dst.setWidth 32).toNat = dst.toNat := by
    rw [BitVec.toNat_setWidth, Nat.mod_eq_of_lt hdst]
  have hin' : (dst.setWidth 32).toNat + 4 ≤ size bus := by rwa [haddr]
  rcases writeWord bus (getValueFromPointer 32 .big bytes n) (swapEndian (bitmask 32 (n * 8))) hin'
    with ⟨result, bus', hwrite, hsize, hbytes⟩
  refine ⟨_, bus', by rw [copyWordToGuest, hwrite]; rfl, hsize, fun x hx => ?_⟩
  rw [hbytes x hx, haddr]
  by_cases hword : dst.toNat ≤ x ∧ x < dst.toNat + 4
  · have hi : x - dst.toNat < 4 := by omega
    rw [if_pos hword, maskedByte, busByte_mask hn hi]
    by_cases hcopied : x - dst.toNat < n
    · rw [if_pos hcopied, if_pos (by omega), busByte_value hn hlength hcopied,
        BitVec.not_allOnes, BitVec.and_zero, BitVec.zero_or, BitVec.and_allOnes]
    · rw [if_neg hcopied, if_neg (by omega), BitVec.and_zero, BitVec.or_zero]
      exact BitVec.and_allOnes
  · rw [if_neg hword, if_neg (by omega)]

end Words

section Copies

variable {B : Type} [BusController B] [LawfulBus B] {bus : B}

open LawfulBus

theorem toNat_offset_piece {addr : Addr} {limit len : ℕ} (h : WordsInRange limit addr len)
    {piece : Piece} (hpiece : piece ∈ pieces 4 len) :
    (addr.offset piece.1).toNat = addr.toNat + piece.1 := by
  rcases h piece hpiece with ⟨haddr, -⟩
  exact FuncMemory.toNat_offset (by omega)

/-- The loop over the pieces; `P` is about what is copied so far. -/
theorem copyByWords_spec {S : Type} {copyWord : S → Piece → Except SimException (BitVec 64 × S)}
    {P : ℕ → S → Prop} {len : ℕ} (hstep : ∀ piece ∈ pieces 4 len, ∀ s, P piece.1 s →
      ∃ r t, copyWord s piece = .ok (r, t) ∧ P (piece.1 + piece.2) t) {s : S} (hs : P 0 s) :
    ∃ r t, copyByWords copyWord len s = .ok (r, t) ∧ P len t := by
  have hloop : ∃ t, copyByWords copyWord len s = .ok t ∧ P len t.2 := by
    unfold copyByWords
    refine (tiles_pieces 4 len).foldlM (P := fun k (s : BitVec 64 × S) => P k s.2) ?_ (0#64, s) hs
    intro piece hpiece s hs
    rcases hstep piece hpiece s.2 hs with ⟨r, t, ht, hP⟩
    exact ⟨(s.1 + r, t), by rw [ht]; rfl, hP⟩
  rcases hloop with ⟨⟨r, t⟩, ht, hP⟩
  exact ⟨r, t, ht, hP⟩

theorem memcpyGuestToHost_spec {src : Addr} {len : ℕ} (h : WordsInRange (size bus) src len) :
    ∃ r, memcpyGuestToHost bus src len
      = .ok (r, (List.range len).map fun i => byteAt bus (src.toNat + i)) := by
  have hloop : ∃ r dst, memcpyGuestToHost bus src len = .ok (r, dst)
      ∧ dst = (List.range len).map fun i => byteAt bus (src.toNat + i) := by
    refine copyByWords_spec
      (P := fun k dst => dst = (List.range k).map fun i => byteAt bus (src.toNat + i)) ?_ rfl
    intro piece hpiece dst hdst
    refine ⟨_, _, rfl, ?_⟩
    have haddr := toNat_offset_piece h hpiece
    rcases h piece hpiece with ⟨hlt, hin⟩
    rw [copyWordToHost_eq (by omega) (by omega) (length_le_of_mem_pieces (by decide) hpiece), hdst,
      List.range_add, List.map_append, List.map_map, haddr]
    simp [Nat.add_assoc, Function.comp_def]
  rcases hloop with ⟨r, _, ht, rfl⟩
  exact ⟨r, ht⟩

/-- What a copy puts at an address, from a host buffer that is copied up to `k`. -/
theorem byteFor_take {dst : Addr} {src : List Byte} {k x : ℕ} (old : Byte) (hk : k ≤ src.length) :
    ((HostCopy.toGuest dst (src.take k)).byteFor x).getD old
      = if dst.toNat ≤ x ∧ x < dst.toNat + k then src.getD (x - dst.toNat) 0#8 else old := by
  unfold HostCopy.byteFor
  by_cases hle : dst.toNat ≤ x
  · by_cases hlt : x < dst.toNat + k
    · have hi : x - dst.toNat < k := by omega
      have hlength : x - dst.toNat < src.length := by omega
      simp [hle, hlt, hi, hlength]
    · have hi : ¬ x - dst.toNat < k := by omega
      simp [hle, hlt, hi]
  · simp [hle]

theorem memcpyHostToGuest_spec {dst : Addr} {src : List Byte}
    (h : WordsInRange (size bus) dst src.length) :
    ∃ r bus', memcpyHostToGuest bus dst src = .ok (r, bus') ∧ size bus' = size bus
      ∧ ∀ x < size bus, byteAt bus' x
        = ((HostCopy.toGuest dst src).byteFor x).getD (byteAt bus x) := by
  have hloop : ∃ r bus', memcpyHostToGuest bus dst src = .ok (r, bus') ∧ (size bus' = size bus
      ∧ ∀ x < size bus, byteAt bus' x
        = ((HostCopy.toGuest dst (src.take src.length)).byteFor x).getD (byteAt bus x)) := by
    refine copyByWords_spec (P := fun k bus' => size bus' = size bus ∧ ∀ x < size bus,
      byteAt bus' x = ((HostCopy.toGuest dst (src.take k)).byteFor x).getD (byteAt bus x)) ?_ ?_
    · intro piece hpiece bus' ⟨hsize, hbytes⟩
      have haddr := toNat_offset_piece h hpiece
      have hend := (tiles_pieces 4 src.length).end_le piece hpiece
      rcases h piece hpiece with ⟨hlt, hin⟩
      have hlength : piece.2 ≤ (src.drop piece.1).length := by
        rw [List.length_drop]
        omega
      rw [← haddr] at hlt hin
      rw [← hsize] at hin
      rcases copyWordToGuest_spec hlt hin (length_le_of_mem_pieces (by decide) hpiece) hlength
        with ⟨r, bus'', hcopy, hsize', hbytes'⟩
      refine ⟨r, bus'', hcopy, hsize'.trans hsize, fun x hx => ?_⟩
      rw [hbytes' x (by rw [hsize]; exact hx), hbytes x hx, byteFor_take _ (by omega),
        byteFor_take _ hend, haddr]
      by_cases hword : dst.toNat + piece.1 ≤ x ∧ x < dst.toNat + piece.1 + piece.2
      · have hi : x - (dst.toNat + piece.1) + piece.1 = x - dst.toNat := by omega
        rw [if_pos hword, if_pos (by omega), List.getD_eq_getElem?_getD, List.getElem?_drop,
          Nat.add_comm, hi, ← List.getD_eq_getElem?_getD]
      · rw [if_neg hword]
        exact if_congr (by omega) rfl rfl
    · refine ⟨rfl, fun x _ => ?_⟩
      rw [byteFor_take _ (Nat.zero_le _), if_neg (by omega)]
  rw [List.take_length] at hloop
  exact hloop

/-- All bytes of a copy in range are on the bus. -/
theorem WordsInRange.lt {limit len i : ℕ} {addr : Addr} (h : WordsInRange limit addr len)
    (hi : i < len) : addr.toNat + i < limit := by
  rcases (tiles_pieces 4 len).exists_mem (Nat.zero_le i) hi with ⟨piece, hpiece, -, hlt⟩
  have hlength := length_le_of_mem_pieces (by decide) hpiece
  have hin := (h piece hpiece).2
  omega

end Copies

section Run

variable {B : Type} [BusController B] [LawfulBus B]

open LawfulBus

theorem lastCopied_cons (bytes : ℕ → Byte) (copy : HostCopy) (copies : List HostCopy) (x : ℕ) :
    lastCopied bytes (copy :: copies) x
      = lastCopied (fun x => (copy.byteFor x).getD (bytes x)) copies x := by
  unfold lastCopied
  rw [List.reverse_cons, List.findSome?_append]
  rcases copies.reverse.findSome? (·.byteFor x) with _ | byte <;> simp

theorem run_spec : ∀ {bus : B} {copies : List HostCopy},
    (∀ copy ∈ copies, copy.InRange (size bus)) → ∃ bus', run bus copies = .ok bus'
      ∧ size bus' = size bus ∧ ∀ x < size bus, byteAt bus' x = lastCopied (byteAt bus) copies x
  | bus, [], _ => ⟨bus, rfl, rfl, fun _ _ => rfl⟩
  | bus, copy :: copies, h => by
    have hfirst := h copy List.mem_cons_self
    cases copy with
    | toHost src len =>
      rcases memcpyGuestToHost_spec hfirst with ⟨r, hr⟩
      rcases run_spec fun c hc => h c (List.mem_cons_of_mem _ hc) with ⟨bus', hrun, hsize, hbytes⟩
      refine ⟨bus', by rw [run, hr]; exact hrun, hsize, fun x hx => ?_⟩
      rw [hbytes x hx, lastCopied_cons]
      rfl
    | toGuest dst src =>
      rcases memcpyHostToGuest_spec hfirst with ⟨r, mid, hr, hmid, hcopied⟩
      have hrest : ∀ c ∈ copies, c.InRange (size mid) := fun c hc =>
        hmid ▸ h c (List.mem_cons_of_mem _ hc)
      rcases run_spec hrest with ⟨bus', hrun, hsize, hbytes⟩
      refine ⟨bus', by rw [run, hr]; exact hrun, hsize.trans hmid, fun x hx => ?_⟩
      rw [hbytes x (by rw [hmid]; exact hx), lastCopied_cons]
      unfold lastCopied
      rw [hcopied x hx]

/-- What a copy does on a bus that `copies` have led to: one to the host returns the values that
were last copied to the guest, and one to the guest leaves all bytes out of its range alone. -/
def CopiesExactly (bus bus' : B) (copies : List HostCopy) : HostCopy → Prop
  | .toHost src len => ∃ r, memcpyGuestToHost bus' src len
    = .ok (r, (List.range len).map fun i => lastCopied (byteAt bus) copies (src.toNat + i))
  | .toGuest dst src => ∃ r bus'', memcpyHostToGuest bus' dst src = .ok (r, bus'')
    ∧ ∀ x < size bus, ¬ (dst.toNat ≤ x ∧ x < dst.toNat + src.length) →
      byteAt bus'' x = byteAt bus' x

/-- The copies over a bus are those of a memory of bytes. -/
theorem copies_exact {bus : B} {copies : List HostCopy}
    (hcopies : ∀ copy ∈ copies, copy.InRange (size bus)) :
    ∃ bus', run bus copies = .ok bus'
      ∧ (∀ x < size bus, byteAt bus' x = lastCopied (byteAt bus) copies x)
      ∧ ∀ copy : HostCopy, copy.InRange (size bus) → CopiesExactly bus bus' copies copy := by
  rcases run_spec hcopies with ⟨bus', hrun, hsize, hbytes⟩
  refine ⟨bus', hrun, hbytes, fun copy hcopy => ?_⟩
  cases copy with
  | toHost src len =>
    have hin : WordsInRange (size bus') src len := by rwa [hsize]
    rcases memcpyGuestToHost_spec hin with ⟨r, hr⟩
    refine ⟨r, hr.trans (congrArg (fun l => Except.ok (r, l)) (List.map_congr_left fun i hi => ?_))⟩
    exact hbytes _ (WordsInRange.lt hcopy (List.mem_range.1 hi))
  | toGuest dst src =>
    have hin : WordsInRange (size bus') dst src.length := by rwa [hsize]
    rcases memcpyHostToGuest_spec hin with ⟨r, bus'', hr, -, hcopied⟩
    refine ⟨r, bus'', hr, fun x hx hout => ?_⟩
    rw [hcopied x (by rw [hsize]; exact hx), ← List.take_length (l := src), byteFor_take _ le_rfl,
      if_neg hout]

end Run

section Mock

/-- The bus of the tests: a guest memory. -/
structure MockBus (M : Type) where
  memory : M

variable {M : Type} [FuncMemory M]

instance : BusController (MockBus M) where
  busReadWord bus address := (4#32, FuncMemory.read bus.memory 32 .big (address.setWidth 64))
  busWriteWord bus address word dqm := do
    let memory ← FuncMemory.maskedWrite bus.memory .big word (address.setWidth 64) dqm
    return (4#32, ⟨memory⟩)

theorem busByte_eq (word : BitVec 32) {i : ℕ} (hi : i < 4) :
    busByte word i = (word >>> (8 * (3 - i))).setWidth 8 := by
  unfold busByte unpackArray unpackArrayBe
  simp [hi]

theorem busByte_merge (word dqm old : BitVec 32) {i : ℕ} (hi : i < 4) :
    busByte ((word &&& dqm) ||| (old &&& ~~~dqm)) i = maskedByte (busByte old i) word dqm i := by
  rw [maskedByte, busByte_eq _ hi, busByte_eq _ hi, busByte_eq _ hi, busByte_eq _ hi,
    BitVec.or_comm]
  apply BitVec.eq_of_getLsbD_eq
  intro j hj
  have hlt : 8 * (3 - i) + j < 32 := by omega
  simp [hj, hlt]

/-- An address of the bus, some bytes on. -/
theorem offset_setWidth (address : BitVec 32) (i : ℕ) :
    Addr.offset (address.setWidth 64) i = BitVec.ofNat 64 (address.toNat + i) := by
  rw [Addr.offset, BitVec.ofNat_add, BitVec.ofNat_toNat]

section Lawful

open FuncMemory LawfulFuncMemory

variable [LawfulFuncMemory M]

theorem read_mock (m : M) (address : BitVec 32) : read m 32 .big (address.setWidth 64)
    = packArray 32 .big
      ((List.range 4).map fun i => byteAt m (BitVec.ofNat 64 (address.toNat + i))) := by
  show packArray 32 .big (readBytes m _ 4) = _
  rw [readBytes_eq]
  simp only [offset_setWidth]

theorem busByte_read (m : M) (address : BitVec 32) {i : ℕ} (hi : i < 4) :
    busByte (read m 32 .big (address.setWidth 64)) i
      = byteAt m (BitVec.ofNat 64 (address.toNat + i)) := by
  rw [busByte, read_mock, unpack_pack _ (by simp)]
  simp [hi]

theorem maskedWrite_mock {m : M} {address : BitVec 32} (word dqm : BitVec 32)
    (h : address.toNat + 4 ≤ size m) :
    ∃ m', maskedWrite m .big word (address.setWidth 64) dqm = .ok m' ∧ size m' = size m
      ∧ ∀ x < size m, byteAt m' (BitVec.ofNat 64 x)
        = if address.toNat ≤ x ∧ x < address.toNat + 4 then
            maskedByte (byteAt m (BitVec.ofNat 64 x)) word dqm (x - address.toNat)
          else byteAt m (BitVec.ofNat 64 x) := by
  have haddr : (address.setWidth 64).toNat = address.toNat :=
    BitVec.toNat_setWidth_of_le (by decide)
  have hin : (address.setWidth 64).toNat + (unpackArray .big ((word &&& dqm)
      ||| (read m 32 .big (address.setWidth 64) &&& ~~~dqm))).length ≤ size m := by
    rw [haddr, length_unpackArray]
    exact h
  rcases host_to_guest hin with ⟨m', hm, hsize, -, hbytes⟩
  refine ⟨m', hm, hsize, fun x hx => ?_⟩
  have hle := size_le m
  have hx' : (BitVec.ofNat 64 x).toNat = x := by
    rw [BitVec.toNat_ofNat, Nat.mod_eq_of_lt (by omega)]
  have hcanon : canon m (BitVec.ofNat 64 x) = BitVec.ofNat 64 x := canon_of_lt (by rwa [hx'])
  rw [hbytes, hcanon, hx', haddr, length_unpackArray]
  refine if_ctx_congr Iff.rfl (fun hword => ?_) fun _ => rfl
  have hi : x - address.toNat < 4 := by omega
  have hxi : address.toNat + (x - address.toNat) = x := by omega
  calc busByte ((word &&& dqm) ||| (read m 32 .big (address.setWidth 64) &&& ~~~dqm))
        (x - address.toNat)
      = maskedByte (busByte (read m 32 .big (address.setWidth 64)) (x - address.toNat)) word dqm
        (x - address.toNat) := busByte_merge word dqm _ hi
    _ = _ := by rw [busByte_read m address hi, hxi]

instance : LawfulBus (MockBus M) where
  size bus := size bus.memory
  byteAt bus x := byteAt bus.memory (BitVec.ofNat 64 x)
  readWord bus address _ := read_mock bus.memory address
  writeWord bus address word dqm h := by
    rcases maskedWrite_mock word dqm h with ⟨m', hm, hsize, hbytes⟩
    exact ⟨4#32, ⟨m'⟩, by simp only [BusController.busWriteWord, hm]; rfl, hsize, hbytes⟩

/-- Two copies that overlap, of a head and a word each, in a memory of 32 bytes. -/
theorem copies_exact_mock :
    let bus : MockBus PlainMemory := ⟨PlainMemory.create 5 (by decide) fun _ => 0#8⟩
    let copies := [.toGuest 3#64 [1#8, 2#8, 3#8, 4#8, 5#8], .toGuest 6#64 [6#8, 7#8, 8#8, 9#8, 10#8]]
    ∃ bus', run bus copies = .ok bus'
      ∧ (∀ x < LawfulBus.size bus,
        LawfulBus.byteAt bus' x = lastCopied (LawfulBus.byteAt bus) copies x)
      ∧ ∀ copy : HostCopy, copy.InRange (LawfulBus.size bus) →
        CopiesExactly bus bus' copies copy := by
  refine copies_exact (List.forall_mem_cons.2 ⟨?_, List.forall_mem_singleton.2 ?_⟩)
  · show WordsInRange 32 _ _
    decide
  · show WordsInRange 32 _ _
    decide

end Lawful

end Mock

end Cen64Memory

end MiptMips
