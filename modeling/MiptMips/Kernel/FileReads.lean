import Mathlib.Algebra.Order.Ring.Int
import Mathlib.Data.Int.ModEq
import Mathlib.Data.List.GetD
import Mathlib.Tactic.Positivity
import MiptMips.Kernel.Mars
import MiptMips.Memory.AnyMemory

/-!
# Reading from a descriptor

The number of bytes that were read is the difference of two positions, and a stream that is not good
any more has no position. What is copied to the guest is the whole buffer, and the rest of it is
filled with zeroes.
-/

namespace MiptMips

open Machines Throwing FuncMemory LawfulFuncMemory

variable {w : ℕ} {M : Type} [FuncMemory M]

namespace MARSSystem

section Model

variable (registers : RegisterSet) (s : MARSSystem w M)

def bufferPtr : Addr := s.cpuRegister registers MARSKernel.a1

def count : ℕ := (s.cpuRegister registers MARSKernel.a2).toNat

/-- The bytes of the guest at the buffer, up to the count, from an index on, hold zeroes. -/
def ZeroFrom (k : ℕ) : Prop :=
  ∀ i, k ≤ i → i < s.count registers → byteAt s.mem ((s.bufferPtr registers).offset i) = 0#8

variable [LawfulFuncMemory M]

/-- As many bytes as asked for and left, at the buffer and nowhere else, off the stream, with their
number in the result register. -/
structure ReadTo (stream stream' : Stream) (k : ℕ) (t : MARSSystem w M) : Prop where
  returned : (t.cpuRegister registers MARSKernel.v0).toNat = k
  written : ∀ i < k, byteAt t.mem ((s.bufferPtr registers).offset i) = stream.remaining.getD i 0#8
  others : ∀ x : Addr, x.toNat < size s.mem →
    ¬ ((s.bufferPtr registers).toNat ≤ x.toNat ∧ x.toNat < (s.bufferPtr registers).toNat + k) →
    byteAt t.mem x = byteAt s.mem x
  bytes : stream'.bytes = stream.bytes
  position : stream'.position = stream.position + k

variable (openFile : List Byte → OpenMode → Option Stream) (file : StreamRef)

/-- The system call does not throw, and reads what it has to. -/
def Reads : Prop :=
  ∃ t, (MARSKernel.execute registers openFile).run.run s = (.ok .noTrap, t)
    ∧ s.ReadTo registers (s.kernel.streams file) (t.kernel.streams file)
      (min (s.count registers) (s.kernel.streams file).remaining.length) t

/-- There is room for the buffer, and the stream is good and has as many bytes as asked for. Where
it has not, the number of all its bytes and one more is a multiple of the number of results, or
there is nothing to read, and the rest of the buffer holds zeroes already. -/
def ReadsWell (stream : Stream) : Prop :=
  s.count registers < 2 ^ 63
    ∧ (s.bufferPtr registers).toNat + s.count registers ≤ size s.mem
    ∧ (if stream.good then
        s.count registers ≤ stream.remaining.length
          ∨ 2 ^ min w 64 ∣ stream.position + stream.remaining.length + 1
            ∧ s.ZeroFrom registers stream.remaining.length
      else (s.count registers = 0 ∨ stream.remaining = []) ∧ s.ZeroFrom registers 0)

/-- What is found out by a read between two questions for the position. -/
def measured (stream : Stream) (n : ℕ) : ℤ × List Byte × Stream :=
  let (before, stream) := stream.tellg
  let (data, stream) := stream.read n
  let (after, stream) := stream.tellg
  (after - before, data, stream)

end Model

section Measured

variable {stream : Stream} {n : ℕ}

theorem measured_of_le (h : stream.good) (hn : n ≤ stream.remaining.length) :
    measured stream n = ((n : ℤ), stream.remaining.take n,
      { stream with position := stream.position + n }) := by
  have hgood : ({ stream with position := stream.position + n } : Stream).good := h
  rw [measured, Stream.tellg_of_good h]
  dsimp only
  rw [Stream.read_of_le h hn]
  dsimp only
  rw [Stream.tellg_of_good hgood]
  dsimp only
  congr 1
  omega

/-- The first position is there, and the second one is not. -/
theorem measured_of_lt (h : stream.good) (hn : stream.remaining.length < n) :
    measured stream n = (-1 - (stream.position : ℤ), stream.remaining,
      { stream with
        position := stream.position + stream.remaining.length, eof := true, fail := true }) := by
  rw [measured, Stream.tellg_of_good h]
  dsimp only
  rw [Stream.read_of_lt h hn]
  dsimp only
  rw [Stream.tellg_of_not_good (by simp [Stream.good])]
  rfl

theorem measured_of_not_good (h : stream.good = false) :
    measured stream n = (0, [], stream.sentry.sentry.sentry) := by
  have h₁ := Stream.good_sentry h
  rw [measured, Stream.tellg_of_not_good h]
  dsimp only
  rw [Stream.read_of_not_good h₁]
  dsimp only
  rw [Stream.tellg_of_not_good (Stream.good_sentry h₁)]
  rfl

end Measured

section Runs

variable {registers : RegisterSet} {s : MARSSystem w M} {file : StreamRef}
  (openFile : List Byte → OpenMode → Option Stream)

/-- The system before the buffer is copied. -/
def measuredSystem (registers : RegisterSet) (s : MARSSystem w M) (file : StreamRef) :
    MARSSystem w M where
  kernel := s.kernel.setStream file (measured (s.kernel.streams file) (s.count registers)).2.2
  rf := s.rf.set (registers.fromCpuIndex MARSKernel.v0)
    ((BitVec.ofInt 64 (measured (s.kernel.streams file) (s.count registers)).1).setWidth w)
  mem := s.mem

/-- What is copied to the guest. -/
def buffered (registers : RegisterSet) (s : MARSSystem w M) (file : StreamRef) : List Byte :=
  let data := (measured (s.kernel.streams file) (s.count registers)).2.1
  data ++ List.replicate (s.count registers - data.length) 0#8

variable (hregs : 6 < s.rf.maxReg)
  (hfile : s.kernel.findInFileByDescriptor (s.cpuRegister registers MARSKernel.a0) = some file)
include hregs hfile

theorem run_readFromFile :
    (MARSKernel.readFromFile registers : MARSKernel.Action w M _).run.run s
      = if s.count registers < 2 ^ 63 then
          (MARSKernel.memcpyHostToGuest (s.bufferPtr registers)
            (s.buffered registers file)).run.run (s.measuredSystem registers file)
        else (.error (.simulator .lengthError), s) := by
  have hv : ∀ r ≤ 6, r < s.rf.maxReg := fun r hr => by omega
  have hcount : s.count registers = (s.cpuRegister registers MARSKernel.a2).toNat := rfl
  unfold MARSKernel.readFromFile
  rw [MARSKernel.run_readArguments hregs, hfile]
  dsimp only
  split_ifs with hn <;> rw [hcount] at hn
  · rw [run_bind_ok (MARSKernel.run_vector hn), run_bind_ok (MARSKernel.run_onStream _),
      run_bind_ok (MARSKernel.run_onStream _), run_bind_ok (MARSKernel.run_onStream _)]
    simp only [MARSKernel.streams_setStream, MARSKernel.setStream_setStream]
    rw [run_bind_ok (MARSKernel.run_writeCpuRegister (hv _ (by decide)) (by decide) _)]
    rfl
  · rw [run_bind_error (MARSKernel.run_vector_large hn)]

variable (hcode : s.cpuRegister registers MARSKernel.v0 = 14#64)
include hcode

theorem run_read_ok (hn : s.count registers < 2 ^ 63) {mem : M}
    (hcopy : memcpyHostToGuest s.mem (s.bufferPtr registers) (s.buffered registers file)
      = .ok mem) :
    (MARSKernel.execute registers openFile).run.run s
      = (.ok .noTrap, ⟨(s.measuredSystem registers file).kernel,
        (s.measuredSystem registers file).rf, mem⟩) := by
  have hcopy' : memcpyHostToGuest (s.measuredSystem registers file).mem (s.bufferPtr registers)
      (s.buffered registers file) = .ok mem := hcopy
  have hread := run_readFromFile hregs hfile
  rw [if_pos hn, MARSKernel.run_memcpyHostToGuest_ok hcopy'] at hread
  rw [MARSKernel.run_execute (show 2 < _ by omega) (by rw [hcode]; rfl), run_bind_ok hread]
  rfl

/-- A count that is too large throws, and so does a buffer that does not fit. -/
theorem run_read_error (h : ¬ s.count registers < 2 ^ 63 ∨ ∃ e,
      memcpyHostToGuest s.mem (s.bufferPtr registers) (s.buffered registers file) = .error e) :
    ∃ e t, (MARSKernel.execute registers openFile).run.run s = (.error e, t) := by
  have hread : ∃ e t, (MARSKernel.readFromFile registers : MARSKernel.Action w M _).run.run s
      = (.error e, t) := by
    rw [run_readFromFile hregs hfile]
    split_ifs with hn
    · obtain ⟨e, he⟩ := h.resolve_left (not_not_intro hn)
      exact ⟨_, _, MARSKernel.run_memcpyHostToGuest_error he⟩
    · exact ⟨_, _, rfl⟩
  obtain ⟨e, t, hread⟩ := hread
  exact ⟨e, t, (MARSKernel.run_execute (show 2 < _ by omega) (by rw [hcode]; rfl)).trans
    (run_bind_error hread _)⟩

end Runs

section Copy

variable [LawfulFuncMemory M] {m m' : M} {buf : Addr} {data : List Byte} {n : ℕ}

/-- A buffer is copied that is not full: what is in it arrives, and nothing else changes if and only
if there were zeroes already where the rest of the buffer goes. -/
theorem copy_buffer (hlen : data.length ≤ n) (hroom : buf.toNat + n ≤ size m)
    (hcopy : memcpyHostToGuest m buf (data ++ List.replicate (n - data.length) 0#8) = .ok m') :
    (∀ i < data.length, byteAt m' (buf.offset i) = data.getD i 0#8)
      ∧ ((∀ x : Addr, x.toNat < size m →
          ¬ (buf.toNat ≤ x.toNat ∧ x.toNat < buf.toNat + data.length) → byteAt m' x = byteAt m x)
        ↔ ∀ i, data.length ≤ i → i < n → byteAt m (buf.offset i) = 0#8) := by
  have hfull : (data ++ List.replicate (n - data.length) 0#8).length = n := by
    rw [List.length_append, List.length_replicate]
    omega
  have hfits : buf.toNat + (data ++ List.replicate (n - data.length) 0#8).length ≤ size m := by
    rw [hfull]
    exact hroom
  obtain ⟨t, ht, -, -, hbytes⟩ := host_to_guest hfits
  obtain rfl : m' = t := Except.ok.inj (hcopy.symm.trans ht)
  rw [hfull] at hbytes
  have hsize := size_le m
  have hoffset : ∀ i < n, (buf.offset i).toNat = buf.toNat + i := fun i hi =>
    toNat_offset (by omega)
  have hin : ∀ i < n, byteAt m' (buf.offset i)
      = (data ++ List.replicate (n - data.length) 0#8).getD i 0#8 := by
    intro i hi
    have haddr := hoffset i hi
    rw [hbytes, canon_of_lt (by omega), if_pos (by omega), haddr, Nat.add_sub_cancel_left]
  have hrest : ∀ i, data.length ≤ i → i < n → byteAt m' (buf.offset i) = 0#8 := by
    intro i hi hn
    rw [hin i hn, List.getD_append_right _ _ _ _ hi, HierarchiedMemory.getD_replicate_self]
  refine ⟨fun i hi => ?_, fun hsame i hi hn => ?_, fun hzero x hx hout => ?_⟩
  · rw [hin i (by omega), List.getD_append _ _ _ _ hi]
  · have haddr := hoffset i hn
    rw [← hsame _ (by omega) (by omega), hrest i hi hn]
  · by_cases hx' : buf.toNat ≤ x.toNat ∧ x.toNat < buf.toNat + n
    · obtain ⟨i, hi, rfl⟩ : ∃ i, i < n ∧ buf.offset i = x := by
        refine ⟨x.toNat - buf.toNat, by omega, BitVec.eq_of_toNat_eq ?_⟩
        rw [hoffset _ (by omega)]
        omega
      have haddr := hoffset i hi
      rw [hrest i (by omega) hi, hzero i (by omega) hi]
    · rw [hbytes, canon_of_lt hx, if_neg hx']

end Copy

section Returned

/-- A number on its way through a register: as many of its low bits as the register has. -/
theorem toNat_result (w : ℕ) (z : ℤ) :
    ((((BitVec.ofInt 64 z).setWidth w).setWidth 64).toNat : ℤ) = z % 2 ^ min w 64 := by
  have hpos : 0 ≤ z % 2 ^ 64 := Int.emod_nonneg _ (by decide)
  have hlt : z % 2 ^ 64 < 2 ^ 64 := Int.emod_lt_of_pos _ (by decide)
  have hnat : ((((BitVec.ofInt 64 z).setWidth w).setWidth 64).toNat : ℤ)
      = z % 2 ^ 64 % 2 ^ w % 2 ^ 64 := by
    rw [BitVec.toNat_setWidth, BitVec.toNat_setWidth, BitVec.toNat_ofInt, Int.natCast_emod,
      Int.natCast_emod, Nat.cast_pow, Nat.cast_pow, Nat.cast_ofNat, Int.toNat_of_nonneg hpos]
  have hw₀ : (0 : ℤ) < 2 ^ w := by positivity
  rw [hnat]
  rcases Nat.le_total w 64 with hw | hw
  · have hpow : (2 : ℤ) ^ w ≤ 2 ^ 64 := pow_le_pow_right₀ (by decide) hw
    rw [Nat.min_eq_left hw, Int.emod_emod_of_dvd _ (pow_dvd_pow 2 hw)]
    exact Int.emod_eq_of_lt (Int.emod_nonneg _ hw₀.ne') ((Int.emod_lt_of_pos _ hw₀).trans_le hpow)
  · have hpow : (2 : ℤ) ^ 64 ≤ 2 ^ w := pow_le_pow_right₀ (by decide) hw
    rw [Nat.min_eq_right hw, Int.emod_eq_of_lt hpos (hlt.trans_le hpow),
      Int.emod_emod_of_dvd _ (dvd_refl _)]

/-- The difference of no position and a position, cut to a register. -/
theorem neg_emod_iff {m position r : ℕ} (h : r < m) :
    (-1 - (position : ℤ)) % m = r ↔ m ∣ position + r + 1 := by
  have hr : (r : ℤ) % m = r := Int.emod_eq_of_lt (Int.natCast_nonneg _) (by exact_mod_cast h)
  have hsum : (r : ℤ) - (-1 - (position : ℤ)) = ((position + r + 1 : ℕ) : ℤ) := by
    push_cast
    omega
  calc (-1 - (position : ℤ)) % m = r
    _ ↔ -1 - (position : ℤ) ≡ r [ZMOD m] := by rw [Int.ModEq, hr]
    _ ↔ (m : ℤ) ∣ (r : ℤ) - (-1 - (position : ℤ)) := Int.modEq_iff_dvd
    _ ↔ m ∣ position + r + 1 := by rw [hsum, Int.natCast_dvd_natCast]

end Returned

section Reads

variable [LawfulFuncMemory M] {registers : RegisterSet} {s : MARSSystem w M} {file : StreamRef}
  {openFile : List Byte → OpenMode → Option Stream}

omit [FuncMemory M] [LawfulFuncMemory M] in
/-- The count has no more bits than a register. -/
theorem count_lt (registers : RegisterSet) (s : MARSSystem w M) :
    s.count registers < 2 ^ min w 64 := by
  rw [count, cpuRegister, BitVec.toNat_setWidth]
  rcases Nat.le_total w 64 with hw | hw
  · rw [Nat.min_eq_left hw]
    exact (Nat.mod_le _ _).trans_lt (BitVec.isLt _)
  · rw [Nat.min_eq_right hw]
    exact Nat.mod_lt _ (Nat.two_pow_pos _)

omit [FuncMemory M] [LawfulFuncMemory M] in
theorem length_buffered (registers : RegisterSet) (s : MARSSystem w M) (file : StreamRef) :
    (s.buffered registers file).length = s.count registers := by
  have hlen : (measured (s.kernel.streams file) (s.count registers)).2.1.length
      ≤ s.count registers := by
    rcases hg : (s.kernel.streams file).good with _ | _
    · rw [measured_of_not_good hg]
      exact Nat.zero_le _
    · by_cases hle : s.count registers ≤ (s.kernel.streams file).remaining.length
      · rw [measured_of_le hg hle]
        exact List.length_take_le _ _
      · rw [measured_of_lt hg (by omega)]
        dsimp only
        omega
  rw [buffered, List.length_append, List.length_replicate]
  omega

omit [FuncMemory M] [LawfulFuncMemory M] in
/-- The result register after a read. -/
theorem toNat_v0 (registers : RegisterSet) (s : MARSSystem w M) (file : StreamRef) (mem : M) :
    (((⟨(s.measuredSystem registers file).kernel, (s.measuredSystem registers file).rf, mem⟩ :
      MARSSystem w M).cpuRegister registers MARSKernel.v0).toNat : ℤ)
      = (measured (s.kernel.streams file) (s.count registers)).1 % 2 ^ min w 64 := by
  rw [← toNat_result w]
  congr 1
  rw [cpuRegister, measuredSystem]
  dsimp only
  rw [RF.get_set, if_pos rfl]

/-- Once the copy is done, so many bytes were read to the buffer exactly if the register has their
number and the rest of the buffer was zero before. -/
theorem readTo_iff {mem : M} {k : ℕ}
    (hroom : (s.bufferPtr registers).toNat + s.count registers ≤ size s.mem)
    (hdata : (measured (s.kernel.streams file) (s.count registers)).2.1
      = (s.kernel.streams file).remaining.take k)
    (hk : k ≤ s.count registers ∧ k ≤ (s.kernel.streams file).remaining.length)
    (hbytes : (measured (s.kernel.streams file) (s.count registers)).2.2.bytes
      = (s.kernel.streams file).bytes)
    (hposition : (measured (s.kernel.streams file) (s.count registers)).2.2.position
      = (s.kernel.streams file).position + k)
    (hcopy : memcpyHostToGuest s.mem (s.bufferPtr registers) (s.buffered registers file)
      = .ok mem) :
    s.ReadTo registers (s.kernel.streams file)
        ((s.measuredSystem registers file).kernel.streams file) k
        ⟨(s.measuredSystem registers file).kernel, (s.measuredSystem registers file).rf, mem⟩
      ↔ (measured (s.kernel.streams file) (s.count registers)).1 % 2 ^ min w 64 = k
        ∧ s.ZeroFrom registers k := by
  have hlen : ((s.kernel.streams file).remaining.take k).length = k :=
    List.length_take_of_le hk.2
  have hcopy' := copy_buffer (by rw [hlen]; exact hk.1) hroom
    (show memcpyHostToGuest s.mem (s.bufferPtr registers) ((s.kernel.streams file).remaining.take k
        ++ List.replicate (s.count registers
          - ((s.kernel.streams file).remaining.take k).length) 0#8) = .ok mem by
      rw [← hdata]
      exact hcopy)
  rw [hlen] at hcopy'
  have hstream : (s.measuredSystem registers file).kernel.streams file
      = (measured (s.kernel.streams file) (s.count registers)).2.2 :=
    MARSKernel.streams_setStream _ _
  rw [hstream, ← toNat_v0 registers s file mem]
  constructor
  · rintro ⟨hreturned, -, hothers, -, -⟩
    exact ⟨congrArg _ hreturned, hcopy'.2.1 hothers⟩
  · rintro ⟨hreturned, hzero⟩
    refine ⟨by exact_mod_cast hreturned, fun i hi => ?_, hcopy'.2.2 hzero, hbytes, hposition⟩
    rw [hcopy'.1 i hi]
    simp [List.getD_eq_getElem?_getD, hi]

variable (hregs : 6 < s.rf.maxReg)
  (hfile : s.kernel.findInFileByDescriptor (s.cpuRegister registers MARSKernel.a0) = some file)
  (hcode : s.cpuRegister registers MARSKernel.v0 = 14#64)
include hregs hfile hcode

theorem not_reads_of_error (h : ¬ s.count registers < 2 ^ 63 ∨ ∃ e,
      memcpyHostToGuest s.mem (s.bufferPtr registers) (s.buffered registers file) = .error e) :
    ¬ s.Reads registers openFile file := by
  obtain ⟨e, t, herror⟩ := run_read_error openFile hregs hfile hcode h
  exact not_exists_run herror

/-- A buffer that is not in the memory is not filled. -/
theorem not_reads_of_out
    (hroom : ¬ (s.bufferPtr registers).toNat + s.count registers ≤ size s.mem) :
    ¬ s.Reads registers openFile file := by
  have hout :
      size s.mem < (s.bufferPtr registers).toNat + (s.buffered registers file).length := by
    rw [length_buffered]
    omega
  exact not_reads_of_error hregs hfile hcode (.inr (host_to_guest_error hout))

/-- A call that copies its buffer leaves one state. -/
theorem reads_iff_readTo (hn : s.count registers < 2 ^ 63) {mem : M}
    (hcopy : memcpyHostToGuest s.mem (s.bufferPtr registers) (s.buffered registers file)
      = .ok mem) :
    s.Reads registers openFile file ↔ s.ReadTo registers (s.kernel.streams file)
      ((s.measuredSystem registers file).kernel.streams file)
      (min (s.count registers) (s.kernel.streams file).remaining.length)
      ⟨(s.measuredSystem registers file).kernel, (s.measuredSystem registers file).rf, mem⟩ :=
  exists_run_iff (run_read_ok openFile hregs hfile hcode hn hcopy)

/-- For every stream, buffer and count. -/
theorem reads_iff :
    s.Reads registers openFile file ↔ s.ReadsWell registers (s.kernel.streams file) := by
  by_cases hn : s.count registers < 2 ^ 63
  swap
  · exact iff_of_false (not_reads_of_error hregs hfile hcode (.inl hn)) fun h => hn h.1
  by_cases hroom : (s.bufferPtr registers).toNat + s.count registers ≤ size s.mem
  swap
  · exact iff_of_false (not_reads_of_out hregs hfile hcode hroom) fun h => hroom h.2.1
  have hfits : (s.bufferPtr registers).toNat + (s.buffered registers file).length ≤ size s.mem := by
    rw [length_buffered]
    exact hroom
  obtain ⟨mem, hcopy, -⟩ := host_to_guest hfits
  have hcount := count_lt registers s
  have hmod : ∀ z : ℤ, z % 2 ^ min w 64 = z % (2 ^ min w 64 : ℕ) := fun z => by push_cast; rfl
  rw [reads_iff_readTo hregs hfile hcode hn hcopy, ReadsWell, and_iff_right hn,
    and_iff_right hroom]
  rcases hg : (s.kernel.streams file).good with _ | _
  · have hmeasured := measured_of_not_good (n := s.count registers) hg
    have hnone : s.count registers = 0 ∨ (s.kernel.streams file).remaining = []
        ↔ min (s.count registers) (s.kernel.streams file).remaining.length = 0 := by
      rw [← List.length_eq_zero_iff]
      omega
    rw [if_neg Bool.false_ne_true, hnone]
    by_cases hk : min (s.count registers) (s.kernel.streams file).remaining.length = 0
    · rw [hk, readTo_iff hroom (by rw [hmeasured, List.take_zero]) ⟨Nat.zero_le _, Nat.zero_le _⟩
        (by rw [hmeasured]; rfl) (by rw [hmeasured]; rfl) hcopy, hmeasured]
      simp
    · refine iff_of_false (fun h => hk ?_) fun h => hk h.1
      have hreturned := toNat_v0 registers s file mem
      rw [h.returned, hmeasured, Int.zero_emod] at hreturned
      exact Int.ofNat_eq_zero.1 hreturned
  · rw [if_pos rfl]
    by_cases hle : s.count registers ≤ (s.kernel.streams file).remaining.length
    · have hmeasured := measured_of_le hg hle
      rw [min_eq_left hle, readTo_iff hroom (by rw [hmeasured]) ⟨le_rfl, hle⟩ (by rw [hmeasured])
        (by rw [hmeasured]) hcopy, hmeasured]
      refine iff_of_true ⟨?_, fun i hi hi' => absurd hi' (by omega)⟩ (.inl hle)
      rw [hmod]
      exact Int.emod_eq_of_lt (Int.natCast_nonneg _) (Int.ofNat_lt.2 hcount)
    · have hlt := Nat.lt_of_not_le hle
      have hmeasured := measured_of_lt hg hlt
      rw [min_eq_right hlt.le, readTo_iff hroom (by rw [hmeasured, List.take_length])
        ⟨hlt.le, le_rfl⟩ (by rw [hmeasured]) (by rw [hmeasured]) hcopy, hmeasured,
        or_iff_right hle, hmod, neg_emod_iff (hlt.trans hcount)]

end Reads

section Small

/-- Two bytes on the input stream, a memory of sixteen bytes, and a call that reads `count` bytes
to the fourth of them. -/
def readSystem (count : BitVec 32) : MARSSystem 32 PlainMemory where
  kernel :=
    { streams := fun _ => { bytes := [0x61#8, 0x62#8] }
      instream := 0
      outstream := 1
      errstream := 2 }
  rf :=
    { maxReg := MipsRegister.maxReg
      array := fun i =>
        if i = 2 then 14#32 else if i = 5 then 4#32 else if i = 6 then count else 0#32 }
  mem :=
    { addrBits := 4
      arena := List.replicate 16 7#8
      host := fun _ => 0#8
      bits_lt := PlainMemory.four_bits_lt
      length_arena := by decide }

/-- As many bytes as there are. -/
theorem reads_iff_two : (readSystem 2#32).Reads .mips (fun _ _ => none) (.host 0) :=
  (reads_iff (by decide) (by decide) (by decide)).2
    ⟨by decide, by decide, by rw [if_pos (by decide)]; exact .inl (by decide)⟩

/-- One more byte than there are: the result is `-1`, and no number of bytes. -/
theorem not_reads : ¬ (readSystem 3#32).Reads .mips (fun _ _ => none) (.host 0) := by
  rintro ⟨t, hrun, h⟩
  obtain ⟨mem, hcopy⟩ : ∃ mem, memcpyHostToGuest (readSystem 3#32).mem
      ((readSystem 3#32).bufferPtr .mips) ((readSystem 3#32).buffered .mips (.host 0)) = .ok mem :=
    ⟨_, PlainMemory.memcpyHostToGuest_ok (by decide)⟩
  rw [run_read_ok _ (by decide) (by decide) (by decide) (by decide) hcopy] at hrun
  cases hrun
  have hreturned := toNat_v0 .mips (readSystem 3#32) (.host 0) mem
  rw [h.returned] at hreturned
  exact absurd hreturned (by decide)

end Small

end MARSSystem

end MiptMips
