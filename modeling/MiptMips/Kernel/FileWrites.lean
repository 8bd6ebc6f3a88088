import MiptMips.Kernel.FileReads
import MiptMips.Memory.Strings

/-!
# Writing to a descriptor

The bytes of the buffer are read as a string, so that there are no more of them than there are up to
the first zero.
-/

namespace MiptMips

open Machines Throwing FuncMemory LawfulFuncMemory

variable {w : ℕ}

namespace MARSSystem

section Model

variable (registers : RegisterSet) (s : MARSSystem w AnyMemory)

/-- The bytes of the guest at the buffer, zeroes and all. -/
def bufferBytes : List Byte :=
  (List.range (s.count registers)).map fun i => byteAt s.mem ((s.bufferPtr registers).offset i)

/-- The system call does not throw, and appends the buffer to the stream. -/
def Writes (openFile : List Byte → OpenMode → Option Stream) (file : StreamRef) : Prop :=
  ∃ t, (MARSKernel.execute registers openFile).run.run s = (.ok .noTrap, t)
    ∧ (t.kernel.streams file).bytes = (s.kernel.streams file).bytes ++ s.bufferBytes registers
    ∧ t.mem = s.mem

/-- There is nothing to write, or a stream that takes it and no zero in it. -/
def WritesWell (stream : Stream) : Prop :=
  s.count registers = 0
    ∨ s.count registers < 2 ^ 63 ∧ (stream.good ∧ stream.output)
      ∧ ∀ i < s.count registers, byteAt s.mem ((s.bufferPtr registers).offset i) ≠ 0#8

/-- How long the string in the buffer is. -/
def stringLength : ℕ := min (s.count registers) (strlen s.mem (s.bufferPtr registers))

/-- What the call writes. -/
def stringBytes : List Byte :=
  (List.range (s.stringLength registers)).map fun i =>
    byteAt s.mem ((s.bufferPtr registers).offset i)

end Model

section Runs

variable {registers : RegisterSet} {s : MARSSystem w AnyMemory} {file : StreamRef}
  (openFile : List Byte → OpenMode → Option Stream) (hregs : 6 < s.rf.maxReg)
  (hfile : s.kernel.findOutFileByDescriptor (s.cpuRegister registers MARSKernel.a0) = some file)
  (hcode : s.cpuRegister registers MARSKernel.v0 = 15#64)
  (hroom : (s.bufferPtr registers).toNat + s.count registers ≤ size s.mem)

include hroom in
theorem run_readStringLimited :
    (MARSKernel.readStringLimited (s.cpuRegister registers MARSKernel.a1)
      (s.cpuRegister registers MARSKernel.a2).toNat : MARSKernel.Action w AnyMemory _).run.run s
      = if s.stringLength registers < 2 ^ 63 then (.ok (s.stringBytes registers), s)
        else (.error (.simulator .lengthError), s) := by
  have hin : (s.bufferPtr registers).toNat + s.stringLength registers ≤ size s.mem :=
    (Nat.add_le_add_left (min_le_left _ _) _).trans hroom
  have hcopied := AnyMemory.memcpyGuestToHost_in hin
  have hlen : (s.stringBytes registers).length = s.stringLength registers := by
    simp [stringBytes]
  rw [MARSKernel.readStringLimited, MARSKernel.run_get_bind]
  show (MARSKernel.readStringBySize (s.bufferPtr registers)
    (s.stringLength registers)).run.run s = _
  rw [MARSKernel.readStringBySize]
  split_ifs with hn
  · rw [run_bind_ok (MARSKernel.run_vector hn), MARSKernel.run_get_bind, hcopied]
    show (Except.ok (s.stringBytes registers ++ List.replicate
      (s.stringLength registers - (s.stringBytes registers).length) 0#8), s) = _
    rw [hlen, Nat.sub_self, List.replicate_zero, List.append_nil]
  · rw [run_bind_error (MARSKernel.run_vector_large hn)]

include hregs hfile hcode hroom

/-- The call appends the string, and leaves the memory as it is. -/
theorem run_write_ok (hn : s.stringLength registers < 2 ^ 63) : ∃ t,
    (MARSKernel.execute registers openFile).run.run s = (.ok .noTrap, t)
      ∧ t.kernel.streams file = (s.kernel.streams file).write (s.stringBytes registers)
      ∧ t.mem = s.mem := by
  have hv : ∀ r ≤ 6, r < s.rf.maxReg := fun r hr => by omega
  have hstring := run_readStringLimited hroom
  rw [if_pos hn] at hstring
  have hwrite : ∃ t, (MARSKernel.writeToFile registers : MARSKernel.Action w AnyMemory _).run.run s
      = (.ok ⟨⟩, t)
      ∧ t.kernel.streams file = (s.kernel.streams file).write (s.stringBytes registers)
      ∧ t.mem = s.mem := by
    unfold MARSKernel.writeToFile MARSKernel.print
    rw [MARSKernel.run_readArguments hregs, hfile]
    dsimp only
    rw [run_bind_ok hstring, run_bind_ok (MARSKernel.run_onStream _),
      run_bind_ok (MARSKernel.run_onStream _), run_bind_ok (MARSKernel.run_onStream _)]
    simp only [MARSKernel.streams_setStream, MARSKernel.setStream_setStream]
    rw [MARSKernel.run_writeCpuRegister (hv _ (by decide)) (by decide)]
    exact ⟨_, rfl, MARSKernel.streams_setStream _ _, rfl⟩
  obtain ⟨t, hrun, ht⟩ := hwrite
  refine ⟨t, ?_, ht⟩
  rw [MARSKernel.run_execute (show 2 < _ by omega) (by rw [hcode]; rfl), run_bind_ok hrun]
  rfl

/-- A string that is too long throws. -/
theorem run_write_error (hn : ¬ s.stringLength registers < 2 ^ 63) :
    ∃ e t, (MARSKernel.execute registers openFile).run.run s = (.error e, t) := by
  have hstring := run_readStringLimited hroom
  rw [if_neg hn] at hstring
  have hwrite : (MARSKernel.writeToFile registers : MARSKernel.Action w AnyMemory _).run.run s
      = (.error (.simulator .lengthError), s) := by
    unfold MARSKernel.writeToFile
    rw [MARSKernel.run_readArguments hregs, hfile]
    dsimp only
    rw [run_bind_error hstring]
  exact ⟨_, _, (MARSKernel.run_execute (show 2 < _ by omega) (by rw [hcode]; rfl)).trans
    (run_bind_error hwrite _)⟩

omit hregs hfile hcode hroom in
/-- The string is the whole buffer when it is as long. -/
theorem stringBytes_eq_iff : s.stringBytes registers = s.bufferBytes registers
    ↔ s.count registers ≤ strlen s.mem (s.bufferPtr registers) := by
  constructor
  · intro h
    have hlen := congrArg List.length h
    simp only [stringBytes, bufferBytes, List.length_map, List.length_range] at hlen
    exact hlen ▸ min_le_right _ _
  · intro h
    rw [stringBytes, stringLength, min_eq_left h]
    rfl

/-- For every contents of the memory and every buffer in range. -/
theorem writes_iff : s.Writes registers openFile file
    ↔ s.WritesWell registers (s.kernel.streams file) := by
  have hlen : (s.bufferBytes registers).length = s.count registers := by simp [bufferBytes]
  have hle : s.stringLength registers ≤ s.count registers := min_le_left _ _
  have hzeros := AnyMemory.le_strlen_iff hroom
  by_cases hn : s.stringLength registers < 2 ^ 63
  · obtain ⟨t, hrun, hstream, hmem⟩ := run_write_ok openFile hregs hfile hcode hroom hn
    have hwrites : s.Writes registers openFile file
        ↔ ((s.kernel.streams file).write (s.stringBytes registers)).bytes
          = (s.kernel.streams file).bytes ++ s.bufferBytes registers := by
      rw [Writes, exists_run_iff hrun, and_iff_left hmem, hstream]
    rw [hwrites, WritesWell]
    by_cases hready : (s.kernel.streams file).good ∧ (s.kernel.streams file).output
    · rw [Stream.bytes_write_of_good hready.1 hready.2, List.append_right_inj, stringBytes_eq_iff,
        hzeros]
      refine ⟨fun h => ?_, fun h => ?_⟩
      · have hcount : s.stringLength registers = s.count registers := min_eq_left (hzeros.2 h)
        exact .inr ⟨by omega, hready, h⟩
      · rcases h with hzero | ⟨-, -, h⟩
        · exact fun i hi => absurd hi (by omega)
        · exact h
    · rw [Stream.bytes_write_of_not hready, List.self_eq_append_right, ← List.length_eq_zero_iff,
        hlen]
      exact ⟨.inl, fun h => h.resolve_right fun h => hready h.2.1⟩
  · obtain ⟨e, t, hrun⟩ := run_write_error openFile hregs hfile hcode hroom hn
    refine iff_of_false (not_exists_run hrun) ?_
    rintro (hzero | ⟨hcount, -⟩)
    · omega
    · omega

end Runs

section Small

/-- Three bytes, a zero and another byte at the first addresses, and a call that writes `count`
bytes to the output stream. -/
def writeSystem (count : BitVec 32) : MARSSystem 32 AnyMemory where
  kernel :=
    { streams := fun _ => { bytes := [] }
      instream := 0
      outstream := 1
      errstream := 2 }
  rf :=
    { maxReg := MipsRegister.maxReg
      array := fun i =>
        if i = 2 then 15#32 else if i = 4 then 1#32 else if i = 6 then count else 0#32 }
  mem := .plain
    { addrBits := 3
      arena := [0x61#8, 0x62#8, 0x63#8, 0#8, 0x64#8, 0#8, 0#8, 0#8]
      host := fun _ => 0#8
      bits_lt := PlainMemory.three_bits_lt
      length_arena := by decide }

/-- Bytes before the zero. -/
theorem writes_iff_three : (writeSystem 3#32).Writes .mips (fun _ _ => none) (.host 1) :=
  (writes_iff _ (by decide) (by decide) (by decide) (by decide)).2
    (.inr ⟨by decide, by decide, by decide⟩)

/-- With the zero and the byte after it, no more is written. -/
theorem not_writes : ¬ (writeSystem 5#32).Writes .mips (fun _ _ => none) (.host 1) := by
  have hfile : (writeSystem 5#32).kernel.findOutFileByDescriptor
      ((writeSystem 5#32).cpuRegister .mips MARSKernel.a0) = some (.host 1) := by decide
  have hcode : (writeSystem 5#32).cpuRegister .mips MARSKernel.v0 = 15#64 := by decide
  obtain ⟨t, hrun, hstream, -⟩ :=
    run_write_ok (fun _ _ => none) (by decide) hfile hcode (by decide) (by decide)
  rw [Writes, exists_run_iff hrun, hstream]
  exact fun h => absurd h.1 (by decide)

end Small

end MARSSystem

end MiptMips
