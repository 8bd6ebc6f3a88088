import MiptMips.Kernel.Mars
import MiptMips.Memory.PlainMemory

/-!
# A number that is read and printed again

A number is read into a register as a signed one, and the register that is printed is taken as a
64-bit number: where registers are narrower, it has lost its sign.
-/

namespace MiptMips

open Machines Throwing IntegerText

variable {w : ℕ} {M : Type} [FuncMemory M]

namespace MARSKernel

section Model

variable (k : MARSKernel)

def input : Stream := k.streams (.host k.instream)

def output : Stream := k.streams (.host k.outstream)

/-- The kernel after a word is read from the input. -/
def extracted : MARSKernel := k.setStream (.host k.instream) k.input.extract.2

@[simp]
theorem bytes_extracted : k.extracted.output.bytes = k.output.bytes := by
  show (if StreamRef.host k.outstream = .host k.instream then k.input.extract.2
    else k.output).bytes = _
  split_ifs with h
  · rw [Stream.bytes_extract, input, output, h]
  · rfl

end Model

variable (registers : RegisterSet) (openFile : List Byte → OpenMode → Option Stream)

/-- The system call that reads a number. -/
def requestInteger : Action w M Trap := do
  writeCpuRegister registers v0 5#64
  execute registers openFile

/-- The system call that prints a number, with the result of the last one. -/
def printResult : Action w M Trap := do
  let value ← readCpuRegister registers v0
  writeCpuRegister registers a0 value
  writeCpuRegister registers v0 1#64
  execute registers openFile

def echoInteger : Action w M (Trap × Trap) := do
  let read ← requestInteger registers openFile
  let printed ← printResult registers openFile
  return (read, printed)

end MARSKernel

/-- What the registers carry of a number, as it is printed. -/
def carried (w : ℕ) (n : ℤ) : ℤ := (((BitVec.ofInt 64 n).setWidth w).setWidth 64).toInt

theorem carried_32 (n : ℤ) : carried 32 n = n % 2 ^ 32 := by
  have hlt : (((BitVec.ofInt 64 n).setWidth 32).setWidth 64).toNat < 2 ^ 32 := by
    rw [BitVec.toNat_setWidth_of_le (by decide)]
    exact BitVec.isLt _
  rw [carried, BitVec.toInt_eq_toNat_of_lt (by omega), BitVec.toNat_setWidth_of_le (by decide),
    BitVec.toNat_setWidth, BitVec.toNat_ofInt]
  omega

theorem carried_64 {n : ℤ} (hn : -2 ^ 63 ≤ n ∧ n < 2 ^ 63) : carried 64 n = n := by
  rw [carried, BitVec.setWidth_eq, BitVec.setWidth_eq, BitVec.toInt_ofInt]
  exact Int.bmod_eq_of_le (by omega) (by omega)

theorem carried_eq_iff {n : ℤ} (hw : w = 32 ∨ w = 64)
    (hn : -2 ^ (w - 1) ≤ n ∧ n < 2 ^ (w - 1)) : carried w n = n ↔ w = 64 ∨ 0 ≤ n := by
  rcases hw with rfl | rfl
  · rw [carried_32]
    omega
  · exact iff_of_true (carried_64 hn) (.inl rfl)

namespace MARSSystem

/-- Both calls go through, and what is printed is the text of the number. -/
def Echoes (s : MARSSystem w M) (registers : RegisterSet)
    (openFile : List Byte → OpenMode → Option Stream) (n : ℤ) : Prop :=
  ∃ t, (MARSKernel.echoInteger registers openFile).run.run s = (.ok (.noTrap, .noTrap), t)
    ∧ t.kernel.output.bytes = s.kernel.output.bytes ++ decimal n

section Runs

variable {registers : RegisterSet} {s : MARSSystem w M} {n : ℤ}

omit [FuncMemory M] in
/-- The registers after one of them is written. -/
theorem cpuRegister_set (k : MARSKernel) (rf : RF w) (mem : M) (r r' : ℕ) (x : BitVec w) :
    cpuRegister ⟨k, rf.set (registers.fromCpuIndex r) x, mem⟩ registers r'
      = if r' = r then x.setWidth 64 else cpuRegister ⟨k, rf, mem⟩ registers r' := by
  unfold cpuRegister
  rw [RF.get_set, MARSKernel.toRfIndex_fromCpuIndex, MARSKernel.toRfIndex_fromCpuIndex]
  split_ifs <;> rfl

omit [FuncMemory M] in
theorem run_readInteger (hregs : MARSKernel.v0 < s.rf.maxReg) (hn : -2 ^ 63 ≤ n ∧ n < 2 ^ 63)
    (hin : s.kernel.input.ComesTo (decimal n)) :
    (MARSKernel.readInteger registers : MARSKernel.Action w M _).run.run s
      = (.ok ⟨⟩, ⟨s.kernel.extracted, s.rf.set (registers.fromCpuIndex MARSKernel.v0)
          ((BitVec.ofInt 64 n).setWidth w), s.mem⟩) := by
  have hword : s.kernel.input.extract.1 = decimal n :=
    Stream.extract_of_comesTo hin decimal_ne_nil fun c hc => not_isSpace_of_mem_decimal hc
  have hextract : (MARSKernel.extract : MARSKernel.Action w M _).run.run s
      = (.ok (decimal n), { s with kernel := s.kernel.extracted }) := by
    rw [MARSKernel.extract, MARSKernel.run_get_bind, MARSKernel.run_onStream]
    exact congrArg (fun word => (Except.ok word, { s with kernel := s.kernel.extracted })) hword
  rw [MARSKernel.readInteger, run_bind_ok hextract, stoll_decimal hn]
  dsimp only
  rw [if_neg (fun h => h rfl), MARSKernel.run_writeCpuRegister hregs (by decide)]

omit [FuncMemory M] in
theorem run_printInteger (hregs : MARSKernel.a0 < s.rf.maxReg) :
    (MARSKernel.printInteger registers : MARSKernel.Action w M _).run.run s
      = (.ok ⟨⟩, { s with
          kernel := s.kernel.setStream (.host s.kernel.outstream)
            (s.kernel.output.write
              (decimal (s.cpuRegister registers MARSKernel.a0).toInt)) }) := by
  rw [MARSKernel.printInteger, run_bind_ok (MARSKernel.run_readCpuRegister hregs),
    MARSKernel.run_get_bind]
  rfl

variable (registers) (kernel : MARSKernel) (mem : M) {rf : RF w}
  (openFile : List Byte → OpenMode → Option Stream) (hw : w = 32 ∨ w = 64)
  (hregs : MARSKernel.a0 < rf.maxReg)

include hw hregs

/-- The number of a system call is written to its register and found there. -/
theorem run_request {code : BitVec 64} {syscall : MARSKernel.Action w M PUnit}
    (hcode : code = 1#64 ∨ code = 5#64)
    (hcall : MARSKernel.call registers openFile code.toNat = some syscall) :
    (do
      MARSKernel.writeCpuRegister registers MARSKernel.v0 code
      MARSKernel.execute registers openFile : MARSKernel.Action w M Trap).run.run ⟨kernel, rf, mem⟩
      = (do syscall; return Trap.noTrap : MARSKernel.Action w M Trap).run.run
          ⟨kernel, rf.set (registers.fromCpuIndex MARSKernel.v0) (code.setWidth w), mem⟩ := by
  have hv0 : MARSKernel.v0 < rf.maxReg := lt_trans (by decide) hregs
  have hwidth : (code.setWidth w).setWidth 64 = code := by
    rcases hcode with rfl | rfl <;> rcases hw with rfl | rfl <;> rfl
  rw [run_bind_ok (MARSKernel.run_writeCpuRegister hv0 (by decide) _), MARSKernel.run_execute hv0]
  rwa [cpuRegister_set, if_pos rfl, hwidth]

theorem run_requestInteger (hn : -2 ^ 63 ≤ n ∧ n < 2 ^ 63)
    (hin : kernel.input.ComesTo (decimal n)) : ∃ rf',
    (MARSKernel.requestInteger registers openFile).run.run ⟨kernel, rf, mem⟩
        = (.ok .noTrap, ⟨kernel.extracted, rf', mem⟩)
      ∧ rf'.maxReg = rf.maxReg
      ∧ rf'.get (registers.fromCpuIndex MARSKernel.v0) = (BitVec.ofInt 64 n).setWidth w := by
  have hv0 : MARSKernel.v0 < rf.maxReg := lt_trans (by decide) hregs
  rw [MARSKernel.requestInteger,
    run_request registers kernel mem openFile hw hregs (.inr rfl) rfl,
    run_bind_ok (run_readInteger hv0 hn hin)]
  exact ⟨_, rfl, rfl, by rw [RF.get_set, if_pos rfl]⟩

theorem run_printResult : ∃ rf',
    (MARSKernel.printResult registers openFile).run.run ⟨kernel, rf, mem⟩
      = (.ok .noTrap, ⟨kernel.setStream (.host kernel.outstream) (kernel.output.write (decimal
          ((rf.get (registers.fromCpuIndex MARSKernel.v0)).setWidth 64).toInt)), rf', mem⟩) := by
  have hv0 : MARSKernel.v0 < rf.maxReg := lt_trans (by decide) hregs
  have hset : ∀ r x, MARSKernel.a0 < (rf.set r x).maxReg := fun _ _ => hregs
  have hmoved : ∀ y : BitVec w, (y.setWidth 64).setWidth w = y := fun y => by
    rw [BitVec.setWidth_setWidth_of_le _ (by omega), BitVec.setWidth_eq]
  rw [MARSKernel.printResult, run_bind_ok (MARSKernel.run_readCpuRegister hv0),
    run_bind_ok (MARSKernel.run_writeCpuRegister hregs (by decide) _),
    run_request registers kernel mem openFile hw (hset _ _) (.inl rfl) rfl,
    run_bind_ok (run_printInteger ?_), cpuRegister_set, if_neg (by decide), cpuRegister_set,
    if_pos rfl, cpuRegister, hmoved]
  · exact ⟨_, rfl⟩
  · exact hregs

end Runs

section Echo

variable (registers : RegisterSet) {s : MARSSystem w M} {n : ℤ}
  (openFile : List Byte → OpenMode → Option Stream) (hw : w = 32 ∨ w = 64)
  (hregs : MARSKernel.a0 < s.rf.maxReg) (hn : -2 ^ (w - 1) ≤ n ∧ n < 2 ^ (w - 1))
  (hin : s.kernel.input.ComesTo (decimal n))

include hw hregs hn hin

/-- What is printed is what the registers carry of the number. -/
theorem run_echoInteger : ∃ t,
    (MARSKernel.echoInteger registers openFile).run.run s = (.ok (.noTrap, .noTrap), t)
      ∧ t.kernel.output = s.kernel.extracted.output.write (decimal (carried w n)) := by
  obtain ⟨kernel, rf, mem⟩ := s
  have hrange : -2 ^ 63 ≤ n ∧ n < 2 ^ 63 := by rcases hw with rfl | rfl <;> omega
  obtain ⟨rf₁, hread, hmax, hget⟩ :=
    run_requestInteger registers kernel mem openFile hw hregs hrange hin
  obtain ⟨rf₂, hprint⟩ :=
    run_printResult registers kernel.extracted mem openFile hw (hmax ▸ hregs)
  rw [MARSKernel.echoInteger, run_bind_ok hread, run_bind_ok hprint, hget]
  exact ⟨_, rfl, MARSKernel.streams_setStream _ _⟩

/-- For every number in the range of the registers. -/
theorem echoes_iff (hout : s.kernel.extracted.output.good ∧ s.kernel.extracted.output.output) :
    s.Echoes registers openFile n ↔ w = 64 ∨ 0 ≤ n := by
  obtain ⟨t, hrun, houtput⟩ := run_echoInteger registers openFile hw hregs hn hin
  have hbytes : t.kernel.output.bytes = s.kernel.output.bytes ++ decimal (carried w n) := by
    rw [houtput, Stream.bytes_write_of_good hout.1 hout.2, MARSKernel.bytes_extracted]
  rw [Echoes, exists_run_iff hrun, hbytes, List.append_right_inj, decimal_injective.eq_iff,
    carried_eq_iff hw hn]

end Echo

section Small

/-- A text on the input, and an empty output. -/
def echoSystem (w : ℕ) (text : List Byte) : MARSSystem w PlainMemory where
  kernel :=
    { streams := fun f => { bytes := if f = .host 0 then text else [] }
      instream := 0
      outstream := 1
      errstream := 2 }
  rf := RF.zeroed w MipsRegister.maxReg
  mem :=
    { addrBits := 0
      arena := [0#8]
      host := fun _ => 0#8
      bits_lt := by decide
      length_arena := by decide }

/-- `-1337`, in registers of 64 bits. -/
theorem echoes_minus :
    (echoSystem 64 [0x2d#8, 0x31#8, 0x33#8, 0x33#8, 0x37#8]).Echoes .mips (fun _ _ => none)
      (-1337) :=
  (echoes_iff _ _ (.inr rfl) (by decide) (by decide)
    ⟨by decide, [], [], by decide, nofun, nofun⟩ (by decide)).2 (.inl rfl)

/-- `-1` is printed as `4294967295` where registers have 32 bits. -/
theorem not_echoes_minus :
    ¬ (echoSystem 32 [0x2d#8, 0x31#8]).Echoes .mips (fun _ _ => none) (-1) := by
  have hin : (echoSystem 32 [0x2d#8, 0x31#8]).kernel.input.ComesTo (decimal (-1)) :=
    ⟨by decide, [], [], by decide, nofun, nofun⟩
  obtain ⟨t, hrun, houtput⟩ :=
    run_echoInteger .mips (fun _ _ => none) (.inl rfl) (by decide) (by decide) hin
  rw [Echoes, exists_run_iff hrun, houtput]
  decide

end Small

end MARSSystem

end MiptMips
