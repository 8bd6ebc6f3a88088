import MiptMips.FuncSim.FuncSim
import MiptMips.Memory.Alike
import MiptMips.Mips.Instr

/-!
# Runs on memories of different kinds

The functional simulator works on any memory and keeps decoded instructions in a cache of any
capacity. As long as it fetches and loads inside of its memory, neither shows: two simulators that
start alike go through the same states, and a step of one throws when the other's does.
-/

namespace MiptMips

open Machines LawfulFuncMemory AlikeMemories

variable {w : ℕ} {M N K : Type} [FuncMemory M] [LawfulFuncMemory M] [FuncMemory N]
  [LawfulFuncMemory N]

namespace FuncSim

section States

variable (isa : ISA w)

/-- The same state, but for the kind of the memory and what the cache of instructions holds. -/
structure Alike (s : FuncSim w M) (t : FuncSim w N) : Prop where
  rf : t.rf = s.rf
  sequenceId : t.sequenceId = s.sequenceId
  mem : AlikeMemories s.mem t.mem
  endian : t.imem.endian = s.imem.endian
  coherent : s.imem.Coherent isa
  coherent' : t.imem.Coherent isa
  pc : t.pc = s.pc
  delayedSlots : t.delayedSlots = s.delayedSlots
  nopsInARow : t.nopsInARow = s.nopsInARow

/-- The next step reads inside of the memory. -/
structure ReadsInside (s : FuncSim w M) : Prop where
  fetch : s.getPC.toNat + 4 ≤ size s.mem
  load : LoadsInside s.mem (s.current isa).execute

end States

variable {isa : ISA w} {s : FuncSim w M} {t : FuncSim w N}

namespace Alike

theorem create (endian : Endian) (capacity capacity' : ℕ) {m : M} {n : N}
    (h : AlikeMemories m n) :
    (FuncSim.create isa endian capacity m).Alike isa (FuncSim.create isa endian capacity' n) :=
  ⟨rfl, rfl, h, rfl, InstrMemoryCached.coherent_create isa _ _,
    InstrMemoryCached.coherent_create isa _ _, rfl, rfl, rfl⟩

theorem setTarget (h : s.Alike isa t) (address : Addr) (sequenceId : BitVec 64) :
    (s.setTarget address sequenceId).Alike isa (t.setTarget address sequenceId) :=
  { h with
    sequenceId := rfl
    pc := by
      show (fun i => if i = 0 then address else t.pc i) = _
      rw [h.pc]
      rfl
    delayedSlots := rfl }

omit [LawfulFuncMemory M] in
theorem fetchOperands_eq (isa : ISA w) (s : FuncSim w M) : s.fetchOperands isa = do
    let instr ← s.rf.readSources
      ((s.imem.fetchInstr isa s.mem s.getPC).1.setSequenceId s.sequenceId)
    return (instr, (s.imem.fetchInstr isa s.mem s.getPC).2) := rfl

theorem fetchOperands (h : s.Alike isa t) (hr : s.ReadsInside isa) :
    Outcomes (fun a b => a.1 = s.current isa ∧ b.1 = a.1 ∧ b.2.endian = a.2.endian
        ∧ a.2.Coherent isa ∧ b.2.Coherent isa)
      (s.fetchOperands isa) (t.fetchOperands isa) := by
  have hpc : t.getPC = s.getPC := congrFun h.pc 0
  have hread : MiptMips.fetchInstr isa t.imem.endian t.mem t.getPC
      = MiptMips.fetchInstr isa s.imem.endian s.mem s.getPC := by
    unfold MiptMips.fetchInstr MiptMips.fetch
    rw [h.endian, hpc, h.mem.read_eq hr.fetch]
  have hfetched : Outcomes (fun a b => b.1 = a.1 ∧ b.2.endian = a.2.endian
      ∧ a.2.Coherent isa ∧ b.2.Coherent isa) (s.fetchOperands isa) (t.fetchOperands isa) := by
    rw [fetchOperands_eq, fetchOperands_eq, fetchInstr_eq h.coherent, fetchInstr_eq h.coherent',
      hread, h.rf, h.sequenceId]
    refine (Outcomes.refl (R := Eq) (fun _ => rfl) _).bind ?_
    rintro instr _ - - rfl
    exact .ok ⟨rfl, by rw [endian_fetchInstr, endian_fetchInstr, h.endian],
      fetchInstr_coherent h.coherent _ _, fetchInstr_coherent h.coherent' _ _⟩
  exact hfetched.mono fun a b ha _ hrelated =>
    ⟨((fetchOperands_iff h.coherent).1 ha).2.1, hrelated⟩

theorem updatePC (h : s.Alike isa t) (instr : FuncInstr w) :
    Outcomes (Alike isa) (s.updatePC instr) (t.updatePC instr) := by
  unfold FuncSim.updatePC
  rw [h.pc, h.delayedSlots]
  exact (Outcomes.refl (R := Eq) (fun _ => rfl) _).bind fun a b _ _ hab => by
    subst hab
    exact .ok { h with pc := rfl, delayedSlots := rfl }

theorem updateAndCheckNopCounter (h : s.Alike isa t) (instr : FuncInstr w) :
    Outcomes (Alike isa) (s.updateAndCheckNopCounter instr) (t.updateAndCheckNopCounter instr) := by
  unfold FuncSim.updateAndCheckNopCounter
  rw [h.nopsInARow]
  dsimp only
  split_ifs
  · exact .error _ _
  · exact .ok { h with nopsInARow := rfl }
  · exact .error _ _
  · exact .ok { h with nopsInARow := rfl }

/-- A step on one memory is a step on the other. -/
theorem step (h : s.Alike isa t) (hr : s.ReadsInside isa) :
    Outcomes (fun a b => b.1 = a.1 ∧ a.2.Alike isa b.2) (s.step isa) (t.step isa) := by
  unfold FuncSim.step
  refine (h.fetchOperands hr).bind ?_
  rintro ⟨instr, imem⟩ ⟨_, imem'⟩ - - ⟨hcurrent, rfl, hendian, hcoherent, hcoherent'⟩
  dsimp only at hcurrent hendian hcoherent hcoherent' ⊢
  subst hcurrent
  refine (h.mem.loadStore hr.load).bind ?_
  rintro ⟨instr, mem⟩ ⟨_, mem'⟩ - - ⟨rfl, hmem⟩
  dsimp only at hmem ⊢
  rw [h.rf]
  refine (Outcomes.refl (R := Eq) (fun _ => rfl) _).bind ?_
  rintro rf _ - - rfl
  rw [h.sequenceId]
  have halike : Alike isa { s with sequenceId := s.sequenceId + 1, imem, mem, rf }
      { t with sequenceId := s.sequenceId + 1, imem := imem', mem := mem', rf } :=
    ⟨rfl, rfl, hmem, hendian, hcoherent, hcoherent', h.pc, h.delayedSlots, h.nopsInARow⟩
  refine (halike.updatePC _).bind fun s' t' _ _ hupdated => ?_
  exact (hupdated.updateAndCheckNopCounter _).bind fun _ _ _ _ hnext => .ok ⟨rfl, hnext⟩

theorem driverStep (h : s.Alike isa t) (instr : FuncInstr w) :
    Outcomes (fun a b => b.1 = a.1 ∧ a.2.Alike isa b.2) (s.driverStep isa instr)
      (t.driverStep isa instr) := by
  unfold FuncSim.driverStep
  rw [h.rf]
  refine (Outcomes.refl (R := Eq) (fun _ => rfl) _).bind ?_
  rintro result _ - - rfl
  have hdriven : Alike isa { s with rf := result.rf } { t with rf := result.rf } :=
    { h with rf := rfl }
  refine .ok ⟨rfl, ?_⟩
  dsimp only
  split
  · exact hdriven.setTarget _ _
  · exact hdriven

end Alike

end FuncSim

section Kernels

/-- Two kernels do the same on memories that are alike, whenever `inside` says that a system call
keeps inside of its memory. -/
def Kernel.Alike (kernel : Kernel w M K) (kernel' : Kernel w N K) (inside : K → RF w → M → Prop) :
    Prop :=
  ∀ k rf m n, AlikeMemories m n → inside k rf m →
    Outcomes (fun a b => b.1 = a.1 ∧ b.2.1 = a.2.1 ∧ AlikeMemories a.2.2.1 b.2.2.1
        ∧ b.2.2.2 = a.2.2.2)
      (kernel.executeInteractive k rf m) (kernel'.executeInteractive k rf n)

theorem Kernel.dummy_alike (w : ℕ) (M N : Type) [FuncMemory M] [LawfulFuncMemory M] [FuncMemory N]
    [LawfulFuncMemory N] :
    (Kernel.dummy w M).Alike (Kernel.dummy w N) fun _ _ _ => True :=
  fun _ _ _ _ h _ => .ok ⟨rfl, rfl, h, rfl⟩

end Kernels

namespace FuncSim

section Run

variable {isa : ISA w} {kernel : Kernel w M K} {kernel' : Kernel w N K}
  {inside : K → RF w → M → Prop}

theorem Alike.handleInstruction {s : FuncSim w M} {t : FuncSim w N} (h : s.Alike isa t)
    (hkernel : kernel.Alike kernel' inside) (k : K) (instr : FuncInstr w)
    (hinside : instr.trap = .syscall → inside k s.rf s.mem) :
    Outcomes (fun a b => b.1 = a.1 ∧ b.2.1 = a.2.1 ∧ a.2.2.Alike isa b.2.2)
      (s.handleInstruction kernel k instr) (t.handleInstruction kernel' k instr) := by
  unfold FuncSim.handleInstruction
  split_ifs with hsyscall
  · exact .ok ⟨rfl, rfl, h⟩
  · have hcall := hkernel k s.rf s.mem t.mem h.mem (hinside (not_not.1 hsyscall))
    rw [h.rf]
    refine hcall.bind ?_
    rintro ⟨k', rf, mem, trap⟩ ⟨_, _, mem', _⟩ - - ⟨rfl, rfl, hmem, rfl⟩
    exact .ok ⟨rfl, rfl, { h with rf := rfl, mem := hmem }⟩

variable (isa inside) in
/-- The body of the run loop keeps inside of the memory. -/
structure StepInside (s : K × FuncSim w M) : Prop where
  reads : s.2.ReadsInside isa
  syscall : OnOk (fun a => a.1.trap = .syscall → inside s.1 a.2.rf a.2.mem) (s.2.step isa)

/-- The body of the run loop on one memory is that on the other. -/
theorem Alike.runStep {s : FuncSim w M} {t : FuncSim w N} (h : s.Alike isa t)
    (hkernel : kernel.Alike kernel' inside) {k : K} (hin : StepInside isa inside (k, s)) :
    Outcomes (fun a b => b.1 = a.1 ∧ b.2.1 = a.2.1 ∧ a.2.2.Alike isa b.2.2)
      (FuncSim.runStep isa kernel (k, s)) (FuncSim.runStep isa kernel' (k, t)) := by
  unfold FuncSim.runStep
  refine (h.step hin.reads).bind ?_
  rintro ⟨instr, s'⟩ ⟨_, t'⟩ hs - ⟨rfl, halike⟩
  have hsyscall := hin.syscall
  rw [show s.step isa = _ from hs] at hsyscall
  refine (halike.handleInstruction hkernel k _ hsyscall).bind ?_
  rintro ⟨k', instr', s''⟩ ⟨_, _, t''⟩ - - ⟨rfl, rfl, halike'⟩
  refine (halike'.driverStep _).bind ?_
  rintro ⟨trap, s₃⟩ ⟨_, t₃⟩ - - ⟨rfl, halike''⟩
  exact .ok ⟨rfl, rfl, halike''⟩

variable (isa kernel inside) in
/-- Whatever of so many instructions is run keeps inside of the memory. -/
def RunInside : ℕ → K × FuncSim w M → Prop
  | 0, _ => True
  | n + 1, s => StepInside isa inside s
      ∧ OnOk (fun a => a.1 = .noTrap → RunInside n a.2) (FuncSim.runStep isa kernel s)

theorem Alike.runLoop (hkernel : kernel.Alike kernel' inside) :
    ∀ (n : ℕ) {k : K} {s : FuncSim w M} {t : FuncSim w N}, s.Alike isa t →
      RunInside isa kernel inside n (k, s) →
      Outcomes (fun a b => b.1 = a.1 ∧ b.2.1 = a.2.1 ∧ a.2.2.Alike isa b.2.2)
        (FuncSim.runLoop isa kernel n (k, s)) (FuncSim.runLoop isa kernel' n (k, t))
  | 0, _, _, _, h, _ => .ok ⟨rfl, rfl, h⟩
  | n + 1, k, s, t, h, ⟨hstep, hrest⟩ => by
    unfold FuncSim.runLoop
    refine (h.runStep hkernel hstep).bind ?_
    rintro ⟨trap, k', s'⟩ ⟨trap', _, t'⟩ hs - ⟨htraps, rfl, halike⟩
    obtain rfl : trap' = trap := htraps
    dsimp only at halike ⊢
    split_ifs with htrap
    · exact .ok ⟨rfl, rfl, halike⟩
    · obtain rfl : trap' = .noTrap := not_not.1 htrap
      rw [hs] at hrest
      exact runLoop hkernel n halike (hrest rfl)

/-- A program is copied into two new memories of one size, of any kinds, and run on both with
caches of any capacity: the runs end with the same trap in the same state, or both throw. -/
theorem run_on_fresh {m n : AnyMemory} (hm : m.IsFresh) (hn : n.IsFresh) (hsize : size n = size m)
    {kernel : Kernel w AnyMemory K} {inside : K → RF w → AnyMemory → Prop}
    (hkernel : kernel.Alike kernel inside) (endian : Endian) (capacity capacity' : ℕ)
    (program : List (Addr × List Byte)) (start : Addr) (k : K) (instrsToRun : ℕ)
    (hin : OnOk (fun m => RunInside isa kernel inside instrsToRun
      (k, (create isa endian capacity m).setTarget start 0#64)) (FuncMemory.copyAll m program)) :
    Outcomes (fun a b => b.1 = a.1 ∧ b.2.1 = a.2.1 ∧ a.2.2.Alike isa b.2.2)
      (do
        let m ← FuncMemory.copyAll m program
        ((create isa endian capacity m).setTarget start 0#64).run isa kernel k instrsToRun)
      (do
        let n ← FuncMemory.copyAll n program
        ((create isa endian capacity' n).setTarget start 0#64).run isa kernel k instrsToRun) := by
  refine (AlikeMemories.copyAll program (hm.alike hn hsize)).bind fun m' n' hm' _ halike => ?_
  rw [hm'] at hin
  exact Alike.runLoop hkernel instrsToRun
    ((Alike.create endian capacity capacity' halike).setTarget start 0#64) hin

end Run

section Decidable

variable {isa : ISA w} {kernel : Kernel w M K} {inside : K → RF w → M → Prop}

instance (s : FuncSim w M) : Decidable (s.ReadsInside isa) :=
  decidable_of_iff (s.getPC.toNat + 4 ≤ size s.mem ∧ LoadsInside s.mem (s.current isa).execute)
    ⟨fun h => ⟨h.1, h.2⟩, fun h => ⟨h.1, h.2⟩⟩

variable [∀ k rf m, Decidable (inside k rf m)]

instance (s : K × FuncSim w M) : Decidable (StepInside isa inside s) :=
  decidable_of_iff (s.2.ReadsInside isa
      ∧ OnOk (fun a => a.1.trap = .syscall → inside s.1 a.2.rf a.2.mem) (s.2.step isa))
    ⟨fun h => ⟨h.1, h.2⟩, fun h => ⟨h.1, h.2⟩⟩

instance decidableRunInside : ∀ n, DecidablePred (RunInside isa kernel inside n)
  | 0, _ => .isTrue trivial
  | n + 1, _ =>
    have := decidableRunInside n
    inferInstanceAs (Decidable (_ ∧ _))

end Decidable

section Example

/-- From address 16 on `lw $t0, 32($zero); addiu $t0, $t0, 1; sw $t0, 36($zero); j 16`. -/
def countProgram : List (Addr × List Byte) :=
  [(16#64, [0x20#8, 0x00#8, 0x08#8, 0x8c#8, 0x01#8, 0x00#8, 0x08#8, 0x25#8]),
    (24#64, [0x24#8, 0x00#8, 0x08#8, 0xac#8, 0x04#8, 0x00#8, 0x00#8, 0x08#8]),
    (32#64, [0x07#8])]

/-- The program goes round with a plain memory and one instruction cached, and with pages of four
bytes and sixteen instructions cached. -/
theorem run_on_fresh_count : ∃ n, HierarchiedMemory.create 6#32 2#32 2#32 = .ok n
    ∧ Outcomes (fun a b => b.1 = a.1 ∧ b.2.2.rf = a.2.2.rf)
      (do
        let m ← FuncMemory.copyAll
          (AnyMemory.plain (.create 6 PlainMemory.six_bits_lt fun _ => 0#8)) countProgram
        ((create (Mips.isa .mars) .little 1 m).setTarget 16#64 0#64).run (Mips.isa .mars)
          (.dummy _ AnyMemory) () 6)
      (do
        let n ← FuncMemory.copyAll (AnyMemory.hierarchied n) countProgram
        ((create (Mips.isa .mars) .little 16 n).setTarget 16#64 0#64).run (Mips.isa .mars)
          (.dummy _ AnyMemory) () 6) := by
  obtain ⟨n, hn⟩ : ∃ n, HierarchiedMemory.create 6#32 2#32 2#32 = .ok n := ⟨_, rfl⟩
  have hsize : size (AnyMemory.hierarchied n)
      = size (AnyMemory.plain (.create 6 PlainMemory.six_bits_lt fun _ => 0#8)) := by
    cases hn
    rfl
  have hinside : OnOk (fun m => RunInside (Mips.isa .mars) (.dummy _ AnyMemory) (fun _ _ _ => True)
      6 ((), (create (Mips.isa .mars) .little 1 m).setTarget 16#64 0#64))
      (FuncMemory.copyAll
        (AnyMemory.plain (.create 6 PlainMemory.six_bits_lt fun _ => 0#8)) countProgram) := by
    decide +kernel
  exact ⟨n, hn, (run_on_fresh (.plain _ _) (.hierarchied hn) hsize (Kernel.dummy_alike _ _ _)
    .little 1 16 countProgram 16#64 () 6 hinside).mono fun _ _ _ _ h => ⟨h.1, h.2.2.rf⟩⟩

end Example

end FuncSim

end MiptMips
