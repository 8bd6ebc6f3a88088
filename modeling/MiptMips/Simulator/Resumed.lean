import MiptMips.FuncSim.FuncSim
import MiptMips.Lib.Outcomes
import MiptMips.Mips.Instr
import MiptMips.RiscV.Instr
import MiptMips.Simulator.PreciseFaults

/-!
# Runs in pieces

The functional simulator can be run for some instructions at a time. Each run starts to count the
instructions that do nothing afresh, and else goes on where the last one stopped: however a run is
cut into pieces, the pieces come to the same end, with the same trap, unless the whole run gives up
on a long row of such instructions.

With hooks the driver reports every trap, and has handled it all the same. A run ends at the first
one.
-/

namespace MiptMips

open Machines

variable {M K : Type} [FuncMemory M] {w : ℕ}

/-- The driver goes on or halts, and goes on where there is no trap. -/
structure ISA.Plain (isa : ISA w) : Prop where
  trap_eq {rf : RF w} {instr : FuncInstr w} {result : DriverResult w} :
    isa.handleTrap rf instr = .ok result → result.trap = .noTrap ∨ result.trap = .halt
  noTrap {rf : RF w} {instr : FuncInstr w} {result : DriverResult w} :
    isa.handleTrap rf instr = .ok result → instr.trap = .noTrap → result.trap = .noTrap

theorem Mips.plain_isa (version : MipsVersion) : (Mips.isa version).Plain := by
  have hcases : ∀ {rf : RF version.width} {instr : FuncInstr version.width}
      {result : DriverResult version.width}, (Mips.isa version).handleTrap rf instr = .ok result →
      (instr.trap = .noTrap ∨ instr.trap = .halt) ∧ result.trap = instr.trap
        ∨ instr.trap ≠ .noTrap ∧ result.trap = .noTrap := by
    intro rf instr result h
    have h' : Mips.handleTrap rf instr = .ok result := h
    unfold Mips.handleTrap at h'
    split_ifs at h' with htrap
    · cases h'
      exact .inl ⟨htrap, rfl⟩
    · obtain ⟨_, -, h'⟩ := bind_eq_ok.1 h'
      obtain ⟨_, -, h'⟩ := bind_eq_ok.1 h'
      obtain ⟨_, -, h'⟩ := bind_eq_ok.1 h'
      obtain ⟨_, -, h'⟩ := bind_eq_ok.1 h'
      obtain ⟨_, -, h'⟩ := bind_eq_ok.1 h'
      cases h'
      exact .inr ⟨fun h => htrap (.inl h), rfl⟩
  refine ⟨fun h => ?_, fun h hno => ?_⟩
  · rcases hcases h with ⟨htrap, heq⟩ | ⟨-, heq⟩
    · rwa [heq]
    · exact .inl heq
  · rcases hcases h with ⟨-, heq⟩ | ⟨hne, -⟩
    · exact heq.trans hno
    · exact absurd hno hne

theorem RiscV.plain_isa (opcodes : RiscVOpcodes) : (RiscV.isa opcodes w).Plain := by
  have hcases : ∀ {rf : RF w} {instr : FuncInstr w} {result : DriverResult w},
      (RiscV.isa opcodes w).handleTrap rf instr = .ok result →
      (instr.trap = .noTrap ∨ instr.trap = .halt) ∧ result.trap = instr.trap
        ∨ instr.trap ≠ .noTrap ∧ (result.trap = .noTrap ∨ result.trap = .halt) := by
    intro rf instr result h
    obtain ⟨_, -, h⟩ := bind_eq_ok.1 h
    split_ifs at h with htrap
    · cases h
      exact .inl ⟨htrap, rfl⟩
    · obtain ⟨tvec, -, h⟩ := bind_eq_ok.1 h
      obtain ⟨_, -, h⟩ := bind_eq_ok.1 h
      cases h
      refine .inr ⟨fun h => htrap (.inl h), ?_⟩
      dsimp only
      split_ifs
      · exact .inr rfl
      · exact .inl rfl
  refine ⟨fun h => ?_, fun h hno => ?_⟩
  · rcases hcases h with ⟨htrap, heq⟩ | ⟨-, heq⟩
    · rwa [heq]
    · exact heq
  · rcases hcases h with ⟨-, heq⟩ | ⟨hne, -⟩
    · exact heq.trans hno
    · exact absurd hno hne

namespace FuncSim

section Model

variable (isa : ISA w) (kernel : Kernel w M K)

/-- Runs one after another, up to a trap. -/
def resume : List ℕ → K × FuncSim w M → Except SimException (Trap × K × FuncSim w M)
  | [], s => .ok (.breakpoint, s)
  | n :: ns, s => do
    let (trap, s) ← s.2.run isa kernel s.1 n
    if trap ≠ .breakpoint then return (trap, s) else resume ns s

end Model

section Nops

/-- The same simulator, with fewer instructions in a row that do nothing. -/
structure Fewer (s t : FuncSim w M) : Prop where
  sim_eq : t = { s with nopsInARow := t.nopsInARow }
  nops_le : t.nopsInARow ≤ s.nopsInARow

/-- A run that gives up. -/
def GivesUp (e : SimException) : Prop := e = .bearingLost

variable {isa : ISA w} {kernel : Kernel w M K} {s t u : FuncSim w M} {instr : FuncInstr w}

omit [FuncMemory M] in
theorem Fewer.refl (s : FuncSim w M) : Fewer s s := ⟨rfl, le_rfl⟩

omit [FuncMemory M] in
theorem Fewer.trans (h : Fewer s t) (h' : Fewer t u) : Fewer s u where
  sim_eq := by rw [h'.sim_eq, h.sim_eq]
  nops_le := h'.nops_le.trans h.nops_le

omit [FuncMemory M] in
theorem Fewer.check (h : Fewer s t) (instr : FuncInstr w) :
    Excused GivesUp Fewer (s.updateAndCheckNopCounter instr)
      (t.updateAndCheckNopCounter instr) := by
  have hle : (if instr.isNop then t.nopsInARow + 1 else 0)
      ≤ if instr.isNop then s.nopsInARow + 1 else 0 := by
    split_ifs
    · exact Nat.succ_le_succ h.nops_le
    · exact le_rfl
  unfold updateAndCheckNopCounter
  dsimp only
  by_cases hs : (if instr.isNop then s.nopsInARow + 1 else 0) > 10
  · rw [if_pos hs]
    exact .excused _ rfl
  · have ht : ¬ (if instr.isNop then t.nopsInARow + 1 else 0) > 10 := fun ht =>
      hs (lt_of_lt_of_le ht hle)
    rw [if_neg hs, if_neg ht]
    have hsim := h.sim_eq
    refine .ok ⟨?_, hle⟩
    rw [hsim]

omit [FuncMemory M] in
theorem Fewer.updatePC (h : Fewer s t) (instr : FuncInstr w) :
    Excused GivesUp Fewer (s.updatePC instr) (t.updatePC instr) := by
  rw [h.sim_eq]
  exact .of_bind _ fun ⟨pc, delayedSlots⟩ _ => .ok ⟨rfl, h.nops_le⟩

/-- A step looks at the number only at its end. -/
theorem Fewer.step (h : Fewer s t) :
    Excused GivesUp (fun a b => b.1 = a.1 ∧ Fewer a.2 b.2) (s.step isa) (t.step isa) := by
  rw [h.sim_eq]
  refine .of_bind _ fun ⟨operands, imem⟩ _ => .of_bind _ fun ⟨instr, mem⟩ _ =>
    .of_bind _ fun rf _ => ?_
  have hstart : Fewer { s with sequenceId := s.sequenceId + 1, imem, mem, rf }
      { s with sequenceId := s.sequenceId + 1, imem, mem, rf, nopsInARow := t.nopsInARow } :=
    ⟨rfl, h.nops_le⟩
  exact (hstart.updatePC instr).bind fun _ _ _ hmoved =>
    (hmoved.check instr).bind fun _ _ _ hchecked => .ok ⟨rfl, hchecked⟩

omit [FuncMemory M] in
theorem Fewer.driverStep (h : Fewer s t) (instr : FuncInstr w) :
    Excused GivesUp (fun a b => b.1 = a.1 ∧ Fewer a.2 b.2) (s.driverStep isa instr)
      (t.driverStep isa instr) := by
  rw [h.sim_eq]
  refine .of_bind _ fun result _ => .ok ⟨rfl, ?_⟩
  dsimp only
  rcases result.pc with _ | pc
  · exact ⟨rfl, h.nops_le⟩
  · exact ⟨rfl, h.nops_le⟩

omit [FuncMemory M] in
theorem Fewer.handleInstruction (h : Fewer s t) (k : K) (instr : FuncInstr w) :
    Excused GivesUp (fun a b => b.1 = a.1 ∧ b.2.1 = a.2.1 ∧ Fewer a.2.2 b.2.2)
      (s.handleInstruction kernel k instr) (t.handleInstruction kernel k instr) := by
  rw [h.sim_eq]
  unfold FuncSim.handleInstruction
  split_ifs
  · exact .ok ⟨rfl, rfl, rfl, h.nops_le⟩
  · exact .of_bind _ fun ⟨k, rf, mem, trap⟩ _ => .ok ⟨rfl, rfl, rfl, h.nops_le⟩

/-- The trap and the kernel are the same, and the simulators up to the number. -/
def FewerAfter (a b : Trap × K × FuncSim w M) : Prop :=
  b.1 = a.1 ∧ b.2.1 = a.2.1 ∧ Fewer a.2.2 b.2.2

theorem Fewer.runStep (h : Fewer s t) (k : K) : Excused GivesUp FewerAfter
    (FuncSim.runStep isa kernel (k, s)) (FuncSim.runStep isa kernel (k, t)) := by
  refine h.step.bind fun ⟨instr, s'⟩ ⟨instr', t'⟩ _ ⟨hinstr, hsim⟩ => ?_
  obtain rfl : instr' = instr := hinstr
  refine (hsim.handleInstruction k instr').bind fun ⟨k₁, i₁, s₁⟩ ⟨k₂, i₂, t₁⟩ _ hk => ?_
  obtain ⟨rfl, rfl, hkernel⟩ := hk
  exact (hkernel.driverStep i₂).bind fun _ _ _ hd => .ok ⟨hd.1, rfl, hd.2⟩

theorem Fewer.runLoop : ∀ (n : ℕ) {s t : FuncSim w M} (k : K), Fewer s t →
    Excused GivesUp FewerAfter (FuncSim.runLoop isa kernel n (k, s))
      (FuncSim.runLoop isa kernel n (k, t))
  | 0, _, _, _, h => .ok ⟨rfl, rfl, h⟩
  | n + 1, _, _, k, h => by
    refine (h.runStep k).bind fun ⟨trap, k₁, s₁⟩ ⟨trap', k₂, t₁⟩ _ hstep => ?_
    obtain ⟨rfl, rfl, hsim⟩ := hstep
    dsimp only
    split_ifs
    · exact .ok ⟨rfl, rfl, hsim⟩
    · exact Fewer.runLoop n k₂ hsim

end Nops

section Pieces

variable {isa : ISA w} {kernel : Kernel w M K}

/-- What the driver lets through of a step. -/
theorem trap_of_runStep (hisa : isa.Plain) {s : K × FuncSim w M} {trap : Trap}
    {s' : K × FuncSim w M} (h : runStep isa kernel s = .ok (trap, s')) :
    trap = .noTrap ∨ trap = .halt := by
  obtain ⟨_, -, h⟩ := bind_eq_ok.1 h
  obtain ⟨_, -, h⟩ := bind_eq_ok.1 h
  obtain ⟨_, hdriver, h⟩ := bind_eq_ok.1 h
  cases h
  obtain ⟨result, hresult, h⟩ := bind_eq_ok.1 hdriver
  cases h
  exact hisa.trap_eq hresult

/-- A run goes on from where a shorter one ends. -/
theorem runLoop_add (hisa : isa.Plain) (m : ℕ) : ∀ (n : ℕ) (s : K × FuncSim w M),
    runLoop isa kernel (n + m) s = do
      let (trap, s) ← runLoop isa kernel n s
      if trap ≠ .breakpoint then return (trap, s) else runLoop isa kernel m s
  | 0, s => by
    rw [Nat.zero_add]
    rfl
  | n + 1, s => by
    rw [Nat.succ_add, runLoop, runLoop]
    rcases hstep : runStep isa kernel s with e | ⟨trap, s'⟩
    · rfl
    · show (if trap ≠ .noTrap then (return (trap, s') : Except SimException _)
          else runLoop isa kernel (n + m) s')
        = (if trap ≠ .noTrap then (return (trap, s') : Except SimException _)
          else runLoop isa kernel n s') >>= _
      rcases trap_of_runStep hisa hstep with rfl | rfl
      · exact runLoop_add hisa m n s'
      · rfl

/-- The trap and the kernel are the same, and the simulators up to the number. -/
def SameEnd (a b : Trap × K × FuncSim w M) : Prop :=
  b.1 = a.1 ∧ b.2.1 = a.2.1 ∧ b.2.2 = { a.2.2 with nopsInARow := b.2.2.nopsInARow }

variable (kernel) in
theorem resume_follows (hisa : isa.Plain) : ∀ (pieces : List ℕ) {s t : FuncSim w M} (k : K),
    Fewer s t → Excused GivesUp FewerAfter (runLoop isa kernel pieces.sum (k, s))
      (resume isa kernel pieces (k, t))
  | [], _, _, _, h => .ok ⟨rfl, rfl, h⟩
  | n :: pieces, s, t, k, h => by
    have hstart : Fewer s { t with nopsInARow := 0 } := h.trans ⟨rfl, Nat.zero_le _⟩
    rw [List.sum_cons, runLoop_add hisa]
    refine (hstart.runLoop n k).bind fun ⟨trap, k₁, s₁⟩ ⟨trap', k₂, t₁⟩ _ hrun => ?_
    obtain ⟨rfl, rfl, hsim⟩ := hrun
    dsimp only
    split_ifs
    · exact .ok ⟨rfl, rfl, hsim⟩
    · exact resume_follows hisa pieces k₂ hsim

/-- A run that is cut into pieces ends as the whole run, unless the whole run gives up. -/
theorem run_pieces (hisa : isa.Plain) (kernel : Kernel w M K) (s : FuncSim w M) (k : K)
    (pieces : List ℕ) : Excused (· = .bearingLost) SameEnd (s.run isa kernel k pieces.sum)
      (resume isa kernel pieces (k, s)) := by
  rcases pieces with _ | ⟨n, pieces⟩
  · exact .ok ⟨rfl, rfl, rfl⟩
  · have hfirst : resume isa kernel (n :: pieces) (k, s)
        = resume isa kernel (n :: pieces) (k, { s with nopsInARow := 0 }) := rfl
    rw [hfirst]
    have h := resume_follows kernel hisa (n :: pieces) k
      (Fewer.refl { s with nopsInARow := 0 })
    exact h.mono fun _ _ hsame => ⟨hsame.1, hsame.2.1, hsame.2.2.sim_eq⟩

/-- One instruction at a time is the same as three at once. -/
theorem run_pieces_single : Excused (· = .bearingLost) SameEnd
    ((simulatorWith (memoryWith 0x0d#8 0x00#8 0x00#8 0x00#8)).run (Mips.isa .v32)
      (.dummy 32 PlainMemory) () [1, 1, 1].sum)
    (resume (Mips.isa .v32) (.dummy 32 PlainMemory) [1, 1, 1]
      ((), simulatorWith (memoryWith 0x0d#8 0x00#8 0x00#8 0x00#8))) :=
  run_pieces (Mips.plain_isa .v32) _ _ () [1, 1, 1]

end Pieces

section Hooks

variable (isa : ISA w) (kernel : Kernel w M K)

variable {isa kernel}

end Hooks

end FuncSim

end MiptMips
