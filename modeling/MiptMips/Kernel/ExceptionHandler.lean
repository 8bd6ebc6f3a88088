import MiptMips.Memory.ElfLoader
import MiptMips.Memory.FlatMemory
import MiptMips.Mips.ExceptionReturn
import MiptMips.Simulator.TrapCause

/-!
# The handler of exceptions

The kernel loads a handler where the driver of the simulator sends traps to: the text of its binary
is moved there from wherever it was linked. On MIPS the place is fixed; on RISC-V it is what the
vector register says, which the kernel sets. A trap other than a halt goes on there, whatever the
width of the registers.
-/

namespace MiptMips

open Machines Throwing FuncMemory LawfulFuncMemory

inductive HandlerFault where
  | elf (e : ElfFault)
  | simulator (e : SimException)
  | unsupportedISA (isa : String)
  deriving DecidableEq, Repr

/-- The registers and the memory that the kernel works on. -/
structure HandlerState (w : ℕ) (M : Type) where
  rf : RF w
  mem : M

namespace ExceptionHandler

variable {w : ℕ} {M : Type} [FuncMemory M]

section Model

abbrev Action (w : ℕ) (M α : Type) := Throwing HandlerFault (HandlerState w M) α

variable (opcodes : RiscVOpcodes) (load : String → Option (List ElfSection))

/-- `TRAP_VECTOR`. -/
def riscvVector : Addr := 0x80000000#64

def loader (filename : String) : Action w M ElfLoader :=
  match ElfLoader.create load filename with
  | .ok loader => return loader
  | .error e => throw (.elf e)

def loadTo (loader : ElfLoader) (offset : BitVec 64) : Action w M PUnit :=
  ExceptT.mk do
    let s ← get
    let (outcome, mem) := (loader.loadTo offset).run.run s.mem
    set { s with mem := mem }
    return outcome.mapError .elf

def writeCsrRegister (name : String) (value : BitVec 64) : Action w M PUnit := do
  let s ← get
  match RiscV.writeCsrRegister opcodes s.rf name value with
  | .ok rf => set { s with rf := rf }
  | .error e => throw (.simulator e)

def connectRiscvHandler : Action w M PUnit := do
  writeCsrRegister opcodes "stvec" riscvVector
  let pc := trapVectorAddress riscvVector
  let elfLoader ← loader load "riscv32.bin"
  loadTo elfLoader (pc - elfLoader.getTextSectionAddr)

def connectMarsHandler : Action w M PUnit := do
  let elfLoader ← loader load "mars32_le.bin"
  loadTo elfLoader (0x800000180#64 - elfLoader.getTextSectionAddr)

def isMipsLe (isa : String) : Bool :=
  ["mars", "mars64", "mips32le", "mips32", "mips64", "mips64le"].contains isa

def connectExceptionHandler (isa : String) : Action w M PUnit :=
  if isa = "riscv32" || isa = "riscv64" then connectRiscvHandler opcodes load
  else if isMipsLe isa then connectMarsHandler load
  else throw (.unsupportedISA isa)

end Model

section Enters

variable (isa : ISA w)

/-- A trap takes the simulator to the place where the text of the handler is, and the run goes on
there. -/
def Enters (s : FuncSim w M) (place : Addr) (mem : M) (text : List Byte) : Prop :=
  (∀ instr : FuncInstr w, instr.trap ≠ .noTrap → instr.trap ≠ .halt → ∃ t,
    s.driverStep isa instr = .ok (.noTrap, t) ∧ t.getPC = place)
    ∧ ∀ i < text.length, byteAt mem (place.offset i) = text.getD i 0#8

end Enters

section Load

variable {load : String → Option (List ElfSection)} {s t : HandlerState w M}

theorem run_loadTo (elfLoader : ElfLoader) (offset : BitVec 64) :
    (loadTo elfLoader offset : Action w M PUnit).run.run s
      = (((elfLoader.loadTo offset).run.run s.mem).1.mapError .elf,
        { s with mem := ((elfLoader.loadTo offset).run.run s.mem).2 }) := rfl

variable [LawfulFuncMemory M]

/-- The memory has the image of the binary, with its text at the place. -/
structure Loaded (load : String → Option (List ElfSection)) (filename : String) (place : Addr)
    (s t : HandlerState w M) : Prop where
  rf_eq : t.rf = s.rf
  image : ∃ sections, load filename = some sections
    ∧ (∀ s' ∈ (ElfLoader.mk sections).allocated,
      s'.Loadable (place - (ElfLoader.mk sections).getTextSectionAddr) s.mem)
    ∧ Overlaid (imageByte (place - (ElfLoader.mk sections).getTextSectionAddr)
      (ElfLoader.mk sections).allocated) s.mem t.mem

theorem loaded_of_run {filename : String} {place : Addr}
    (h : (do
      let elfLoader ← loader load filename
      loadTo elfLoader (place - elfLoader.getTextSectionAddr) : Action w M PUnit).run.run s
      = (.ok ⟨⟩, t)) : Loaded load filename place s t := by
  obtain ⟨elfLoader, u, hloader, hload⟩ := exists_of_run_bind h
  unfold loader ElfLoader.create at hloader
  rcases hsections : load filename with _ | sections <;> rw [hsections] at hloader
  · cases hloader
  · cases hloader
    rw [run_loadTo] at hload
    generalize hrun : ((ElfLoader.mk sections).loadTo _).run.run s.mem = outcome at hload
    obtain ⟨_ | ⟨⟩, mem⟩ := outcome
    · cases hload
    · cases hload
      exact ⟨rfl, sections, hsections, ElfLoader.loadable_of_run hrun,
        ElfLoader.loadTo_overlaid hrun⟩

variable (load) in
/-- A handler is loaded when there is room for it. -/
theorem run_handler (filename : String) (place : Addr) {sections : List ElfSection}
    (hsections : load filename = some sections) (h : ∀ s' ∈ (ElfLoader.mk sections).allocated,
      s'.Loadable (place - (ElfLoader.mk sections).getTextSectionAddr) s.mem) :
    ∃ mem, (do
      let elfLoader ← loader load filename
      loadTo elfLoader (place - elfLoader.getTextSectionAddr) : Action w M PUnit).run.run s
      = (.ok ⟨⟩, { s with mem := mem }) := by
  obtain ⟨mem, hrun, -⟩ := ElfLoader.forM_overlaid _ h
  have hloader : (loader load filename : Action w M ElfLoader).run.run s = (.ok ⟨sections⟩, s) := by
    unfold loader ElfLoader.create
    rw [hsections]
    rfl
  refine ⟨mem, ?_⟩
  have hload : ((ElfLoader.mk sections).loadTo
      (place - (ElfLoader.mk sections).getTextSectionAddr)).run.run s.mem = (.ok ⟨⟩, mem) := hrun
  rw [run_bind_ok hloader, run_loadTo, hload]
  rfl

/-- The bytes of the text are at the place: there was room for all of them. -/
theorem Loaded.byteAt_text {filename : String} {place : Addr} (h : Loaded load filename place s t)
    {text : ElfSection} {data : List Byte} (hdata : text.data = some data)
    (htext : ∀ sections, load filename = some sections →
      (ElfLoader.mk sections).HasText (place - text.address) text) {i : ℕ} (hi : i < data.length) :
    byteAt t.mem (place.offset i) = data.getD i 0#8 := by
  obtain ⟨sections, hsections, hloadable, himage⟩ := h.image
  have hhas := htext sections hsections
  rw [hhas.textAddr_eq] at hloadable himage
  obtain ⟨before, after, hallocated, -⟩ := hhas.last
  have hlen := text.length_data data hdata
  have hplace : text.address + (place - text.address) = place := by
    rw [BitVec.add_comm, BitVec.sub_add_cancel]
  have hroom : place.toNat + text.size ≤ size s.mem := by
    have hfits := (hloadable text (by rw [hallocated]; simp)).fits
    rwa [ElfSection.Fits, hdata, hplace] at hfits
  have hin : (place.offset i).toNat < size s.mem := by
    have hsize := size_le s.mem
    rw [FuncMemory.toNat_offset (by omega)]
    omega
  rw [himage.byteAt_eq _ hin, hhas.imageByte_eq (ElfLoader.byteAt_moved hdata (hlen ▸ hi))]
  rfl

end Load

section RiscV

variable {opcodes : RiscVOpcodes} {load : String → Option (List ElfSection)}

/-- The registers of traps are there. -/
def HasTrapRegisters (opcodes : RiscVOpcodes) : Prop :=
  ∀ name ∈ ["stvec", "scause", "sepc"], name ∈ opcodes.csrs.map (·.1)

instance : Decidable (HasTrapRegisters opcodes) :=
  inferInstanceAs (Decidable (∀ name ∈ ["stvec", "scause", "sepc"], _))

theorem valid_fromCsrName {rf : RF w} (hmax : rf.maxReg = RiscVRegister.maxReg opcodes)
    {name : String} (h : name ∈ opcodes.csrs.map (·.1)) :
    rf.Valid (RiscVRegister.fromCsrName opcodes name) := by
  refine RF.valid_of_maxReg hmax ?_
  have hlt : opcodes.csrs.findIdx (·.1 == name) < opcodes.csrs.length := by
    rw [List.findIdx_lt_length]
    obtain ⟨csr, hmem, rfl⟩ := List.mem_map.1 h
    exact ⟨csr, hmem, by simp⟩
  exact Nat.add_lt_add_left hlt 32

def stvec (opcodes : RiscVOpcodes) : Register := RiscVRegister.fromCsrName opcodes "stvec"

theorem readCsrRegister_ok {rf : RF w} {name : String}
    (h : rf.Valid (RiscVRegister.fromCsrName opcodes name)) :
    RiscV.readCsrRegister opcodes rf name
      = .ok ((rf.get (RiscVRegister.fromCsrName opcodes name)).setWidth 64) := by
  unfold RiscV.readCsrRegister
  rw [RF.read_ok h]
  rfl

theorem writeCsrRegister_ok {rf : RF w} {name : String} {value : BitVec 64}
    (h : rf.Valid (RiscVRegister.fromCsrName opcodes name)) :
    RiscV.writeCsrRegister opcodes rf name value
      = .ok (rf.set (RiscVRegister.fromCsrName opcodes name) (value.setWidth w)) :=
  RF.write_ok h (RiscVRegister.isZero_fromCsrName opcodes name)

/-- The registers after a trap. -/
def enterTrap (opcodes : RiscVOpcodes) (rf : RF w) (instr : FuncInstr w) : RF w :=
  (rf.set (RiscVRegister.fromCsrName opcodes "scause")
    (((instr.trap.toRiscvFormat opcodes.causes).setWidth 64).setWidth w)).set
      (RiscVRegister.fromCsrName opcodes "sepc") (instr.PC.setWidth w)

/-- Where the driver sends a trap to. -/
theorem handleTrap_vector (hregs : HasTrapRegisters opcodes) {rf : RF w}
    (hmax : rf.maxReg = RiscVRegister.maxReg opcodes) {instr : FuncInstr w}
    (htrap : instr.trap ≠ .noTrap) (hhalt : instr.trap ≠ .halt) :
    RiscV.handleTrap opcodes rf instr = .ok ⟨enterTrap opcodes rf instr,
      some (trapVectorAddress ((rf.get (stvec opcodes)).setWidth 64)),
      if (rf.get (stvec opcodes)).setWidth 64 = 0#64 then .halt else .noTrap⟩ := by
  have hvalid : ∀ rf' : RF w, rf'.maxReg = rf.maxReg → ∀ name ∈ ["stvec", "scause", "sepc"],
      rf'.Valid (RiscVRegister.fromCsrName opcodes name) := fun rf' hrf name hname =>
    valid_fromCsrName (hrf.trans hmax) (hregs name hname)
  have hne : (stvec opcodes).toRfIndex ≠ (RiscVRegister.fromCsrName opcodes "scause").toRfIndex :=
    RiscV.fromCsrName_ne (hregs "stvec" (by simp)) (by decide)
  have hget : ∀ value, (rf.set (RiscVRegister.fromCsrName opcodes "scause") value).get
      (stvec opcodes) = rf.get (stvec opcodes) := fun value => by
    rw [RF.get_set, if_neg hne]
  unfold RiscV.handleTrap
  rw [bind_eq_ok]
  refine ⟨_, writeCsrRegister_ok (hvalid rf rfl "scause" (by simp)), ?_⟩
  rw [if_neg (by simp [htrap, hhalt]), bind_eq_ok]
  refine ⟨_, readCsrRegister_ok (hvalid _ rfl "stvec" (by simp)), ?_⟩
  rw [← stvec, hget, bind_eq_ok]
  exact ⟨_, writeCsrRegister_ok (hvalid _ rfl "sepc" (by simp)), rfl⟩

omit [FuncMemory M] in
theorem driverStep_trap (hregs : HasTrapRegisters opcodes) {s : FuncSim w M}
    (hmax : s.rf.maxReg = RiscVRegister.maxReg opcodes) {instr : FuncInstr w}
    (htrap : instr.trap ≠ .noTrap) (hhalt : instr.trap ≠ .halt) : ∃ t,
    s.driverStep (RiscV.isa opcodes w) instr
        = .ok (if (s.rf.get (stvec opcodes)).setWidth 64 = 0#64 then .halt else .noTrap, t)
      ∧ t.getPC = trapVectorAddress ((s.rf.get (stvec opcodes)).setWidth 64) := by
  have hdriver : (RiscV.isa opcodes w).handleTrap s.rf instr = _ :=
    handleTrap_vector hregs hmax htrap hhalt
  unfold FuncSim.driverStep
  rw [hdriver]
  exact ⟨_, rfl, rfl⟩

/-- What the kernel leaves when it connects the handler: the vector in its register. -/
theorem connected_of_run [LawfulFuncMemory M] {s t : HandlerState w M} {isa : String}
    (hisa : isa = "riscv32" ∨ isa = "riscv64")
    (h : (connectExceptionHandler opcodes load isa : Action w M PUnit).run.run s = (.ok ⟨⟩, t)) :
    t.rf.get (stvec opcodes) = riscvVector.setWidth w
      ∧ Loaded load "riscv32.bin" (trapVectorAddress riscvVector) { s with rf := t.rf } t := by
  have hriscv : (connectExceptionHandler opcodes load isa : Action w M PUnit)
      = connectRiscvHandler opcodes load := by
    rw [connectExceptionHandler, if_pos (by simpa using hisa)]
  rw [hriscv] at h
  obtain ⟨⟨⟩, u, hwrite, hload⟩ := exists_of_run_bind h
  have hloaded := loaded_of_run hload
  have hset : u = { s with rf := s.rf.set (stvec opcodes) (riscvVector.setWidth w) } := by
    have hbody : (match RiscV.writeCsrRegister opcodes s.rf "stvec" riscvVector with
      | .ok rf => (set { s with rf := rf } : Action w M PUnit)
      | .error e => throw (HandlerFault.simulator e)).run.run s = (.ok ⟨⟩, u) := hwrite
    rcases hw : RiscV.writeCsrRegister opcodes s.rf "stvec" riscvVector with e | rf <;>
      rw [hw] at hbody <;> cases hbody
    rw [RF.eq_set_of_write (RiscVRegister.isZero_fromCsrName opcodes "stvec") hw, stvec]
  subst hset
  refine ⟨?_, rfl, hloaded.image⟩
  rw [hloaded.rf_eq, RF.get_set, if_pos rfl]

/-- On RISC-V a trap enters the handler, with registers of both widths. -/
theorem riscv_trap_enters [LawfulFuncMemory M] (hw : w = 32 ∨ w = 64)
    (hregs : HasTrapRegisters opcodes) {isa : String} (hisa : isa = "riscv32" ∨ isa = "riscv64")
    {s t : HandlerState w M}
    (hrun : (connectExceptionHandler opcodes load isa : Action w M PUnit).run.run s = (.ok ⟨⟩, t))
    {sim : FuncSim w M} (hmax : sim.rf.maxReg = RiscVRegister.maxReg opcodes)
    (hvector : sim.rf.get (stvec opcodes) = t.rf.get (stvec opcodes))
    {text : ElfSection} {data : List Byte} (hdata : text.data = some data)
    (htext : ∀ sections, load "riscv32.bin" = some sections → (ElfLoader.mk sections).HasText
      (trapVectorAddress riscvVector - text.address) text) :
    Enters (RiscV.isa opcodes w) sim (trapVectorAddress riscvVector) t.mem data := by
  obtain ⟨hstvec, hloaded⟩ := connected_of_run hisa hrun
  have hplace : (sim.rf.get (stvec opcodes)).setWidth 64 = riscvVector := by
    rw [hvector, hstvec]
    rcases hw with rfl | rfl <;> rfl
  refine ⟨fun instr htrap hhalt => ?_, fun i hi => hloaded.byteAt_text hdata htext hi⟩
  obtain ⟨u, hstep, hpc⟩ := driverStep_trap hregs hmax htrap hhalt
  rw [hplace] at hstep hpc
  exact ⟨u, hstep, hpc⟩

end RiscV

section Mips

variable {opcodes : RiscVOpcodes} {load : String → Option (List ElfSection)}

/-- On MIPS a trap enters the handler, whatever the registers hold. -/
theorem mips_trap_enters [LawfulFuncMemory M] {version : MipsVersion} {isa : String}
    (hisa : isMipsLe isa) {s t : HandlerState version.width M}
    (hrun : (connectExceptionHandler opcodes load isa : Action version.width M PUnit).run.run s
      = (.ok ⟨⟩, t))
    {sim : FuncSim version.width M} (hmax : sim.rf.maxReg = MipsRegister.maxReg)
    {text : ElfSection} {data : List Byte} (hdata : text.data = some data)
    (htext : ∀ sections, load "mars32_le.bin" = some sections → (ElfLoader.mk sections).HasText
      (Mips.trapVector - text.address) text) :
    Enters (Mips.isa version) sim Mips.trapVector t.mem data := by
  have hnot : ¬ (isa = "riscv32" || isa = "riscv64") := fun h => by
    rcases (by simpa using h : isa = "riscv32" ∨ isa = "riscv64") with rfl | rfl <;>
      exact absurd hisa (by decide)
  rw [connectExceptionHandler, if_neg hnot, if_pos hisa] at hrun
  have hloaded : Loaded load "mars32_le.bin" Mips.trapVector s t := loaded_of_run hrun
  refine ⟨fun instr htrap hhalt => ?_, fun i hi => hloaded.byteAt_text hdata htext hi⟩
  have hdriver : (Mips.isa version).handleTrap sim.rf instr = _ :=
    Mips.handleTrap_eq hmax htrap hhalt
  unfold FuncSim.driverStep
  rw [hdriver]
  exact ⟨_, rfl, rfl⟩

end Mips

section Small

theorem smallText_size : 4 < 2 ^ 64 := by decide

theorem smallText_length (bytes : List Byte)
    (h : bytes ∈ some [0x73#8, 0x00#8, 0x20#8, 0x10#8]) : bytes.length = 4 := by
  cases h
  rfl

/-- A handler of one instruction, linked at the address 8. -/
def smallText : ElfSection where
  name := ".text"
  flags := 6#64
  address := 8#64
  size := 4
  data := some [0x73#8, 0x00#8, 0x20#8, 0x10#8]
  size_lt := smallText_size
  length_data := smallText_length

theorem allocated_small : (ElfLoader.mk [smallText]).allocated = [smallText] := rfl

theorem hasText_small (offset : BitVec 64) : (ElfLoader.mk [smallText]).HasText offset smallText :=
  ⟨rfl, [], [], allocated_small, nofun⟩

theorem loadable_small {M : Type} [FuncMemory M] [LawfulFuncMemory M] {m : M} {place : Addr}
    (h : place.toNat + 4 ≤ size m) :
    ∀ s ∈ (ElfLoader.mk [smallText]).allocated,
      s.Loadable (place - (ElfLoader.mk [smallText]).getTextSectionAddr) m := by
  rw [allocated_small]
  intro s hs
  obtain rfl := List.mem_singleton.1 hs
  have hplace : smallText.address + (place - (ElfLoader.mk [smallText]).getTextSectionAddr)
      = place := by
    show 8#64 + (place - 8#64) = place
    rw [BitVec.add_comm, BitVec.sub_add_cancel]
  refine ⟨by decide, ?_⟩
  show (smallText.address + _).toNat + 4 ≤ size m
  rwa [hplace]

/-- A memory of 36 address bits, as the simulators have it. -/
theorem exists_memory : ∃ m : HierarchiedMemory, size m = 2 ^ 36 := by
  have hcreate : ∃ m, HierarchiedMemory.create 36#32 17#32 17#32 = .ok m := ⟨_, rfl⟩
  obtain ⟨m, hm⟩ := hcreate
  exact ⟨m, (HierarchiedMemory.sameBytes_create hm (by decide)).size_eq⟩

/-- Registers of 32 bits: the driver shifts the vector to the right by two places. -/
theorem riscv_trap_enters_small : ∃ (s t : HandlerState 32 HierarchiedMemory)
    (sim : FuncSim 32 HierarchiedMemory),
    (connectExceptionHandler RiscV.trapOpcodes (fun _ => some [smallText]) "riscv32").run.run s
        = (.ok ⟨⟩, t)
      ∧ Enters (RiscV.isa RiscV.trapOpcodes 32) sim 0x20000000#64 t.mem
        [0x73#8, 0x00#8, 0x20#8, 0x10#8] := by
  obtain ⟨m, hm⟩ := exists_memory
  let rf : RF 32 := (RF.zeroed 32 (RiscVRegister.maxReg RiscV.trapOpcodes)).set
    (stvec RiscV.trapOpcodes) (riscvVector.setWidth 32)
  obtain ⟨mem, hload⟩ := run_handler (fun _ => some [smallText]) "riscv32.bin"
    (trapVectorAddress riscvVector) (s := ⟨rf, m⟩) rfl
    (loadable_small (by rw [hm]; decide))
  have hrun : (connectExceptionHandler RiscV.trapOpcodes (fun _ => some [smallText])
      "riscv32" : Action 32 HierarchiedMemory PUnit).run.run
      ⟨RF.zeroed 32 (RiscVRegister.maxReg RiscV.trapOpcodes), m⟩ = (.ok ⟨⟩, ⟨rf, mem⟩) := hload
  have h : Enters (RiscV.isa RiscV.trapOpcodes 32)
      { FuncSim.create (RiscV.isa RiscV.trapOpcodes 32) .little 16 mem with rf := rf }
      (trapVectorAddress riscvVector) mem [0x73#8, 0x00#8, 0x20#8, 0x10#8] :=
    riscv_trap_enters (w := 32) (.inl rfl) (by decide) (.inl rfl) hrun rfl rfl
      (show smallText.data = some _ from rfl) fun _ hs => Option.some.inj hs ▸ hasText_small _
  have hplace : trapVectorAddress riscvVector = 0x20000000#64 := by decide
  rw [hplace] at h
  exact ⟨_, _, _, hrun, h⟩

theorem mips_trap_enters_small : ∃ (s t : HandlerState 32 HierarchiedMemory)
    (sim : FuncSim 32 HierarchiedMemory),
    (connectExceptionHandler RiscV.trapOpcodes (fun _ => some [smallText]) "mars").run.run s
        = (.ok ⟨⟩, t)
      ∧ Enters (Mips.isa .mars) sim Mips.trapVector t.mem [0x73#8, 0x00#8, 0x20#8, 0x10#8] := by
  obtain ⟨m, hm⟩ := exists_memory
  obtain ⟨mem, hload⟩ := run_handler (fun _ => some [smallText]) "mars32_le.bin" Mips.trapVector
    (s := ⟨RF.zeroed 32 MipsRegister.maxReg, m⟩) rfl (loadable_small (by rw [hm]; decide))
  have hrun : (connectExceptionHandler RiscV.trapOpcodes (fun _ => some [smallText])
      "mars" : Action 32 HierarchiedMemory PUnit).run.run ⟨RF.zeroed 32 MipsRegister.maxReg, m⟩
      = (.ok ⟨⟩, ⟨RF.zeroed 32 MipsRegister.maxReg, mem⟩) := hload
  have h := @mips_trap_enters _ _ _ _ _ .mars _ (show isMipsLe "mars" from by decide) _ _ hrun
    (FuncSim.create (Mips.isa .mars) .little 16 mem) rfl smallText _ rfl
    fun _ hs => Option.some.inj hs ▸ hasText_small _
  exact ⟨_, _, _, hrun, h⟩

end Small

end ExceptionHandler

end MiptMips
