import MiptMips.FuncSim.Isa
import MiptMips.Infra.InstrCache
import MiptMips.Lib.Machine
import MiptMips.Memory.Memory

/-!
# Instruction memory

Instructions are fetched from guest memory and decoded, with or without a cache of the decoded
ones. The cache is not told of writes to memory. It looks at the bytes again on every hit, and what
they no longer spell is thrown out and decoded anew. So a cache whose elements were all decoded
from their own addresses, whatever the bytes were, gives what the memory without a cache gives.
-/

namespace MiptMips

open Machines

variable {M : Type} [FuncMemory M] {w : ℕ}

section Model

variable (isa : ISA w) (endian : Endian) (mem : M)

def fetch (pc : Addr) : BitVec 32 := FuncMemory.read mem 32 endian pc

/-- `InstrMemory::fetch_instr`. -/
def fetchInstr (PC : Addr) : FuncInstr w := isa.createInstr (fetch endian mem PC) endian PC

abbrev DecodedCache (w : ℕ) := InstrCache Addr (FuncInstr w)

/-- `InstrMemoryCached`, with the capacity of its cache. -/
structure InstrMemoryCached (w : ℕ) where
  endian : Endian
  instrCache : DecodedCache w

namespace InstrMemoryCached

def create (w : ℕ) (endian : Endian) (capacity : ℕ) : InstrMemoryCached w where
  endian := endian
  instrCache := .create capacity 0#64 0#64 (allOnes 64)

variable (imem : InstrMemoryCached w)

/-- What a fetch does when the cache has nothing of use. -/
def fetchMiss (instrCache : DecodedCache w) (PC : Addr) : FuncInstr w × InstrMemoryCached w :=
  let instr := MiptMips.fetchInstr isa imem.endian mem PC
  (instr, { imem with instrCache := if PC ≠ 0#64 then instrCache.update PC instr else instrCache })

def fetchInstr (PC : Addr) : FuncInstr w × InstrMemoryCached w :=
  match imem.instrCache.find PC with
  | some value =>
    if value.isSameBytes (fetch imem.endian mem PC) then
      (value, { imem with instrCache := imem.instrCache.touch PC })
    else imem.fetchMiss isa mem (imem.instrCache.erase PC) PC
  | none => imem.fetchMiss isa mem imem.instrCache PC

end InstrMemoryCached

end Model

section Transparent

variable (isa : ISA w) {mem : M} {imem : InstrMemoryCached w}

/-- Every cached instruction was decoded from its own address. -/
def InstrMemoryCached.Coherent (imem : InstrMemoryCached w) : Prop :=
  imem.instrCache.Coherent fun PC instr => ∃ bytes, instr = isa.createInstr bytes imem.endian PC

theorem InstrMemoryCached.coherent_create (endian : Endian) (capacity : ℕ) :
    (create w endian capacity).Coherent isa := InstrCache.coherent_create _ _ _ _

variable {isa}

theorem fetchMiss_coherent {cache : DecodedCache w} (PC : Addr)
    (h : cache.Coherent fun PC instr => ∃ bytes, instr = isa.createInstr bytes imem.endian PC) :
    (imem.fetchMiss isa mem cache PC).2.Coherent isa := by
  unfold InstrMemoryCached.fetchMiss InstrMemoryCached.Coherent
  dsimp only
  split
  · exact h.update ⟨_, rfl⟩
  · exact h

theorem fetchInstr_coherent (h : imem.Coherent isa) (mem : M) (PC : Addr) :
    (imem.fetchInstr isa mem PC).2.Coherent isa := by
  unfold InstrMemoryCached.fetchInstr
  split
  case h_1 value hf =>
    split
    · have hp : ∃ index, imem.instrCache.pointers.find PC = some index := by
        unfold InstrCache.find at hf
        rcases hp : imem.instrCache.pointers.find PC with _ | index
        · simp [hp] at hf
        · exact ⟨index, rfl⟩
      obtain ⟨index, hp⟩ := hp
      exact InstrCache.Coherent.touch h hp
    · exact fetchMiss_coherent PC (InstrCache.Coherent.erase h PC)
  case h_2 => exact fetchMiss_coherent PC h

theorem endian_fetchInstr (mem : M) (PC : Addr) :
    (imem.fetchInstr isa mem PC).2.endian = imem.endian := by
  unfold InstrMemoryCached.fetchInstr
  split
  · split <;> rfl
  · rfl

/-- A coherent cache gives what decoding from memory gives. -/
theorem fetchInstr_eq (h : imem.Coherent isa) (mem : M) (PC : Addr) :
    (imem.fetchInstr isa mem PC).1 = fetchInstr isa imem.endian mem PC := by
  unfold InstrMemoryCached.fetchInstr
  split
  case h_1 value hf =>
    split
    case isTrue hb =>
      obtain ⟨bytes, rfl⟩ := InstrCache.Coherent.find_some h hf
      simp only [FuncInstr.isSameBytes, isa.raw_createInstr, beq_iff_eq] at hb
      rw [fetchInstr, hb]
    case isFalse => rfl
  case h_2 => rfl

end Transparent

section Interleaving

/-- What may happen to an instruction memory: a copy into guest memory, or a fetch. -/
inductive FetchEvent where
  | write (addr : Addr) (bytes : List Byte)
  | fetch (PC : Addr)

/-- A copy that throws leaves the memory as it was. -/
def writeBytes (mem : M) (addr : Addr) (bytes : List Byte) : M :=
  match FuncMemory.memcpyHostToGuest mem addr bytes with
  | .ok mem => mem
  | .error _ => mem

variable (isa : ISA w) (endian : Endian)

/-- The memory without a cache: the state is guest memory alone. -/
def uncached : Machine M FetchEvent (Option (FuncInstr w)) where
  step mem
    | .write addr bytes => (writeBytes mem addr bytes, none)
    | .fetch PC => (mem, some (fetchInstr isa endian mem PC))

def cached : Machine (M × InstrMemoryCached w) FetchEvent (Option (FuncInstr w)) where
  step s
    | .write addr bytes => ((writeBytes s.1 addr bytes, s.2), none)
    | .fetch PC =>
      let (instr, imem) := s.2.fetchInstr isa s.1 PC
      ((s.1, imem), some instr)

theorem cached_simulates : Machine.Simulates (cached isa) (uncached isa endian : Machine M FetchEvent _)
    (fun s mem => s.1 = mem ∧ s.2.endian = endian ∧ s.2.Coherent isa)
    (· = ·) where
  next := by
    rintro ⟨mem, imem⟩ _ (⟨addr, bytes⟩ | PC) ⟨rfl, he, hc⟩
    · exact ⟨rfl, he, hc⟩
    · exact ⟨rfl, (endian_fetchInstr _ _).trans he, fetchInstr_coherent hc _ _⟩
  out := by
    rintro ⟨mem, imem⟩ _ (⟨addr, bytes⟩ | PC) ⟨rfl, he, hc⟩
    · rfl
    · have h := fetchInstr_eq hc mem PC
      rw [he] at h
      exact congrArg some h

/-- In every interleaving of writes and fetches, every fetch through the cache gives the instruction
that the memory without a cache gives at that moment. The address of all ones is never found in
the map, and so it is always decoded anew. -/
theorem cached_outputs_eq (mem : M) (capacity : ℕ) (events : List FetchEvent) :
    (cached isa).outputs (mem, .create w endian capacity) events
      = (uncached isa endian).outputs mem events := by
  have h := (cached_simulates isa endian).outputs events (s := (mem, .create w endian capacity))
    ⟨rfl, rfl, InstrMemoryCached.coherent_create isa endian capacity⟩
  rwa [List.forall₂_eq_eq_eq] at h

end Interleaving

end MiptMips
