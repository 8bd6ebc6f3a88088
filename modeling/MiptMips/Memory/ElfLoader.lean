import MiptMips.Lib.Throwing
import MiptMips.Memory.Memory

/-!
# The loader of binaries

The sections that a binary allocates are copied to the memory one after another, each at its address
moved by an offset; a section without data is filled with zeroes, byte by byte. So a byte of the
memory is the one of the last section over it. How a file is taken apart into sections is a
parameter.
-/

namespace MiptMips

open Machines Throwing FuncMemory LawfulFuncMemory

structure ElfSection where
  name : String
  flags : BitVec 64
  address : Addr
  size : ℕ
  /-- A section that takes no room in the file has none. -/
  data : Option (List Byte)
  size_lt : size < 2 ^ 64
  length_data : ∀ bytes ∈ data, bytes.length = size

inductive ElfFault where
  | invalidElfFile (name : String)
  | invalidElfSection (name : String)
  | memory (e : SimException)
  deriving DecidableEq, Repr

structure ElfLoader where
  sections : List ElfSection

namespace ElfLoader

section Model

def create (load : String → Option (List ElfSection)) (filename : String) :
    Except ElfFault ElfLoader :=
  match load filename with
  | some sections => .ok ⟨sections⟩
  | none => .error (.invalidElfFile filename)

def shfAlloc : BitVec 64 := 0x2#64

abbrev Action (M α : Type) := Throwing ElfFault M α

variable {M : Type} [FuncMemory M]

def memcpyHostToGuest (dst : Addr) (src : List Byte) : Action M PUnit := do
  let m ← get
  match FuncMemory.memcpyHostToGuest m dst src with
  | .ok m => set m
  | .error e => throw (.memory e)

def memset (addr : Addr) (value : Byte) (size : ℕ) : Action M PUnit :=
  (List.range size).forM fun i => memcpyHostToGuest (addr.offset i) [value]

def loadElfSection (s : ElfSection) (offset : BitVec 64) : Action M PUnit :=
  if s.address = 0#64 then throw (.invalidElfSection ("\"" ++ s.name ++ "\""))
  else
    match s.data with
    | none => memset (s.address + offset) 0#8 s.size
    | some data => memcpyHostToGuest (s.address + offset) data

variable (loader : ElfLoader)

/-- The sections that are copied. -/
def allocated : List ElfSection := loader.sections.filter fun s => s.flags &&& shfAlloc ≠ 0#64

def loadTo (offset : BitVec 64) : Action M PUnit :=
  loader.allocated.forM fun s => loadElfSection s offset

def getTextSectionAddr : Addr :=
  match loader.sections.find? fun s => s.name = ".text" with
  | some text => text.address
  | none => 0#64

end Model

end ElfLoader

section Image

/-- The byte that a section puts at an address. -/
def ElfSection.byteAt (s : ElfSection) (offset : BitVec 64) (x : Addr) : Option Byte :=
  let index := (x - (s.address + offset)).toNat
  if index < s.size then
    some (match s.data with
      | none => 0#8
      | some data => data.getD index 0#8)
  else none

/-- The byte that the last section over an address puts there. -/
def imageByte (offset : BitVec 64) : List ElfSection → Addr → Option Byte
  | [], _ => none
  | s :: sections, x => (imageByte offset sections x).or (s.byteAt offset x)

variable {M : Type} [FuncMemory M] [LawfulFuncMemory M]

/-- There is room for a section at its place. -/
def ElfSection.Fits (s : ElfSection) (offset : BitVec 64) (m : M) : Prop :=
  match s.data with
  | none => ∀ i < s.size, ((s.address + offset).offset i).toNat < LawfulFuncMemory.size m
  | some _ => (s.address + offset).toNat + s.size ≤ LawfulFuncMemory.size m

structure ElfSection.Loadable (s : ElfSection) (offset : BitVec 64) (m : M) : Prop where
  address_ne : s.address ≠ 0#64
  fits : s.Fits offset m

/-- A memory in which some bytes were written. -/
structure Overlaid (bytes : Addr → Option Byte) (m m' : M) : Prop where
  size_eq : size m' = size m
  byteAt_eq (x : Addr) : x.toNat < size m → byteAt m' x = (bytes x).getD (byteAt m x)

variable {m m' m'' : M} {bytes bytes' : Addr → Option Byte}

theorem Overlaid.refl (m : M) : Overlaid (fun _ => none) m m := ⟨rfl, fun _ _ => rfl⟩

theorem Overlaid.trans (h : Overlaid bytes m m') (h' : Overlaid bytes' m' m'') :
    Overlaid (fun x => (bytes' x).or (bytes x)) m m'' where
  size_eq := h'.size_eq.trans h.size_eq
  byteAt_eq x hx := by
    rw [h'.byteAt_eq x (h.size_eq ▸ hx), h.byteAt_eq x hx]
    rcases bytes' x <;> rfl

theorem Overlaid.congr (h : Overlaid bytes m m')
    (heq : ∀ x, x.toNat < size m → bytes x = bytes' x) : Overlaid bytes' m m' where
  size_eq := h.size_eq
  byteAt_eq x hx := by rw [h.byteAt_eq x hx, heq x hx]

end Image

namespace ElfLoader

variable {M : Type} [FuncMemory M] [LawfulFuncMemory M] {m : M} {addr : Addr}

section Copies

omit [LawfulFuncMemory M] in
theorem run_memcpyHostToGuest_ok {data : List Byte} {m' : M}
    (h : FuncMemory.memcpyHostToGuest m addr data = .ok m') :
    (memcpyHostToGuest addr data : Action M PUnit).run.run m = (.ok ⟨⟩, m') := by
  show (match FuncMemory.memcpyHostToGuest m addr data with
    | .ok m => (set m : Action M PUnit)
    | .error e => throw (ElfFault.memory e)).run.run m = _
  rw [h]
  rfl

omit [LawfulFuncMemory M] in
theorem run_memcpyHostToGuest_error {data : List Byte} {e : SimException}
    (h : FuncMemory.memcpyHostToGuest m addr data = .error e) :
    (memcpyHostToGuest addr data : Action M PUnit).run.run m = (.error (.memory e), m) := by
  show (match FuncMemory.memcpyHostToGuest m addr data with
    | .ok m => (set m : Action M PUnit)
    | .error e => throw (ElfFault.memory e)).run.run m = _
  rw [h]
  rfl

/-- A difference of addresses is a distance. -/
theorem lt_sub_iff {x : Addr} {n : ℕ} (h : addr.toNat + n ≤ 2 ^ 64) :
    (x - addr).toNat < n ↔ addr.toNat ≤ x.toNat ∧ x.toNat < addr.toNat + n := by
  rw [BitVec.toNat_sub]
  omega

theorem memcpy_overlaid {data : List Byte} (h : addr.toNat + data.length ≤ size m) :
    ∃ m', (memcpyHostToGuest addr data : Action M PUnit).run.run m = (.ok ⟨⟩, m') ∧ Overlaid (fun x =>
      if (x - addr).toNat < data.length then some (data.getD (x - addr).toNat 0#8) else none)
      m m' := by
  obtain ⟨m', hm, hs, -, hb⟩ := host_to_guest h
  refine ⟨m', run_memcpyHostToGuest_ok hm, hs, fun x hx => ?_⟩
  have hdist : (x - addr).toNat < data.length
      ↔ addr.toNat ≤ x.toNat ∧ x.toNat < addr.toNat + data.length :=
    lt_sub_iff (h.trans (size_le m))
  rw [hb, canon_of_lt hx]
  by_cases hin : (x - addr).toNat < data.length
  · have hindex : (x - addr).toNat = x.toNat - addr.toNat := by
      have hle := (hdist.1 hin).1
      rw [BitVec.toNat_sub]
      omega
    rw [if_pos (hdist.1 hin), if_pos hin, hindex]
    rfl
  · rw [if_neg (fun hx' => hin (hdist.2 hx')), if_neg hin]
    rfl

theorem memcpy_error {data : List Byte} (h : ¬ addr.toNat + data.length ≤ size m) :
    ∃ e, (memcpyHostToGuest addr data : Action M PUnit).run.run m = (.error e, m) := by
  obtain ⟨e, he⟩ := host_to_guest_error (Nat.lt_of_not_le h)
  exact ⟨_, run_memcpyHostToGuest_error he⟩

omit [LawfulFuncMemory M] in
theorem memset_succ (addr : Addr) (value : Byte) (n : ℕ) :
    (memset addr value (n + 1) : Action M PUnit)
      = (do memset addr value n; memcpyHostToGuest (addr.offset n) [value]) := by
  rw [memset, List.range_succ, List.forM_eq_forM, List.forM_append]
  simp [memset]

/-- Byte by byte; the addresses may go around. -/
theorem memset_overlaid (value : Byte) : ∀ {n : ℕ}, n < 2 ^ 64 →
    (∀ i < n, (addr.offset i).toNat < size m) →
    ∃ m', (memset addr value n : Action M PUnit).run.run m = (.ok ⟨⟩, m')
      ∧ Overlaid (fun x => if (x - addr).toNat < n then some value else none) m m'
  | 0, _, _ => ⟨m, rfl, .refl m⟩
  | n + 1, hn, h => by
    obtain ⟨m₁, hrun, hoverlaid⟩ := memset_overlaid value (Nat.lt_of_succ_lt hn) fun i hi =>
      h i (Nat.lt_succ_of_lt hi)
    have hlast : (addr.offset n).toNat + [value].length ≤ size m₁ := by
      rw [hoverlaid.size_eq]
      exact h n (Nat.lt_succ_self n)
    obtain ⟨m₂, hstep, hbyte⟩ := memcpy_overlaid hlast
    refine ⟨m₂, ?_, (hoverlaid.trans hbyte).congr fun x _ => ?_⟩
    · rw [memset_succ, run_bind_ok hrun, hstep]
    · have hdist : (x - addr.offset n).toNat < [value].length ↔ (x - addr).toNat = n := by
        rw [Addr.offset, List.length_singleton, BitVec.toNat_sub, BitVec.toNat_sub,
          BitVec.toNat_add, BitVec.toNat_ofNat]
        omega
      simp only [hdist]
      by_cases hx : (x - addr).toNat = n
      · have hzero : (x - addr.offset n).toNat = 0 := Nat.lt_one_iff.1 (hdist.2 hx)
        rw [if_pos hx, hzero, if_pos (Nat.lt_succ_of_le hx.le)]
        rfl
      · have hiff : (x - addr).toNat < n + 1 ↔ (x - addr).toNat < n := by omega
        rw [if_neg hx, Option.none_or, if_congr hiff rfl rfl]

theorem memset_error (value : Byte) : ∀ {n : ℕ}, n < 2 ^ 64 →
    (¬ ∀ i < n, (addr.offset i).toNat < size m) →
    ∃ e m', (memset addr value n : Action M PUnit).run.run m = (.error e, m')
  | 0, _, h => absurd (fun _ hi => absurd hi (Nat.not_lt_zero _)) h
  | n + 1, hn, h => by
    by_cases hbefore : ∀ i < n, (addr.offset i).toNat < size m
    · obtain ⟨m₁, hrun, hoverlaid⟩ := memset_overlaid value (Nat.lt_of_succ_lt hn) hbefore
      have hlast : ¬ (addr.offset n).toNat + [value].length ≤ size m₁ := fun hin => by
        rw [hoverlaid.size_eq] at hin
        refine h fun i hi => ?_
        rcases Nat.lt_succ_iff_lt_or_eq.1 hi with hlt | rfl
        · exact hbefore i hlt
        · exact hin
      obtain ⟨e, he⟩ := memcpy_error hlast
      exact ⟨e, m₁, by rw [memset_succ, run_bind_ok hrun, he]⟩
    · obtain ⟨e, m₁, he⟩ := memset_error value (Nat.lt_of_succ_lt hn) hbefore
      exact ⟨e, m₁, by rw [memset_succ, run_bind_error he]⟩

end Copies

section Sections

variable {offset : BitVec 64} {s : ElfSection}

theorem section_overlaid (h : s.Loadable offset m) :
    ∃ m', (loadElfSection s offset : Action M PUnit).run.run m = (.ok ⟨⟩, m')
      ∧ Overlaid (s.byteAt offset) m m' := by
  have hfits := h.fits
  unfold ElfSection.Fits at hfits
  unfold loadElfSection ElfSection.byteAt
  rw [if_neg h.address_ne]
  rcases hdata : s.data with _ | data <;> rw [hdata] at hfits
  · exact memset_overlaid 0#8 s.size_lt hfits
  · have hlen : data.length = s.size := s.length_data data hdata
    dsimp only at hfits ⊢
    rw [← hlen] at hfits ⊢
    exact memcpy_overlaid hfits

theorem section_error (h : ¬ s.Loadable offset m) :
    ∃ e m', (loadElfSection s offset : Action M PUnit).run.run m = (.error e, m') := by
  unfold loadElfSection
  by_cases haddress : s.address = 0#64
  · rw [if_pos haddress]
    exact ⟨_, m, rfl⟩
  · have hfits : ¬ s.Fits offset m := fun hf => h ⟨haddress, hf⟩
    unfold ElfSection.Fits at hfits
    rw [if_neg haddress]
    rcases hdata : s.data with _ | data <;> rw [hdata] at hfits
    · exact memset_error 0#8 s.size_lt hfits
    · have hlen : data.length = s.size := s.length_data data hdata
      dsimp only at hfits
      rw [← hlen] at hfits
      obtain ⟨e, he⟩ := memcpy_error hfits
      exact ⟨e, m, he⟩

theorem loadable_congr {m' : M} (h : size m' = size m) :
    s.Loadable offset m' ↔ s.Loadable offset m := by
  have hfits : s.Fits offset m' ↔ s.Fits offset m := by
    unfold ElfSection.Fits
    rw [h]
  exact ⟨fun hl => ⟨hl.1, hfits.1 hl.2⟩, fun hl => ⟨hl.1, hfits.2 hl.2⟩⟩

theorem forM_overlaid : ∀ (sections : List ElfSection) {m : M},
    (∀ s ∈ sections, s.Loadable offset m) →
    ∃ m', (sections.forM fun s => loadElfSection s offset : Action M PUnit).run.run m
        = (.ok ⟨⟩, m')
      ∧ Overlaid (imageByte offset sections) m m'
  | [], m, _ => ⟨m, rfl, .refl m⟩
  | s :: sections, m, h => by
    obtain ⟨m₁, hrun, hoverlaid⟩ := section_overlaid (h s List.mem_cons_self)
    obtain ⟨m₂, hrest, hlater⟩ := forM_overlaid sections fun s' hs' =>
      (loadable_congr hoverlaid.size_eq).2 (h s' (List.mem_cons_of_mem _ hs'))
    exact ⟨m₂, (run_bind_ok hrun _).trans hrest, hoverlaid.trans hlater⟩

theorem forM_error : ∀ (sections : List ElfSection) {m : M},
    (¬ ∀ s ∈ sections, s.Loadable offset m) →
    ∃ e m', (sections.forM fun s => loadElfSection s offset : Action M PUnit).run.run m
        = (.error e, m')
  | [], _, h => absurd (fun _ hs => absurd hs List.not_mem_nil) h
  | s :: sections, m, h => by
    by_cases hfirst : s.Loadable offset m
    · obtain ⟨m₁, hrun, hoverlaid⟩ := section_overlaid hfirst
      obtain ⟨e, m₂, he⟩ := forM_error sections (m := m₁) fun hall => by
        refine h fun s' hs' => ?_
        rcases List.mem_cons.1 hs' with rfl | hs'
        · exact hfirst
        · exact (loadable_congr hoverlaid.size_eq).1 (hall s' hs')
      exact ⟨e, m₂, (run_bind_ok hrun _).trans he⟩
    · obtain ⟨e, m₁, he⟩ := section_error hfirst
      exact ⟨e, m₁, run_bind_error he _⟩

end Sections

section Load

variable (loader : ElfLoader) (offset : BitVec 64)

variable {loader offset} in
theorem loadable_of_run {m m' : M} (h : (loader.loadTo offset).run.run m = (.ok ⟨⟩, m')) :
    ∀ s ∈ loader.allocated, s.Loadable offset m := by
  by_contra hnot
  obtain ⟨e, m'', he⟩ := forM_error _ hnot
  cases h.symm.trans he

variable {loader offset} in
/-- What a load that ends well leaves. -/
theorem loadTo_overlaid {m m' : M} (h : (loader.loadTo offset).run.run m = (.ok ⟨⟩, m')) :
    Overlaid (imageByte offset loader.allocated) m m' := by
  obtain ⟨m'', hrun, hoverlaid⟩ := forM_overlaid _ (loadable_of_run h)
  cases hrun.symm.trans h
  exact hoverlaid

/-- A binary is loaded exactly when each section that it allocates has an address and room; then
every byte is the one of the last of them over it, or as it was. -/
theorem loadTo_iff (m : M) :
    ((∃ m', (loader.loadTo offset).run.run m = (.ok ⟨⟩, m'))
      ↔ ∀ s ∈ loader.allocated, s.Loadable offset m)
      ∧ ∀ m', (loader.loadTo offset).run.run m = (.ok ⟨⟩, m') →
        Overlaid (imageByte offset loader.allocated) m m' := by
  refine ⟨⟨fun ⟨_, hrun⟩ => loadable_of_run hrun, fun h => ?_⟩, fun m' h => loadTo_overlaid h⟩
  obtain ⟨m', hrun, -⟩ := forM_overlaid _ h
  exact ⟨m', hrun⟩

end Load

section Text

variable {loader : ElfLoader} {offset : BitVec 64} {text : ElfSection}

/-- The text section, with no other section loaded over it later. -/
structure HasText (loader : ElfLoader) (offset : BitVec 64) (text : ElfSection) : Prop where
  found : loader.sections.find? (fun s => s.name = ".text") = some text
  last : ∃ before after, loader.allocated = before ++ text :: after
    ∧ ∀ s ∈ after, ∀ x, (text.byteAt offset x).isSome → s.byteAt offset x = none

theorem imageByte_append (sections sections' : List ElfSection) (x : Addr) :
    imageByte offset (sections ++ sections') x
      = (imageByte offset sections' x).or (imageByte offset sections x) := by
  induction sections with
  | nil => exact (Option.or_none).symm
  | cons s sections ih =>
    rw [List.cons_append, imageByte, ih, Option.or_assoc]
    rfl

theorem imageByte_eq_none {sections : List ElfSection} {x : Addr}
    (h : ∀ s ∈ sections, s.byteAt offset x = none) : imageByte offset sections x = none := by
  induction sections with
  | nil => rfl
  | cons s sections ih =>
    rw [imageByte, ih fun s' hs' => h s' (List.mem_cons_of_mem _ hs'), Option.none_or]
    exact h s List.mem_cons_self

theorem HasText.imageByte_eq (h : loader.HasText offset text) {x : Addr} {b : Byte}
    (hx : text.byteAt offset x = some b) : imageByte offset loader.allocated x = some b := by
  obtain ⟨before, after, hallocated, hafter⟩ := h.last
  have hlater : imageByte offset after x = none :=
    imageByte_eq_none fun s hs => hafter s hs x (by rw [hx]; rfl)
  rw [hallocated, imageByte_append, imageByte, hlater, Option.none_or, hx]
  rfl

theorem HasText.textAddr_eq (h : loader.HasText offset text) :
    loader.getTextSectionAddr = text.address := by
  rw [getTextSectionAddr, h.found]

/-- Moved from its address to another, the text is found there. -/
theorem byteAt_moved {place : Addr} {data : List Byte} (hdata : text.data = some data) {i : ℕ}
    (hi : i < text.size) :
    text.byteAt (place - text.address) (place.offset i) = some (data.getD i 0#8) := by
  have hlt := text.size_lt
  have hindex : (place.offset i - (text.address + (place - text.address))).toNat = i := by
    have hplace : text.address + (place - text.address) = place := by
      rw [BitVec.add_comm, BitVec.sub_add_cancel]
    rw [hplace, Addr.offset, BitVec.add_comm, BitVec.add_sub_cancel, BitVec.toNat_ofNat]
    omega
  unfold ElfSection.byteAt
  rw [hindex, if_pos hi, hdata]

end Text

end ElfLoader

end MiptMips
