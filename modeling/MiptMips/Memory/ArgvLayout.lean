import Mathlib.Tactic.Ring
import MiptMips.Lib.Cells
import MiptMips.Memory.ArgvLoader

/-!
# The layout of the arguments

What is loaded is one text of cells: the words, that is the count, the pointers and the null
pointers, and after them the strings with their terminators. The loader writes the cells in an order
of its own, and each write puts a part of the text where it belongs (`Fills`).

A pointer leads to its string where the address of the string fits into a word. The first one that
does not leads back to what is laid out before it.
-/

namespace MiptMips

open Machines Throwing FuncMemory LawfulFuncMemory

namespace ArgvLoader

section Spec

variable (w : ℕ) (e : Endian) (argv envp : Option (List CString)) (base : Addr)

/-- The strings, those of the environment last. -/
def strings : List CString := argv.getD [] ++ envp.getD []

def argCount : ℕ := (argv.getD []).length

def envCount : ℕ := (envp.getD []).length

/-- The words before the strings. -/
def slots : ℕ := 2 + argCount argv + if envp.isSome then envCount envp + 1 else 0

/-- The word that points to a string. -/
def slotOf (j : ℕ) : ℕ := if j < argCount argv then 1 + j else 2 + j

/-- Where a string begins. -/
def stringOffset (j : ℕ) : ℕ :=
  guestWordSize w * slots argv envp
    + (((strings argv envp).take j).map fun content => content.size + 1).sum

/-- The number of bytes that are laid out. -/
def totalSize : ℕ := stringOffset w argv envp (strings argv envp).length

variable {M : Type} [FuncMemory M] [LawfulFuncMemory M] (m m' : M)

def wordAt (s : ℕ) : BitVec w := read m w e (base.offset (guestWordSize w * s))

/-- The address that a string's word holds. -/
def pointer (j : ℕ) : ℕ := (wordAt w e base m (slotOf argv j)).toNat

/-- The words, and the strings where the pointers lead. -/
def regions : List Piece :=
  ((List.range (slots argv envp)).map fun s =>
    (base.toNat + guestWordSize w * s, guestWordSize w))
    ++ (strings argv envp).mapIdx fun j content => (pointer w e argv base m j, content.size + 1)

/-- What has become of a memory `m` is a memory `m'` with the arguments. -/
structure LaidOut (total : ℕ) : Prop where
  argc : (wordAt w e base m' 0).toNat = argCount argv
  argv_end : wordAt w e base m' (1 + argCount argv) = 0#w
  envp_end : envp.isSome → wordAt w e base m' (2 + argCount argv + envCount envp) = 0#w
  copies : ∀ j content, (strings argv envp)[j]? = some content →
    ∀ i b, (content.bytes ++ [0#8])[i]? = some b →
      byteAt m' (BitVec.ofNat 64 (pointer w e argv base m' j + i)) = b
  apart : (regions w e argv envp base m').Pairwise Apart
  inside : ∀ region ∈ regions w e argv envp base m',
    base.toNat ≤ region.1 ∧ region.1 + region.2 ≤ base.toNat + total
  total_eq : total = ((regions w e argv envp base m').map Prod.snd).sum
  outside : ∀ x, ¬ (base.toNat ≤ (canon m x).toNat ∧ (canon m x).toNat < base.toNat + total) →
    byteAt m' x = byteAt m x

/-- A new loader loads the strings, and its result is the size of what it has laid out. -/
def LaysOut : Prop :=
  ∃ loader total s, create argv envp = .ok loader
    ∧ (loader.loadTo w e base).run.run { mem := m } = (.ok total, s)
    ∧ LaidOut w e argv envp base m s.mem total.toNat

/-- The counts fit into an `int`, and the addresses of the strings into a word. -/
structure Fits : Prop where
  argc_lt : argCount argv < 2 ^ 31
  envc_lt : envCount envp ≠ 0 → argCount argv + envCount envp + 1 < 2 ^ 31
  pointer_lt : ∀ j < (strings argv envp).length, base.toNat + stringOffset w argv envp j < 2 ^ w

end Spec

section Fills

variable {M : Type} [FuncMemory M] [LawfulFuncMemory M] (base : Addr) (text : List Byte)

/-- A byte of the text is where it belongs. -/
def Holds (m : M) (d : ℕ) : Prop := text[d]? = some (byteAt m (base.offset d))

/-- A memory in which more of a text may be, and nothing else is new. -/
structure Fills (m m' : M) : Prop where
  same_size : size m' = size m
  same_canon : canon m' = canon m
  outside : ∀ x,
    ¬ (base.toNat ≤ (canon m x).toNat ∧ (canon m x).toNat < base.toNat + text.length) →
      byteAt m' x = byteAt m x
  holds : ∀ d, Holds base text m d → Holds base text m' d

variable {base : Addr} {text : List Byte} {m m' m'' : M}

theorem Fills.refl (m : M) : Fills base text m m := ⟨rfl, rfl, fun _ _ => rfl, fun _ h => h⟩

theorem Fills.trans (h : Fills base text m m') (h' : Fills base text m' m'') :
    Fills base text m m'' where
  same_size := h'.same_size.trans h.same_size
  same_canon := h'.same_canon.trans h.same_canon
  outside x hx := (h'.outside x (by rwa [h.same_canon])).trans (h.outside x hx)
  holds d hd := h'.holds d (h.holds d hd)

variable {cells : List (List Byte)} {k : ℕ}

variable (base cells) in
/-- A cell is where it belongs. -/
def HoldsCell (m : M) (k : ℕ) : Prop :=
  ∀ cell, cells[k]? = some cell → ∀ i < cell.length,
    Holds base cells.flatten m (Cells.start cells k + i)

theorem Fills.holdsCell (h : Fills base cells.flatten m m') (hk : HoldsCell base cells m k) :
    HoldsCell base cells m' k :=
  fun cell hcell i hi => h.holds _ (hk cell hcell i hi)

/-- A part of a cell is written where it belongs. -/
theorem exists_fills (hroom : base.toNat + cells.flatten.length ≤ size m) {cell : List Byte}
    (hcell : cells[k]? = some cell) (part : List Byte) {a : ℕ} (ha : a < cell.length)
    (hend : a + part.length ≤ cell.length) (hpart : ∀ i < part.length, cell[a + i]? = part[i]?) :
    ∃ m', FuncMemory.memcpyHostToGuest m (base.offset (Cells.start cells k + a)) part = .ok m'
      ∧ Fills base cells.flatten m m'
      ∧ ∀ i < part.length, Holds base cells.flatten m' (Cells.start cells k + (a + i)) := by
  have hsize := size_le m
  have hin := Cells.start_add_le hcell
  have hat : ∀ {d}, d < cells.flatten.length → (base.offset d).toNat = base.toNat + d :=
    fun hd => toNat_offset (by omega)
  have hcanon : ∀ {d}, d < cells.flatten.length →
      (canon m (base.offset d)).toNat = base.toNat + d := fun hd => by
    rw [canon_of_lt (by rw [hat hd]; omega), hat hd]
  obtain ⟨m', hcopy, hsize', hcanon', hbytes⟩ := host_to_guest (m := m)
    (show (base.offset (Cells.start cells k + a)).toNat + part.length ≤ _ by
      rw [hat (by omega)]
      omega)
  rw [hat (by omega)] at hbytes
  have hholds : ∀ i < part.length,
      Holds base cells.flatten m' (Cells.start cells k + (a + i)) := by
    intro i hi
    have hindex : base.toNat + (Cells.start cells k + (a + i))
        - (base.toNat + (Cells.start cells k + a)) = i := by omega
    rw [Holds, Cells.getElem?_flatten hcell (by omega), hpart i hi, hbytes, hcanon (by omega),
      if_pos (by omega), hindex, List.getD_eq_getElem?_getD, List.getElem?_eq_getElem hi]
    rfl
  refine ⟨m', hcopy, ⟨hsize', hcanon', ?_, ?_⟩, hholds⟩
  · intro x hx
    rw [hbytes, if_neg (by omega)]
  · intro d hd
    by_cases hwritten : Cells.start cells k + a ≤ d ∧ d < Cells.start cells k + a + part.length
    · obtain ⟨i, rfl⟩ := Nat.exists_eq_add_of_le hwritten.1
      rw [Nat.add_assoc]
      exact hholds i (by omega)
    · obtain ⟨hlt, -⟩ := List.getElem?_eq_some_iff.1 hd
      rw [Holds, hbytes, hcanon hlt, if_neg (by omega)]
      exact hd

/-- A whole cell. -/
theorem run_write {w : ℕ} {e : Endian} {value : BitVec w}
    (hroom : base.toNat + cells.flatten.length ≤ size m) (hw : 8 ≤ w)
    (hcell : cells[k]? = some (unpackArray e value)) (offset : Addr) : ∃ m',
    (write e value (base.offset (Cells.start cells k)) : Action M PUnit).run.run ⟨offset, m⟩
        = (.ok ⟨⟩, ⟨offset, m'⟩)
      ∧ Fills base cells.flatten m m' ∧ HoldsCell base cells m' k := by
  have hlength : (unpackArray e value).length = w / 8 := length_unpackArray e value
  obtain ⟨m', hcopy, hfills, hholds⟩ := exists_fills hroom hcell (unpackArray e value)
    (a := 0) (by omega) (by omega) fun i _ => by rw [Nat.zero_add]
  refine ⟨m', run_memcpyHostToGuest hcopy, hfills, ?_⟩
  intro cell hcell' i hi
  obtain rfl := Option.some.inj (hcell.symm.trans hcell')
  rw [← Nat.zero_add i]
  exact hholds i hi

/-- A string and its terminator are one cell. -/
theorem run_placeContent (e : Endian) {content : CString}
    (hroom : base.toNat + cells.flatten.length ≤ size m)
    (hcell : cells[k]? = some (content.bytes ++ [0#8])) : ∃ m',
    (placeContent e base content).run.run ⟨BitVec.ofNat 64 (Cells.start cells k), m⟩
        = (.ok ⟨⟩, ⟨BitVec.ofNat 64 (Cells.start cells (k + 1)), m'⟩)
      ∧ Fills base cells.flatten m m' ∧ HoldsCell base cells m' k := by
  have hsize : content.bytes.length = content.size := rfl
  have hlength : (content.bytes ++ [0#8]).length = content.size + 1 := List.length_append
  have hnul : unpackArray e 0#8 = [0#8] := by cases e <;> rfl
  obtain ⟨m₁, hcopy₁, hfills₁, hholds₁⟩ := exists_fills hroom hcell content.bytes (a := 0)
    (by omega) (by omega) fun i hi => by rw [Nat.zero_add, List.getElem?_append_left hi]
  rw [← hfills₁.same_size] at hroom
  obtain ⟨m₂, hcopy₂, hfills₂, hholds₂⟩ := exists_fills hroom hcell [0#8] (a := content.size)
    (by omega) (Nat.le_of_eq hlength.symm) fun i _ => by
      rw [← hsize, List.getElem?_append_right (Nat.le_add_right _ _), Nat.add_sub_cancel_left]
  refine ⟨m₂, ?_, hfills₁.trans hfills₂, ?_⟩
  · rw [placeContent, run_get_bind, writeString, run_bind_ok (run_memcpyHostToGuest hcopy₁),
      run_bind_ok (run_advance _ _ _), run_get_bind, placeNullterminator, write, hnul,
      run_bind_ok (run_memcpyHostToGuest hcopy₂), run_advance, Cells.start_succ hcell, hlength,
      Nat.add_assoc]
  · intro cell hcell' i hi
    obtain rfl := Option.some.inj (hcell.symm.trans hcell')
    rw [hlength] at hi
    rcases Nat.lt_succ_iff_lt_or_eq.1 hi with hlt | rfl
    · rw [← Nat.zero_add i]
      exact hfills₂.holds _ (hholds₁ i hlt)
    · exact hholds₂ 0 Nat.zero_lt_one

end Fills

section Image

variable (w : ℕ) (e : Endian) (argv envp : Option (List CString)) (base : Addr)

/-- The address of a string in a word. -/
def pointerWord (j : ℕ) : BitVec w := (base.offset (stringOffset w argv envp j)).setWidth w

def argvWords : List (BitVec w) :=
  BitVec.ofNat w (argCount argv)
    :: (List.range (argCount argv)).map (pointerWord w argv envp base) ++ [0#w]

def envpWords : List (BitVec w) :=
  if envp.isSome then
    (List.range (envCount envp)).map (fun i => pointerWord w argv envp base (argCount argv + i))
      ++ [0#w]
  else []

def words : List (BitVec w) := argvWords w argv envp base ++ envpWords w argv envp base

/-- The words and the strings. -/
def cells : List (List Byte) :=
  (words w argv envp base).map (unpackArray e)
    ++ (strings argv envp).map fun content => content.bytes ++ [0#8]

variable {w : ℕ} {e : Endian} {argv envp : Option (List CString)} {base : Addr}

theorem length_argvWords : (argvWords w argv envp base).length = 2 + argCount argv := by
  simp [argvWords]
  omega

theorem length_strings : (strings argv envp).length = argCount argv + envCount envp := by
  rw [strings, List.length_append, argCount, envCount]

@[simp]
theorem length_words : (words w argv envp base).length = slots argv envp := by
  rw [words, List.length_append, length_argvWords, slots, envpWords]
  split_ifs <;> simp

theorem words_zero : (words w argv envp base)[0]? = some (BitVec.ofNat w (argCount argv)) := rfl

theorem words_argv_end : (words w argv envp base)[1 + argCount argv]? = some 0#w := by
  rw [words, List.getElem?_append_left (by rw [length_argvWords]; omega), argvWords,
    List.cons_append, Nat.add_comm, List.getElem?_cons_succ, List.getElem?_append_right (by simp)]
  simp

theorem words_envp_end (h : envp.isSome) :
    (words w argv envp base)[2 + argCount argv + envCount envp]? = some 0#w := by
  rw [words, List.getElem?_append_right (by rw [length_argvWords]; omega), length_argvWords,
    Nat.add_sub_cancel_left, envpWords, if_pos h, List.getElem?_append_right (by simp)]
  simp

theorem words_slotOf {j : ℕ} (h : j < (strings argv envp).length) :
    (words w argv envp base)[slotOf argv j]? = some (pointerWord w argv envp base j) := by
  rw [slotOf, words]
  split_ifs with hj
  · rw [List.getElem?_append_left (by rw [length_argvWords]; omega), argvWords, List.cons_append,
      Nat.add_comm, List.getElem?_cons_succ, List.getElem?_append_left (by simpa using hj)]
    simp [hj]
  · rw [length_strings] at h
    have hsome : envp.isSome := by
      rcases envp with _ | envp
      · exact absurd h hj
      · rfl
    obtain ⟨i, rfl⟩ := Nat.exists_eq_add_of_le (Nat.not_lt.1 hj)
    have hi : i < envCount envp := by omega
    rw [← Nat.add_assoc, List.getElem?_append_right (by rw [length_argvWords]; omega),
      length_argvWords, Nat.add_sub_cancel_left, envpWords, if_pos hsome,
      List.getElem?_append_left (by simpa using hi)]
    simp [hi]

theorem cells_slot {s : ℕ} {value : BitVec w} (h : (words w argv envp base)[s]? = some value) :
    (cells w e argv envp base)[s]? = some (unpackArray e value) := by
  obtain ⟨hs, -⟩ := List.getElem?_eq_some_iff.1 h
  rw [cells, List.getElem?_append_left (by simpa using hs), List.getElem?_map, h]
  rfl

theorem getElem?_cells (j : ℕ) : (cells w e argv envp base)[slots argv envp + j]?
    = (strings argv envp)[j]?.map fun content => content.bytes ++ [0#8] := by
  rw [cells, List.getElem?_append_right (by simp), List.length_map, length_words,
    Nat.add_sub_cancel_left, List.getElem?_map]

theorem cells_string {j : ℕ} {content : CString} (h : (strings argv envp)[j]? = some content) :
    (cells w e argv envp base)[slots argv envp + j]? = some (content.bytes ++ [0#8]) := by
  rw [getElem?_cells, h, Option.map_some]

theorem start_slot {s : ℕ} (h : s ≤ slots argv envp) :
    Cells.start (cells w e argv envp base) s = guestWordSize w * s := by
  rw [cells, Cells.start_append_left (by simpa using h)]
  refine Cells.start_of_length ?_ (by simpa using h)
  intro cell hcell
  obtain ⟨value, -, rfl⟩ := List.mem_map.1 hcell
  exact length_unpackArray e value

theorem start_string (j : ℕ) :
    Cells.start (cells w e argv envp base) (slots argv envp + j) = stringOffset w argv envp j := by
  have hwords : ((words w argv envp base).map (unpackArray e)).length = slots argv envp := by simp
  have hfirst : Cells.start (cells w e argv envp base) (slots argv envp)
      = guestWordSize w * slots argv envp := start_slot (le_refl _)
  rw [cells, Cells.start_append_left (Nat.le_of_eq hwords.symm)] at hfirst
  rw [cells, ← hwords, Cells.start_append_right, hwords, hfirst, stringOffset, Cells.start,
    ← List.map_take, List.map_map]
  congr 2
  refine List.map_congr_left fun content _ => ?_
  simp [CString.size]

theorem length_flatten :
    (cells w e argv envp base).flatten.length = totalSize w argv envp := by
  have hlength : (cells w e argv envp base).length
      = slots argv envp + (strings argv envp).length := by simp [cells]
  rw [← Cells.start_length, hlength, start_string, totalSize]

theorem stringOffset_add_le {j : ℕ} {content : CString}
    (h : (strings argv envp)[j]? = some content) :
    stringOffset w argv envp j + (content.size + 1) ≤ totalSize w argv envp := by
  have hcell : (cells w .little argv envp 0#64)[slots argv envp + j]?
      = some (content.bytes ++ [0#8]) := cells_string h
  have hend := Cells.start_add_le hcell
  rw [start_string, length_flatten, List.length_append] at hend
  exact hend

theorem stringOffset_lt {j : ℕ} (h : j < (strings argv envp).length) :
    stringOffset w argv envp j < totalSize w argv envp := by
  have hend := stringOffset_add_le (w := w) (List.getElem?_eq_getElem h)
  omega

end Image

section Run

variable {w : ℕ} {e : Endian} {argv envp : Option (List CString)} {base : Addr}
  {M : Type} [FuncMemory M] [LawfulFuncMemory M] {m m' : M}
  (hw : w = 32 ∨ w = 64)

include hw

theorem run_writeSlot (hroom : base.toNat + totalSize w argv envp ≤ size m) {s : ℕ}
    {value : BitVec w} (hs : (words w argv envp base)[s]? = some value) (offset : Addr) : ∃ m',
    (write e value (base.offset (guestWordSize w * s)) : Action M PUnit).run.run ⟨offset, m⟩
        = (.ok ⟨⟩, ⟨offset, m'⟩)
      ∧ Fills base (cells w e argv envp base).flatten m m'
      ∧ HoldsCell base (cells w e argv envp base) m' s := by
  obtain ⟨hlt, -⟩ := List.getElem?_eq_some_iff.1 hs
  rw [length_words] at hlt
  have hstart : Cells.start (cells w e argv envp base) s = guestWordSize w * s :=
    start_slot (Nat.le_of_lt hlt)
  rw [← hstart]
  exact run_write (by rwa [length_flatten]) (by omega) (cells_slot hs) offset

theorem run_loadContent (hroom : base.toNat + totalSize w argv envp ≤ size m)
    {slot : ℕ → Except LoaderFault ℕ} {i t : ℕ} {content : CString}
    (hslot : slot i = .ok (slotOf argv t)) (ht : (strings argv envp)[t]? = some content) : ∃ m',
    (loadContent w e base slot content i).run.run
        ⟨BitVec.ofNat 64 (stringOffset w argv envp t), m⟩
        = (.ok ⟨⟩, ⟨BitVec.ofNat 64 (stringOffset w argv envp (t + 1)), m'⟩)
      ∧ Fills base (cells w e argv envp base).flatten m m'
      ∧ HoldsCell base (cells w e argv envp base) m' (slotOf argv t)
      ∧ HoldsCell base (cells w e argv envp base) m' (slots argv envp + t) := by
  obtain ⟨hlt, -⟩ := List.getElem?_eq_some_iff.1 ht
  obtain ⟨m₁, hpointer, hfills₁, hholds₁⟩ := run_writeSlot (e := e) hw hroom (words_slotOf hlt)
    (BitVec.ofNat 64 (stringOffset w argv envp t))
  rw [← hfills₁.same_size, ← length_flatten (e := e)] at hroom
  obtain ⟨m₂, hplace, hfills₂, hholds₂⟩ := run_placeContent e hroom (cells_string ht)
  rw [start_string, Nat.add_assoc, start_string] at hplace
  refine ⟨m₂, ?_, hfills₁.trans hfills₂, hfills₂.holdsCell hholds₁, hholds₂⟩
  rw [loadContent, hslot, run_bind_ok (run_int _), run_get_bind, Nat.mul_comm]
  exact (run_bind_ok hpointer _).trans hplace

/-- A loop over strings, which are all of them or those from the first one of the environment on. -/
theorem run_loadContents {slot : ℕ → Except LoaderFault ℕ} :
    ∀ {contents : List CString} {i t : ℕ} {m : M},
      base.toNat + totalSize w argv envp ≤ size m →
      (∀ j < contents.length, slot (i + j) = .ok (slotOf argv (t + j)) ∧ i + j + 1 < 2 ^ 31) →
      contents <+: (strings argv envp).drop t → ∃ m',
      (loadContents w e base slot contents i).run.run
          ⟨BitVec.ofNat 64 (stringOffset w argv envp t), m⟩
          = (.ok ⟨⟩, ⟨BitVec.ofNat 64 (stringOffset w argv envp (t + contents.length)), m'⟩)
        ∧ Fills base (cells w e argv envp base).flatten m m'
        ∧ ∀ j < contents.length, HoldsCell base (cells w e argv envp base) m' (slotOf argv (t + j))
          ∧ HoldsCell base (cells w e argv envp base) m' (slots argv envp + (t + j))
  | [], i, t, m, _, _, _ => ⟨m, rfl, .refl m, fun j hj => absurd hj (Nat.not_lt_zero j)⟩
  | content :: contents, i, t, m, hroom, hslot, ⟨rest, hcontents⟩ => by
    have hdrop : (strings argv envp).drop t = content :: (contents ++ rest) := hcontents.symm
    have ht : (strings argv envp)[t]? = some content := by
      rw [← Nat.add_zero t, ← List.getElem?_drop, hdrop]
      rfl
    have htail : (strings argv envp).drop (t + 1) = contents ++ rest := by
      rw [← List.drop_drop, hdrop]
      rfl
    obtain ⟨hfirst, hnext⟩ := hslot 0 (Nat.succ_pos _)
    rw [Nat.add_zero, Nat.add_zero] at hfirst
    rw [Nat.add_zero] at hnext
    obtain ⟨m₁, hrun₁, hfills₁, hpointer, hstring⟩ :=
      run_loadContent (e := e) hw hroom hfirst ht
    obtain ⟨m₂, hrun₂, hfills₂, hrest⟩ := run_loadContents (i := i + 1) (t := t + 1)
      (hfills₁.same_size ▸ hroom) (fun j hj => by
        have h := hslot (j + 1) (Nat.succ_lt_succ hj)
        rwa [Nat.add_comm j, ← Nat.add_assoc, ← Nat.add_assoc] at h) ⟨rest, htail.symm⟩
    refine ⟨m₂, ?_, hfills₁.trans hfills₂, fun j hj => ?_⟩
    · rw [loadContents, run_bind_ok hrun₁, intAdd, if_pos hnext, run_bind_ok (run_int _), hrun₂,
        List.length_cons, Nat.add_comm contents.length, ← Nat.add_assoc]
    · rcases j with _ | j
      · exact ⟨hfills₂.holdsCell hpointer, hfills₂.holdsCell hstring⟩
      · have h := hrest j (Nat.lt_of_succ_lt_succ hj)
        rwa [Nat.add_assoc, Nat.add_comm 1] at h

/-- The words of the arguments but for the pointers. -/
theorem run_reserveArgv (hroom : base.toNat + totalSize w argv envp ≤ size m) : ∃ m',
    (reserveArgv w e base ⟨argCount argv, argv, envp⟩ : Action M PUnit).run.run ⟨0#64, m⟩
        = (.ok ⟨⟩, ⟨BitVec.ofNat 64 (guestWordSize w * (2 + argCount argv)), m'⟩)
      ∧ Fills base (cells w e argv envp base).flatten m m'
      ∧ HoldsCell base (cells w e argv envp base) m' 0
      ∧ HoldsCell base (cells w e argv envp base) m' (1 + argCount argv) := by
  have hslots : guestWordSize w * 0 + guestWordSize w + argCount argv * guestWordSize w
      = guestWordSize w * (1 + argCount argv) := by ring
  have hend : guestWordSize w * (1 + argCount argv) + guestWordSize w
      = guestWordSize w * (2 + argCount argv) := by ring
  obtain ⟨m₁, hargc, hfills₁, hholds₁⟩ :=
    run_writeSlot (e := e) hw hroom words_zero (BitVec.ofNat 64 (guestWordSize w * 0))
  rw [← hfills₁.same_size] at hroom
  obtain ⟨m₂, hnull, hfills₂, hholds₂⟩ := run_writeSlot (e := e) hw hroom words_argv_end
    (BitVec.ofNat 64 (guestWordSize w * (1 + argCount argv)))
  refine ⟨m₂, ?_, hfills₁.trans hfills₂, hfills₂.holdsCell hholds₁, hholds₂⟩
  rw [reserveArgv, run_get_bind]
  refine (run_bind_ok hargc _).trans ?_
  rw [run_bind_ok (run_advance _ _ _), run_bind_ok (run_advance _ _ _), run_get_bind, hslots]
  refine (run_bind_ok hnull _).trans ?_
  rw [run_advance, hend]

theorem run_reserveEnvp (hroom : base.toNat + totalSize w argv envp ≤ size m)
    {env : List CString} (henv : envp = some env) (hcount : env.length < 2 ^ 31) : ∃ m',
    (reserveEnvp w e base env : Action M PUnit).run.run
        ⟨BitVec.ofNat 64 (guestWordSize w * (2 + argCount argv)), m⟩
        = (.ok ⟨⟩, ⟨BitVec.ofNat 64 (guestWordSize w * slots argv envp), m'⟩)
      ∧ Fills base (cells w e argv envp base).flatten m m'
      ∧ HoldsCell base (cells w e argv envp base) m' (2 + argCount argv + envCount envp) := by
  have hlength : envCount envp = env.length := by rw [henv, envCount, Option.getD_some]
  have hslots : guestWordSize w * (2 + argCount argv) + env.length * guestWordSize w
      = guestWordSize w * (2 + argCount argv + envCount envp) := by
    rw [hlength]
    ring
  have hend : guestWordSize w * (2 + argCount argv + envCount envp) + guestWordSize w
      = guestWordSize w * slots argv envp := by
    rw [slots, if_pos (by rw [henv]; rfl)]
    ring
  obtain ⟨m', hnull, hfills, hholds⟩ := run_writeSlot (e := e) hw hroom
    (words_envp_end (by rw [henv]; rfl))
    (BitVec.ofNat 64 (guestWordSize w * (2 + argCount argv + envCount envp)))
  refine ⟨m', ?_, hfills, hholds⟩
  rw [reserveEnvp, countArgc_eq, if_pos hcount, run_bind_ok (run_int _),
    run_bind_ok (run_advance _ _ _), run_get_bind, hslots]
  refine (run_bind_ok hnull _).trans ?_
  rw [run_advance, hend]

theorem run_loadArgvContents (hroom : base.toNat + totalSize w argv envp ≤ size m)
    (hargc : argCount argv < 2 ^ 31) : ∃ m',
    (loadArgvContents w e base ⟨argCount argv, argv, envp⟩ : Action M PUnit).run.run
        ⟨BitVec.ofNat 64 (stringOffset w argv envp 0), m⟩
        = (.ok ⟨⟩, ⟨BitVec.ofNat 64 (stringOffset w argv envp (argCount argv)), m'⟩)
      ∧ Fills base (cells w e argv envp base).flatten m m'
      ∧ ∀ j < argCount argv, HoldsCell base (cells w e argv envp base) m' (slotOf argv j)
        ∧ HoldsCell base (cells w e argv envp base) m' (slots argv envp + j) := by
  have hslot : ∀ j < argCount argv,
      intAdd 1 (0 + j) = .ok (slotOf argv (0 + j)) ∧ 0 + j + 1 < 2 ^ 31 := by
    intro j hj
    rw [Nat.zero_add, intAdd, if_pos (by omega), slotOf, if_pos hj]
    exact ⟨rfl, by omega⟩
  have hload := run_loadContents (e := e) hw hroom hslot (t := 0) (List.prefix_append _ _)
  simp only [Nat.zero_add] at hload
  exact hload

theorem run_loadEnvpContents (hroom : base.toNat + totalSize w argv envp ≤ size m)
    {env : List CString} (henv : envp = some env)
    (hcount : env.length ≠ 0 → argCount argv + env.length + 1 < 2 ^ 31) : ∃ m',
    (loadEnvpContents w e base ⟨argCount argv, argv, envp⟩ env : Action M PUnit).run.run
        ⟨BitVec.ofNat 64 (stringOffset w argv envp (argCount argv)), m⟩
        = (.ok ⟨⟩, ⟨BitVec.ofNat 64 (totalSize w argv envp), m'⟩)
      ∧ Fills base (cells w e argv envp base).flatten m m'
      ∧ ∀ j < env.length,
        HoldsCell base (cells w e argv envp base) m' (slotOf argv (argCount argv + j))
        ∧ HoldsCell base (cells w e argv envp base) m' (slots argv envp + (argCount argv + j)) := by
  have hslot : ∀ j < env.length,
      envpSlot (argCount argv) (0 + j) = .ok (slotOf argv (argCount argv + j))
        ∧ 0 + j + 1 < 2 ^ 31 := by
    intro j hj
    have hlt := hcount (by omega)
    rw [envpSlot_eq, if_pos (by omega), slotOf, if_neg (by omega)]
    exact ⟨congrArg Except.ok (by omega), by omega⟩
  have hdrop : env <+: (strings argv envp).drop (argCount argv) := by
    rw [henv, strings, argCount, List.drop_left]
    exact List.prefix_refl env
  have htotal : stringOffset w argv envp (argCount argv + env.length) = totalSize w argv envp := by
    rw [totalSize, length_strings, henv, envCount, Option.getD_some]
  rw [← htotal]
  exact run_loadContents (e := e) hw hroom hslot hdrop

/-- All cells are where they belong, and nothing else is new. -/
structure Loaded (w : ℕ) (e : Endian) (argv envp : Option (List CString)) (base : Addr)
    (m m' : M) : Prop where
  fills : Fills base (cells w e argv envp base).flatten m m'
  argc : HoldsCell base (cells w e argv envp base) m' 0
  argv_end : HoldsCell base (cells w e argv envp base) m' (1 + argCount argv)
  envp_end : envp.isSome →
    HoldsCell base (cells w e argv envp base) m' (2 + argCount argv + envCount envp)
  strings : ∀ j < (strings argv envp).length,
    HoldsCell base (cells w e argv envp base) m' (slotOf argv j)
      ∧ HoldsCell base (cells w e argv envp base) m' (slots argv envp + j)

theorem run_loadTo (hroom : base.toNat + totalSize w argv envp ≤ size m)
    (hargc : argCount argv < 2 ^ 31)
    (henvc : envCount envp ≠ 0 → argCount argv + envCount envp + 1 < 2 ^ 31) : ∃ s,
    (loadTo w e base ⟨argCount argv, argv, envp⟩).run.run { mem := m }
        = (.ok (BitVec.ofNat 64 (totalSize w argv envp)), s)
      ∧ Loaded w e argv envp base m s.mem := by
  obtain ⟨m₁, hreserve, hfills₁, hzero, hend⟩ := run_reserveArgv (e := e) hw hroom
  rw [← hfills₁.same_size] at hroom
  rcases henv : envp with _ | env
  · subst henv
    have hslots : guestWordSize w * (2 + argCount argv) = stringOffset w argv none 0 := rfl
    have htotal : stringOffset w argv none (argCount argv) = totalSize w argv none := by
      rw [totalSize, length_strings]
      rfl
    obtain ⟨m₂, hload, hfills₂, hstrings⟩ := run_loadArgvContents (e := e) hw hroom hargc
    rw [hslots] at hreserve
    rw [htotal] at hload
    refine ⟨_, (run_bind_ok hreserve _).trans ((run_bind_ok hload _).trans rfl), ?_⟩
    exact ⟨hfills₁.trans hfills₂, hfills₂.holdsCell hzero, hfills₂.holdsCell hend, nofun,
      fun j hj => hstrings j (by rwa [length_strings] at hj)⟩
  · subst henv
    have hlength : envCount (some env) = env.length := rfl
    have hstart : guestWordSize w * slots argv (some env) = stringOffset w argv (some env) 0 := rfl
    obtain ⟨m₂, hreserve₂, hfills₂, hend₂⟩ :=
      run_reserveEnvp (e := e) hw hroom rfl (by omega)
    rw [← hfills₂.same_size] at hroom
    obtain ⟨m₃, hload₃, hfills₃, hstrings₃⟩ := run_loadArgvContents (e := e) hw hroom hargc
    rw [← hfills₃.same_size] at hroom
    obtain ⟨m₄, hload₄, hfills₄, hstrings₄⟩ :=
      run_loadEnvpContents (e := e) hw hroom rfl henvc
    have hlater := (hfills₂.trans hfills₃).trans hfills₄
    rw [hstart] at hreserve₂
    refine ⟨_, (run_bind_ok hreserve _).trans ((run_bind_ok hreserve₂ _).trans
      ((run_bind_ok hload₃ _).trans ((run_bind_ok hload₄ _).trans rfl))), ?_⟩
    refine ⟨hfills₁.trans hlater, hlater.holdsCell hzero, hlater.holdsCell hend,
      fun _ => (hfills₃.trans hfills₄).holdsCell hend₂, fun j hj => ?_⟩
    rw [length_strings, hlength] at hj
    by_cases hargs : j < argCount argv
    · exact (hstrings₃ j hargs).imp hfills₄.holdsCell hfills₄.holdsCell
    · obtain ⟨i, rfl⟩ := Nat.exists_eq_add_of_le (Nat.not_lt.1 hargs)
      exact hstrings₄ i (by omega)

end Run

section Words

variable {w : ℕ} {e : Endian} {argv envp : Option (List CString)} {base : Addr}
  {M : Type} [FuncMemory M] [LawfulFuncMemory M] {m m' : M}
  (hw : w = 32 ∨ w = 64) (hroom : base.toNat + totalSize w argv envp ≤ size m)
  (hloaded : Loaded w e argv envp base m m')

theorem offset_offset (d i : ℕ) : (base.offset d).offset i = base.offset (d + i) := by
  rw [Addr.offset, Addr.offset, Addr.offset, BitVec.ofNat_add, BitVec.add_assoc]

include hw in
/-- A word that is where it belongs is read. -/
theorem wordAt_eq {s : ℕ} {value : BitVec w} (hs : (words w argv envp base)[s]? = some value)
    (hholds : HoldsCell base (cells w e argv envp base) m' s) :
    wordAt w e base m' s = value := by
  have hcell := cells_slot (e := e) hs
  obtain ⟨hlt, -⟩ := List.getElem?_eq_some_iff.1 hs
  rw [length_words] at hlt
  have hlength : (unpackArray e value).length = w / 8 := length_unpackArray e value
  have hbytes : readBytes m' (base.offset (guestWordSize w * s)) (w / 8)
      = unpackArray e value := by
    rw [readBytes_eq]
    refine List.ext_getElem? fun i => ?_
    by_cases hi : i < w / 8
    · have hbyte := hholds _ hcell i (by omega)
      rw [Holds, Cells.getElem?_flatten hcell (by omega),
        start_slot (Nat.le_of_lt hlt)] at hbyte
      rw [List.getElem?_map, List.getElem?_range hi, hbyte, Option.map_some, offset_offset]
    · rw [List.getElem?_eq_none (by simpa using hi), List.getElem?_eq_none (by omega)]
  have h8 : 8 ∣ w := by rcases hw with rfl | rfl <;> decide
  rw [wordAt, FuncMemory.read, hbytes, pack_unpack e value h8]

include hw hroom hloaded

/-- A pointer is the address of its string, cut to a word. -/
theorem pointer_eq {j : ℕ} (hj : j < (strings argv envp).length) :
    pointer w e argv base m' j = (base.toNat + stringOffset w argv envp j) % 2 ^ w := by
  have hin := stringOffset_lt (w := w) hj
  have hsize := size_le m
  rw [pointer, wordAt_eq hw (words_slotOf hj) (hloaded.strings j hj).1, pointerWord,
    BitVec.toNat_setWidth, toNat_offset (by omega)]

omit hw hroom hloaded [LawfulFuncMemory M] in
theorem getElem?_regions_string (j : ℕ) :
    (regions w e argv envp base m')[slots argv envp + j]?
      = (strings argv envp)[j]?.map fun content =>
        (pointer w e argv base m' j, content.size + 1) := by
  rw [regions, List.getElem?_append_right (by simp), List.length_map, List.length_range,
    Nat.add_sub_cancel_left, List.getElem?_mapIdx]

omit hw hroom hloaded [LawfulFuncMemory M] in
/-- The piece of a cell, where the pointer leads if it is a string. -/
theorem getElem?_regions {k : ℕ} {cell : List Byte}
    (hcell : (cells w e argv envp base)[k]? = some cell)
    (hpointer : ∀ j, k = slots argv envp + j →
      pointer w e argv base m' j = base.toNat + stringOffset w argv envp j) :
    (regions w e argv envp base m')[k]?
      = some (base.toNat + Cells.start (cells w e argv envp base) k, cell.length) := by
  by_cases hk : k < slots argv envp
  · have hvalue := List.getElem?_eq_getElem (l := words w argv envp base) (by rwa [length_words])
    obtain rfl := Option.some.inj ((cells_slot hvalue).symm.trans hcell)
    rw [regions, List.getElem?_append_left (by simpa using hk), start_slot (Nat.le_of_lt hk),
      length_unpackArray, List.getElem?_map, List.getElem?_range hk, Option.map_some]
    rfl
  · obtain ⟨j, rfl⟩ := Nat.exists_eq_add_of_le (Nat.not_lt.1 hk)
    rw [getElem?_cells] at hcell
    obtain ⟨content, hj, rfl⟩ := Option.map_eq_some_iff.1 hcell
    rw [getElem?_regions_string, hj, Option.map_some, hpointer j rfl, start_string,
      List.length_append]
    rfl

omit hw hroom hloaded [LawfulFuncMemory M] in
/-- Where the pointers are the addresses of the strings, the words and the strings are the cells. -/
theorem regions_eq (hpointer : ∀ j < (strings argv envp).length,
    pointer w e argv base m' j = base.toNat + stringOffset w argv envp j) :
    regions w e argv envp base m' = Cells.pieces base.toNat (cells w e argv envp base) := by
  refine List.ext_getElem? fun k => ?_
  rw [Cells.pieces, List.getElem?_mapIdx]
  rcases hcell : (cells w e argv envp base)[k]? with _ | cell
  · rw [Option.map_none, List.getElem?_eq_none_iff]
    simpa [regions, cells] using hcell
  · rw [Option.map_some]
    refine getElem?_regions hcell fun j hj => hpointer j ?_
    have hlt := (List.getElem?_eq_some_iff.1 hcell).1
    simp only [cells, List.length_append, List.length_map, length_words] at hlt
    omega

/-- The words and the strings tile what is laid out. -/
theorem laidOut (hpointer : ∀ j < (strings argv envp).length,
    pointer w e argv base m' j = base.toNat + stringOffset w argv envp j)
    (hargc : argCount argv < 2 ^ 31) :
    LaidOut w e argv envp base m m' (totalSize w argv envp) := by
  have htiles := Cells.tiles_pieces base.toNat (cells w e argv envp base)
  rw [← regions_eq hpointer, length_flatten] at htiles
  refine ⟨?_, ?_, ?_, ?_, htiles.pairwise_apart, ?_, ?_, ?_⟩
  · rw [wordAt_eq hw words_zero hloaded.argc, BitVec.toNat_ofNat, Nat.mod_eq_of_lt]
    rcases hw with rfl | rfl <;> omega
  · exact wordAt_eq hw words_argv_end hloaded.argv_end
  · exact fun h => wordAt_eq hw (words_envp_end h) (hloaded.envp_end h)
  · intro j content hj i b hb
    obtain ⟨hlt, -⟩ := List.getElem?_eq_some_iff.1 hj
    obtain ⟨hi, -⟩ := List.getElem?_eq_some_iff.1 hb
    have haddr : BitVec.ofNat 64 (pointer w e argv base m' j + i)
        = base.offset (stringOffset w argv envp j + i) := by
      rw [hpointer j hlt, Nat.add_assoc, BitVec.ofNat_add, BitVec.ofNat_toNat, BitVec.setWidth_eq,
        Addr.offset]
    have hcell : (cells w e argv envp base)[slots argv envp + j]?
        = some (content.bytes ++ [0#8]) := cells_string hj
    have hholds := (hloaded.strings j hlt).2 _ hcell i hi
    rw [Holds, Cells.getElem?_flatten hcell hi, hb, start_string] at hholds
    rw [haddr, ← Option.some.inj hholds]
  · exact fun region hregion => ⟨htiles.start_le region hregion, htiles.end_le region hregion⟩
  · have hsum := htiles.sum_eq
    omega
  · have houtside := hloaded.fills.outside
    rwa [length_flatten] at houtside

/-- The first string whose address does not fit would have a pointer to what is before it. -/
theorem pointer_lt {total : ℕ} (hlaid : LaidOut w e argv envp base m m' total) {j : ℕ}
    (hj : j < (strings argv envp).length) : base.toNat + stringOffset w argv envp j < 2 ^ w := by
  induction j using Nat.strongRecOn with
  | _ j ih =>
    by_contra hlarge
    have hpointer := pointer_eq hw hroom hloaded hj
    have hcut : pointer w e argv base m' j < 2 ^ w := hpointer ▸ Nat.mod_lt _ (Nat.two_pow_pos w)
    have hregion : (regions w e argv envp base m')[slots argv envp + j]?
        = some (pointer w e argv base m' j, (strings argv envp)[j].size + 1) := by
      rw [getElem?_regions_string, List.getElem?_eq_getElem hj, Option.map_some]
    have hin := (hlaid.inside _ (List.mem_of_getElem? hregion)).1
    -- a cell before the string has the byte that the pointer leads to
    obtain ⟨k, hk, cell, hcell, hle, hlt⟩ := Cells.exists_cell
      (show pointer w e argv base m' j - base.toNat
        < Cells.start (cells w e argv envp base) (slots argv envp + j) by
          rw [start_string]
          omega)
    have hbefore : (regions w e argv envp base m')[k]?
        = some (base.toNat + Cells.start (cells w e argv envp base) k, cell.length) :=
      getElem?_regions hcell fun i hi => by
        rw [pointer_eq hw hroom hloaded (by omega), Nat.mod_eq_of_lt (ih i (by omega) (by omega))]
    obtain ⟨hk', hregion'⟩ := List.getElem?_eq_some_iff.1 hbefore
    obtain ⟨hj', hregionj⟩ := List.getElem?_eq_some_iff.1 hregion
    have hapart := List.pairwise_iff_getElem.1 hlaid.apart k (slots argv envp + j) hk' hj' hk
    rw [hregion', hregionj] at hapart
    rcases hapart with hapart | hapart <;> dsimp only at hapart <;> omega

end Words

section Result

variable {w : ℕ} {e : Endian} {argv envp : Option (List CString)} {base : Addr} {m : AnyMemory}

/-- The slots of the environment have a number only if the last one has. -/
theorem envc_lt_of_run {argc : ℕ} {s t : LoaderState AnyMemory} {total : Addr}
    (h : (loadTo w e base ⟨argc, argv, envp⟩).run.run s = (.ok total, t))
    (henvc : envCount envp ≠ 0) : argc + envCount envp + 1 < 2 ^ 31 := by
  rcases envp with _ | env
  · exact absurd rfl henvc
  · obtain ⟨_, _, -, h⟩ := exists_of_run_bind h
    obtain ⟨_, _, -, h⟩ := exists_of_run_bind h
    obtain ⟨_, _, -, h⟩ := exists_of_run_bind h
    obtain ⟨_, _, hload, -⟩ := exists_of_run_bind h
    have hlength : envCount (some env) = env.length := rfl
    obtain ⟨n, hn⟩ := exists_slot hload (env.length - 1) (by omega)
    rw [envpSlot_eq] at hn
    split_ifs at hn with hlt
    dsimp only at hlt
    omega

theorem fits_of_laysOut (hw : w = 32 ∨ w = 64)
    (hroom : base.toNat + totalSize w argv envp ≤ size m) (h : LaysOut w e argv envp base m) :
    Fits w argv envp base := by
  obtain ⟨loader, total, s, hcreate, hrun, hlaid⟩ := h
  rw [create_eq] at hcreate
  split_ifs at hcreate with hargc
  cases hcreate
  have henvc := envc_lt_of_run hrun
  obtain ⟨s', hrun', hloaded⟩ := run_loadTo (e := e) hw hroom hargc henvc
  obtain ⟨-, rfl⟩ := Prod.mk.inj (hrun.symm.trans hrun')
  exact ⟨hargc, henvc, fun j hj => pointer_lt hw hroom hloaded hlaid hj⟩

/-- For all strings, for both word sizes and byte orders, and at every address with enough room. -/
theorem laysOut_iff (hw : w = 32 ∨ w = 64)
    (hroom : base.toNat + totalSize w argv envp ≤ size m) :
    LaysOut w e argv envp base m ↔ Fits w argv envp base := by
  refine ⟨fits_of_laysOut hw hroom, ?_⟩
  rintro ⟨hargc, henvc, hpointer⟩
  have hsize := m.size_lt
  have htotal : (BitVec.ofNat 64 (totalSize w argv envp)).toNat = totalSize w argv envp :=
    Nat.mod_eq_of_lt (by omega)
  obtain ⟨s, hrun, hloaded⟩ := run_loadTo (e := e) hw hroom hargc henvc
  refine ⟨_, _, s, (create_eq argv envp).trans (if_pos hargc), hrun, ?_⟩
  rw [htotal]
  refine laidOut hw hroom hloaded (fun j hj => ?_) hargc
  rw [pointer_eq hw hroom hloaded hj, Nat.mod_eq_of_lt (hpointer j hj)]

end Result

section Small

def emptyString : CString := ⟨[], nofun⟩

def letter : CString := ⟨[0x61#8], by decide⟩

/-- A new memory. -/
def emptyMemory (addrBits : ℕ) (h : addrBits < 64) : AnyMemory :=
  .plain (PlainMemory.create addrBits h fun _ => 0#8)

theorem size_emptyMemory (addrBits : ℕ) (h : addrBits < 64) :
    size (emptyMemory addrBits h) = 2 ^ addrBits := List.length_replicate

/-- Two arguments, one of them empty, and an environment of one string. -/
theorem laysOut_three : LaysOut 32 .big (some [letter, emptyString]) (some [letter]) 4#64
    (emptyMemory 6 (by decide)) :=
  (laysOut_iff (.inl rfl) (by rw [size_emptyMemory]; decide)).2 ⟨by decide, by decide, by decide⟩

theorem totalSize_replicate (w n : ℕ) (content : CString) :
    totalSize w (some (List.replicate n content)) none
      = guestWordSize w * (2 + n) + n * (content.size + 1) := by
  have hstrings : strings (some (List.replicate n content)) none = List.replicate n content :=
    List.append_nil _
  have hslots : slots (some (List.replicate n content)) none = 2 + n := by
    rw [slots, argCount, Option.getD_some, List.length_replicate]
    rfl
  rw [totalSize, stringOffset, hstrings, List.take_length, List.map_replicate,
    List.sum_replicate_nat, hslots]

/-- With room for all, a pointer of 32 bits does not reach beyond `2 ^ 32`, and `2 ^ 31` arguments
are not counted. -/
theorem not_laysOut :
    (2 ^ 32 + totalSize 32 (some [letter]) none ≤ size (emptyMemory 36 (by decide))
      ∧ ¬ LaysOut 32 .little (some [letter]) none 0x100000000#64 (emptyMemory 36 (by decide)))
    ∧ (totalSize 64 (some (List.replicate (2 ^ 31) letter)) none
        ≤ size (emptyMemory 36 (by decide))
      ∧ ¬ LaysOut 64 .little (some (List.replicate (2 ^ 31) letter)) none 0#64
        (emptyMemory 36 (by decide))) := by
  have hone : 2 ^ 32 + totalSize 32 (some [letter]) none ≤ size (emptyMemory 36 (by decide)) := by
    rw [size_emptyMemory]
    decide
  have hmany : totalSize 64 (some (List.replicate (2 ^ 31) letter)) none
      ≤ size (emptyMemory 36 (by decide)) := by
    rw [size_emptyMemory, totalSize_replicate]
    decide
  refine ⟨⟨hone, fun h => ?_⟩, hmany, fun h => ?_⟩
  · have hfits := fits_of_laysOut (.inl rfl) hone h
    exact absurd (hfits.pointer_lt 0 (by decide)) (by decide)
  · have hfits := fits_of_laysOut (.inr rfl) (by rwa [BitVec.toNat_zero, Nat.zero_add]) h
    have hargc := hfits.argc_lt
    rw [argCount, Option.getD_some, List.length_replicate] at hargc
    exact lt_irrefl _ hargc

end Small

end ArgvLoader

end MiptMips
