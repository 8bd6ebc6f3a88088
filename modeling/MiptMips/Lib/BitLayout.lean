import Mathlib.Data.BitVec
import Mathlib.Tactic.Common

/-!
# Values scattered over words

A layout lists runs of bits: where each of them is in a value, and where it is in the word. A value
is placed into a word and gathered from it again bit by bit.

A decoder that only masks, shifts and joins is known by the words of a single bit: two of them that
agree there agree on every word.
-/

namespace Bits

/-- The word with the given bits. -/
def ofBits (m : ℕ) (bit : ℕ → Bool) : BitVec m :=
  (BitVec.ofBoolListLE ((List.range m).map bit)).setWidth m

@[simp]
theorem getLsbD_ofBits (m : ℕ) (bit : ℕ → Bool) (i : ℕ) :
    (ofBits m bit).getLsbD i = (decide (i < m) && bit i) := by
  rw [ofBits, BitVec.getLsbD_setWidth, BitVec.getLsbD_ofBoolListLE, List.getD_eq_getElem?_getD]
  by_cases h : i < m <;> simp [h]

/-- The bits `hi` to `lo` of a value, from the bit `pos` of the word up. -/
structure Run where
  hi : ℕ
  lo : ℕ
  pos : ℕ

abbrev Layout := List Run

namespace Layout

variable {k m n : ℕ} (layout : Layout)

section Defs

/-- The bit of the value that a bit of the word holds. -/
def source (j : ℕ) : Option ℕ :=
  (layout.find? fun run => decide (run.pos ≤ j) && decide (j ≤ run.pos + (run.hi - run.lo))).map
    fun run => run.lo + (j - run.pos)

/-- The bit of the word that holds a bit of the value. -/
def target (i : ℕ) : Option ℕ :=
  (layout.find? fun run => decide (run.lo ≤ i) && decide (i ≤ run.hi)).map
    fun run => run.pos + (i - run.lo)

def place (value : BitVec k) (word : BitVec m) : BitVec m :=
  ofBits m fun j => match layout.source j with
    | some i => value.getLsbD i
    | none => word.getLsbD j

def gather (n : ℕ) (word : BitVec m) : BitVec n :=
  ofBits n fun i => match layout.target i with
    | some j => word.getLsbD j
    | none => false

/-- No bit of the value has two places, and no bit of the word holds two. -/
def Fits (n m : ℕ) : Prop :=
  (∀ i < n, ∀ j ∈ layout.target i, j < m ∧ layout.source j = some i)
    ∧ ∀ j < m, ∀ i ∈ layout.source j, i < n ∧ layout.target i = some j

instance (n m : ℕ) : Decidable (layout.Fits n m) := inferInstanceAs (Decidable (_ ∧ _))

/-- No bit of the value is lost: those without a place are zero. -/
def Covers (value : BitVec k) : Prop :=
  ∀ i < k, layout.target i = none → value.getLsbD i = false

instance (value : BitVec k) : Decidable (layout.Covers value) :=
  inferInstanceAs (Decidable (∀ i < k, layout.target i = none → value.getLsbD i = false))

end Defs

section Place

variable {layout}

theorem getLsbD_place (value : BitVec k) (word : BitVec m) (j : ℕ) :
    (layout.place value word).getLsbD j = (decide (j < m) && match layout.source j with
      | some i => value.getLsbD i
      | none => word.getLsbD j) :=
  getLsbD_ofBits _ _ _

theorem getLsbD_gather (word : BitVec m) (i : ℕ) :
    (layout.gather n word).getLsbD i = (decide (i < n) && match layout.target i with
      | some j => word.getLsbD j
      | none => false) :=
  getLsbD_ofBits _ _ _

/-- What is placed is gathered, whatever the rest of the word is. -/
theorem gather_place (hfits : layout.Fits n m) {value : BitVec k} (hcovers : layout.Covers value)
    (word : BitVec m) : layout.gather n (layout.place value word) = value.setWidth n := by
  apply BitVec.eq_of_getLsbD_eq
  intro i hi
  rw [getLsbD_gather, BitVec.getLsbD_setWidth]
  rcases ht : layout.target i with _ | j
  · by_cases hk : i < k
    · simp [hcovers i hk ht]
    · simp [BitVec.getLsbD_of_ge value i (Nat.le_of_not_lt hk)]
  · obtain ⟨hj, hs⟩ := hfits.1 i hi j ht
    dsimp only
    rw [getLsbD_place, hs]
    simp [hj, hi]

/-- Placing a value leaves the bits that it has none of. -/
theorem place_and {value : BitVec k} {word mask : BitVec m}
    (h : ∀ j < m, mask.getLsbD j → layout.source j = none) :
    layout.place value word &&& mask = word &&& mask := by
  apply BitVec.eq_of_getLsbD_eq
  intro j hj
  rw [BitVec.getLsbD_and, BitVec.getLsbD_and, getLsbD_place]
  rcases hm : mask.getLsbD j with _ | _
  · rw [Bool.and_false, Bool.and_false]
  · rw [h j hj hm]
    simp [hj]

theorem gather_twoPow (hfits : layout.Fits n m) {j : ℕ} (hj : j < m) :
    layout.gather n (BitVec.twoPow m j) = match layout.source j with
      | some i => BitVec.twoPow n i
      | none => 0#n := by
  apply BitVec.eq_of_getLsbD_eq
  intro i hi
  rw [getLsbD_gather]
  rcases ht : layout.target i with _ | j'
  · rcases hs : layout.source j with _ | i'
    · simp
    · have hne : i' ≠ i := by
        rintro rfl
        rw [(hfits.2 j hj i' hs).2] at ht
        cases ht
      simp [hne]
  · obtain ⟨hj', hs'⟩ := hfits.1 i hi j' ht
    rcases hs : layout.source j with _ | i'
    · have hne : j ≠ j' := by
        rintro rfl
        rw [hs'] at hs
        cases hs
      simp [hne]
    · have hiff : j' = j ↔ i = i' := by
        constructor
        · rintro rfl
          rw [hs'] at hs
          cases hs
          rfl
        · rintro rfl
          have := (hfits.2 j hj _ hs).2
          rw [ht] at this
          cases this
          rfl
      simp [hi, hj', hiff]

end Place

end Layout

/-- Nothing but masks, shifts and joins. -/
structure Selects {m n : ℕ} (f : BitVec m → BitVec n) : Prop where
  zero : f 0#m = 0#n
  or (x y : BitVec m) : f (x ||| y) = f x ||| f y

namespace Selects

variable {k m n : ℕ} {f g : BitVec m → BitVec n}

protected theorem id : Selects (fun x : BitVec m => x) := ⟨rfl, fun _ _ => rfl⟩

theorem const_zero : Selects (fun _ : BitVec m => 0#n) := ⟨rfl, fun _ _ => BitVec.or_zero.symm⟩

theorem and_const (hf : Selects f) (mask : BitVec n) : Selects fun x => f x &&& mask := by
  refine ⟨by simp [hf.zero], fun x y => ?_⟩
  apply BitVec.eq_of_getLsbD_eq
  intro i _
  simp [hf.or, Bool.and_or_distrib_right]

theorem ushiftRight (hf : Selects f) (shift : ℕ) : Selects fun x => f x >>> shift :=
  ⟨by simp [hf.zero], fun x y => by simp [hf.or, BitVec.ushiftRight_or_distrib]⟩

theorem shiftLeft (hf : Selects f) (shift : ℕ) : Selects fun x => f x <<< shift :=
  ⟨by simp [hf.zero], fun x y => by simp [hf.or, BitVec.shiftLeft_or_distrib]⟩

theorem join (hf : Selects f) (hg : Selects g) : Selects fun x => f x ||| g x := by
  refine ⟨by simp [hf.zero, hg.zero], fun x y => ?_⟩
  rw [hf.or, hg.or]
  ac_rfl

theorem gather (layout : Layout) : Selects (layout.gather n : BitVec m → BitVec n) := by
  constructor
  · apply BitVec.eq_of_getLsbD_eq
    intro i _
    rw [Layout.getLsbD_gather]
    rcases layout.target i with _ | j <;> simp
  · intro x y
    apply BitVec.eq_of_getLsbD_eq
    intro i _
    rw [BitVec.getLsbD_or, Layout.getLsbD_gather, Layout.getLsbD_gather, Layout.getLsbD_gather]
    rcases layout.target i with _ | j <;> simp [Bool.and_or_distrib_left]

/-- The low bits of a word, one more at a time. -/
theorem setWidth_succ (x : BitVec m) (k : ℕ) : (x.setWidth (k + 1)).setWidth m
    = (x.setWidth k).setWidth m ||| if x.getLsbD k then BitVec.twoPow m k else 0#m := by
  apply BitVec.eq_of_getLsbD_eq
  intro i hi
  have hbit : (if x.getLsbD k then BitVec.twoPow m k else 0#m).getLsbD i
      = (x.getLsbD k && decide (k = i)) := by
    split_ifs with hx <;> simp [hx, hi, eq_comm]
  rw [BitVec.getLsbD_or, hbit]
  simp only [BitVec.getLsbD_setWidth, hi, decide_true, Bool.true_and]
  rcases Nat.lt_trichotomy i k with h | rfl | h
  · simp [h, h.ne', Nat.lt_succ_of_lt h]
  · simp
  · have : ¬ i < k + 1 := by omega
    simp [h.ne, Nat.not_lt_of_gt h, this]

/-- The words of a single bit decide. -/
protected theorem ext (hf : Selects f) (hg : Selects g)
    (h : ∀ i < m, f (BitVec.twoPow m i) = g (BitVec.twoPow m i)) : f = g := by
  funext x
  have hlow : ∀ k ≤ m, f ((x.setWidth k).setWidth m) = g ((x.setWidth k).setWidth m) := by
    intro k
    induction k with
    | zero =>
      intro _
      have hz : (x.setWidth 0).setWidth m = 0#m := by
        apply BitVec.eq_of_getLsbD_eq
        simp
      rw [hz, hf.zero, hg.zero]
    | succ k ih =>
      intro hk
      rw [setWidth_succ, hf.or, hg.or, ih (by omega)]
      congr 1
      split_ifs
      · exact h k (by omega)
      · rw [hf.zero, hg.zero]
  have := hlow m le_rfl
  rwa [BitVec.setWidth_eq, BitVec.setWidth_eq] at this

end Selects

end Bits
