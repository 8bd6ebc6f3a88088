import Mathlib.Algebra.Field.ZMod
import Mathlib.Data.BitVec
import Mathlib.Data.ZMod.Basic
import Mathlib.RingTheory.PowerSeries.Basic

/-!
# Words as power series

The bits of a word are the coefficients of a power series over the field of two elements: the
exclusive or of two words is the sum of their series, and a left shift multiplies by a power of the
variable, as far as the word goes. Words of `w` bits are equal when their series are equal modulo
the `w`-th power, so the laws of multiplication hold for a product of words that is cut to `w` bits.
-/

namespace Bits

open PowerSeries

variable {w n : ℕ} {x y z : BitVec w}

section Coefficients

/-- The exclusive or of the first values. -/
def xorBelow (f : ℕ → Bool) : ℕ → Bool
  | 0 => false
  | n + 1 => xorBelow f n ^^ f n

def ofBool (b : Bool) : ZMod 2 := if b then 1 else 0

theorem ofBool_injective : Function.Injective ofBool := by
  decide

theorem ofBool_xor (a b : Bool) : ofBool (a ^^ b) = ofBool a + ofBool b := by
  revert a b
  decide

theorem ofBool_and (a b : Bool) : ofBool (a && b) = ofBool a * ofBool b := by
  revert a b
  decide

theorem ofBool_xorBelow (f : ℕ → Bool) :
    ∀ n, ofBool (xorBelow f n) = ∑ i ∈ Finset.range n, ofBool (f i)
  | 0 => rfl
  | n + 1 => by rw [xorBelow, ofBool_xor, ofBool_xorBelow f n, Finset.sum_range_succ]

end Coefficients

section Series

noncomputable def series (x : BitVec w) : PowerSeries (ZMod 2) := mk fun i => ofBool (x.getLsbD i)

@[simp]
theorem coeff_series (x : BitVec w) (i : ℕ) : coeff i (series x) = ofBool (x.getLsbD i) :=
  coeff_mk _ _

theorem series_xor (x y : BitVec w) : series (x ^^^ y) = series x + series y := by
  ext i
  rw [map_add, coeff_series, coeff_series, coeff_series, BitVec.getLsbD_xor, ofBool_xor]

/-- A coefficient of a product, as an exclusive or of conjunctions. -/
theorem coeff_mul_series (x y : BitVec w) (k : ℕ) : coeff k (series x * series y)
    = ofBool (xorBelow (fun i => x.getLsbD i && y.getLsbD (k - i)) (k + 1)) := by
  rw [coeff_mul, ofBool_xorBelow,
    Finset.Nat.sum_antidiagonal_eq_sum_range_succ
      (fun i j => coeff i (series x) * coeff j (series y))]
  refine Finset.sum_congr rfl fun i _ => ?_
  rw [coeff_series, coeff_series, ofBool_and]

end Series

section Modulo

/-- Two series are equal as far as words of `w` bits go. -/
def AgreeBelow (w : ℕ) (f g : PowerSeries (ZMod 2)) : Prop := X ^ w ∣ f - g

variable {f g h : PowerSeries (ZMod 2)}

theorem agreeBelow_iff : AgreeBelow w f g ↔ ∀ k < w, coeff k f = coeff k g := by
  unfold AgreeBelow
  rw [X_pow_dvd_iff]
  refine forall₂_congr fun k _ => ?_
  rw [map_sub, sub_eq_zero]

theorem AgreeBelow.refl (f : PowerSeries (ZMod 2)) : AgreeBelow w f f :=
  agreeBelow_iff.2 fun _ _ => rfl

theorem AgreeBelow.symm (hfg : AgreeBelow w f g) : AgreeBelow w g f := by
  rw [agreeBelow_iff] at hfg ⊢
  exact fun k hk => (hfg k hk).symm

theorem AgreeBelow.trans (hfg : AgreeBelow w f g) (hgh : AgreeBelow w g h) :
    AgreeBelow w f h := by
  rw [agreeBelow_iff] at hfg hgh ⊢
  exact fun k hk => (hfg k hk).trans (hgh k hk)

theorem AgreeBelow.add {f' g' : PowerSeries (ZMod 2)} (hfg : AgreeBelow w f g)
    (hfg' : AgreeBelow w f' g') : AgreeBelow w (f + f') (g + g') := by
  unfold AgreeBelow
  rw [add_sub_add_comm]
  exact dvd_add hfg hfg'

theorem AgreeBelow.mul_right (hfg : AgreeBelow w f g) (h : PowerSeries (ZMod 2)) :
    AgreeBelow w (f * h) (g * h) := by
  unfold AgreeBelow
  rw [← sub_mul]
  exact Dvd.dvd.mul_right hfg h

theorem eq_of_agreeBelow (h : AgreeBelow w (series x) (series y)) : x = y := by
  rw [agreeBelow_iff] at h
  refine BitVec.eq_of_getLsbD_eq fun i hi => ofBool_injective ?_
  rw [← coeff_series, ← coeff_series, h i hi]

/-- A left shift multiplies, and the bits that leave the word are lost. -/
theorem agreeBelow_shiftLeft (x : BitVec w) (n : ℕ) :
    AgreeBelow w (series (x <<< n)) (X ^ n * series x) := by
  rw [agreeBelow_iff]
  intro k hk
  rw [coeff_series, coeff_X_pow_mul', coeff_series, BitVec.getLsbD_shiftLeft]
  by_cases hn : n ≤ k
  · have hge : ¬ k < n := by omega
    simp [hk, hn, hge]
  · have hlt : k < n := by omega
    simp [hlt, hn, ofBool]

end Modulo

section Product

/-- The product of two words, as far as words of `w` bits go. -/
def IsProduct (x y z : BitVec w) : Prop := AgreeBelow w (series z) (series x * series y)

variable {a b c ab ac bc abc abc' : BitVec w}

theorem isProduct_iff : IsProduct x y z
    ↔ ∀ k < w, z.getLsbD k = xorBelow (fun i => x.getLsbD i && y.getLsbD (k - i)) (k + 1) := by
  unfold IsProduct
  rw [agreeBelow_iff]
  refine forall₂_congr fun k _ => ?_
  rw [coeff_series, coeff_mul_series]
  exact ofBool_injective.eq_iff

theorem IsProduct.symm (h : IsProduct x y z) : IsProduct y x z := by
  unfold IsProduct at h ⊢
  rwa [mul_comm]

/-- A product is unique. -/
theorem IsProduct.eq {z' : BitVec w} (h : IsProduct x y z) (h' : IsProduct x y z') : z = z' :=
  eq_of_agreeBelow (AgreeBelow.trans h (AgreeBelow.symm h'))

theorem IsProduct.xor (hb : IsProduct a b ab) (hc : IsProduct a c ac) :
    IsProduct a (b ^^^ c) (ab ^^^ ac) := by
  unfold IsProduct
  rw [series_xor, series_xor, mul_add]
  exact hb.add hc

theorem IsProduct.assoc (hab : IsProduct a b ab) (hbc : IsProduct b c bc)
    (hl : IsProduct ab c abc) (hr : IsProduct a bc abc') : abc = abc' := by
  have hleft : AgreeBelow w (series abc) (series a * series b * series c) :=
    hl.trans (hab.mul_right (series c))
  have hright : AgreeBelow w (series abc') (series b * series c * series a) :=
    hr.symm.trans (hbc.mul_right (series a))
  rw [mul_comm, ← mul_assoc] at hright
  exact eq_of_agreeBelow (hleft.trans hright.symm)

end Product

end Bits
