import Mathlib.Algebra.Group.Int.Defs
import MiptMips.Lib.Stream

/-!
# Numbers as text

What the standard library prints for a signed number, and what it reads from a text: after blanks
and a sign, a prefix tells the base, and the digits are those up to the first character that is
none.
-/

namespace Machines

namespace IntegerText

/-- `<<` of a signed number. -/
def decimal (value : ℤ) : List (BitVec 8) :=
  (if value < 0 then [0x2d#8] else [])
    ++ (Nat.toDigits 10 value.natAbs).map fun c => BitVec.ofNat 8 c.toNat

def digitValue (c : BitVec 8) : Option ℕ :=
  if 0x30#8 ≤ c ∧ c ≤ 0x39#8 then some (c.toNat - 0x30)
  else if 0x41#8 ≤ c ∧ c ≤ 0x5a#8 then some (c.toNat - 0x41 + 10)
  else if 0x61#8 ≤ c ∧ c ≤ 0x7a#8 then some (c.toNat - 0x61 + 10)
  else none

/-- The digits that a text starts with. -/
def digits (base : ℕ) : List (BitVec 8) → List ℕ
  | [] => []
  | c :: text =>
    match digitValue c with
    | some d => if d < base then d :: digits base text else []
    | none => []

def number (base : ℕ) (ds : List ℕ) : ℕ := ds.foldl (fun n d => base * n + d) 0

/-- The sign of a text, and how long it is. -/
def sign : List (BitVec 8) → ℤ × ℕ
  | c :: _ => if c = 0x2d#8 then (-1, 1) else if c = 0x2b#8 then (1, 1) else (1, 0)
  | [] => (1, 0)

/-- The base that the prefix of a text tells, and how long the prefix is. A zero that is not
followed by an `x` and a digit is a digit itself. -/
def base : List (BitVec 8) → ℕ × ℕ
  | z :: x :: text =>
    if z = 0x30#8 ∧ (x = 0x78#8 ∨ x = 0x58#8) ∧ (digits 16 text).length ≠ 0 then (16, 2)
    else if z = 0x30#8 then (8, 0) else (10, 0)
  | [z] => if z = 0x30#8 then (8, 0) else (10, 0)
  | [] => (10, 0)

inductive ConversionError where
  | invalidArgument
  | outOfRange
  deriving DecidableEq, Repr

/-- `std::stoll` with base zero: the number, and how many characters were used. -/
def stoll (text : List (BitVec 8)) : Except ConversionError (ℤ × ℕ) :=
  let blanks := (text.takeWhile Stream.isSpace).length
  let (sgn, signLength) := sign (text.drop blanks)
  let (radix, prefixLength) := base (text.drop (blanks + signLength))
  let ds := digits radix (text.drop (blanks + signLength + prefixLength))
  let value := sgn * number radix ds
  if ds.isEmpty then .error .invalidArgument
  else if value < -2 ^ 63 ∨ 2 ^ 63 ≤ value then .error .outOfRange
  else .ok (value, blanks + signLength + prefixLength + ds.length)

section Decimal

variable {text : List (BitVec 8)} {n : ℤ} {m : ℕ}

/-- The digits of a number as it is printed. -/
def printed (m : ℕ) : List (BitVec 8) := (Nat.toDigits 10 m).map fun c => BitVec.ofNat 8 c.toNat

theorem decimal_of_nonneg (h : 0 ≤ n) : decimal n = printed n.natAbs := by
  rw [decimal, if_neg (Int.not_lt.2 h)]
  rfl

theorem decimal_of_neg (h : n < 0) : decimal n = 0x2d#8 :: printed n.natAbs := by
  rw [decimal, if_pos h]
  rfl

theorem printed_ne_nil : printed m ≠ [] := by
  simp [printed, Nat.toDigits_ne_nil]

theorem toNat_of_mem_toDigits {c : Char} (h : c ∈ Nat.toDigits 10 m) :
    48 ≤ c.toNat ∧ c.toNat ≤ 57 := by
  have hdigit : c.isDigit := Nat.isDigit_of_mem_toDigits (by decide) (by decide) h
  simpa [Char.isDigit, UInt32.le_iff_toNat_le] using hdigit

theorem digitValue_ofNat {k : ℕ} (h : 48 ≤ k ∧ k ≤ 57) :
    digitValue (BitVec.ofNat 8 k) = some (k - 48) := by
  have hk : (BitVec.ofNat 8 k).toNat = k := Nat.mod_eq_of_lt (by omega)
  rw [digitValue, if_pos ⟨by simpa [BitVec.le_def, hk] using h.1,
    by simpa [BitVec.le_def, hk] using h.2⟩, hk]

/-- A printed digit is neither a blank nor a sign. -/
theorem of_mem_printed {c : BitVec 8} (h : c ∈ printed m) :
    Stream.isSpace c = false ∧ c ≠ 0x2d#8 ∧ c ≠ 0x2b#8 := by
  obtain ⟨d, hd, rfl⟩ := List.mem_map.1 h
  have hdigit := toNat_of_mem_toDigits hd
  have hk : (BitVec.ofNat 8 d.toNat).toNat = d.toNat := Nat.mod_eq_of_lt (by omega)
  generalize BitVec.ofNat 8 d.toNat = c at hk
  refine ⟨?_, ?_, ?_⟩
  · simp [Stream.isSpace, BitVec.le_def, ← BitVec.toNat_inj, hk]
    omega
  · rintro rfl
    simp at hk
    omega
  · rintro rfl
    simp at hk
    omega

/-- All digits are taken. -/
theorem digits_map {radix : ℕ} : ∀ {cs : List Char},
    (∀ c ∈ cs, 48 ≤ c.toNat ∧ c.toNat ≤ 57 ∧ c.toNat - 48 < radix) →
      digits radix (cs.map fun c => BitVec.ofNat 8 c.toNat) = cs.map fun c => c.toNat - 48
  | [], _ => rfl
  | c :: cs, h => by
    obtain ⟨hlo, hhi, hlt⟩ := h c List.mem_cons_self
    rw [List.map_cons, digits, digitValue_ofNat ⟨hlo, hhi⟩]
    dsimp only
    rw [if_pos hlt, digits_map fun d hd => h d (List.mem_cons_of_mem _ hd), List.map_cons]

theorem printed_of_lt (h : m < 10) : printed m = [BitVec.ofNat 8 (48 + m)] := by
  rw [printed, Nat.toDigits_of_lt_base h, List.map_singleton, Nat.toNat_digitChar_of_lt_ten h]

theorem printed_of_le (h : 10 ≤ m) :
    printed m = printed (m / 10) ++ [BitVec.ofNat 8 (m % 10).digitChar.toNat] := by
  rw [printed, Nat.toDigits_of_base_le (by decide) h, List.map_append, List.map_singleton, printed]

/-- Only zero starts with a zero. -/
theorem head_printed (hm : 0 < m) : (printed m).head? ≠ some 0x30#8 := by
  induction m using Nat.strongRecOn with
  | _ m ih =>
    by_cases h : m < 10
    · have hne : BitVec.ofNat 8 (48 + m) ≠ 0x30#8 := by
        rw [ne_eq, ← BitVec.toNat_inj, BitVec.toNat_ofNat, BitVec.toNat_ofNat]
        omega
      rw [printed_of_lt h, List.head?_singleton]
      exact fun hc => hne (Option.some.inj hc)
    · rw [printed_of_le (Nat.not_lt.1 h), List.head?_append_of_ne_nil _ printed_ne_nil]
      exact ih (m / 10) (by omega) (by omega)

theorem base_of_head (h : text.head? ≠ some 0x30#8) : base text = (10, 0) := by
  rcases text with _ | ⟨z, _ | ⟨x, text⟩⟩
  · rfl
  · exact if_neg fun hz => h (congrArg some hz)
  · have hz : z ≠ 0x30#8 := fun hz => h (congrArg some hz)
    simp [base, hz]

/-- The digits of a printed number, in the base that is told, are its value. -/
theorem number_printed : ∃ radix, base (printed m) = (radix, 0)
    ∧ number radix (digits radix (printed m)) = m
    ∧ (digits radix (printed m)).length = (printed m).length := by
  rcases Nat.eq_zero_or_pos m with rfl | hm
  · exact ⟨8, rfl, rfl, rfl⟩
  · refine ⟨10, base_of_head (head_printed hm), ?_⟩
    have hdigits : digits 10 (printed m) = (Nat.toDigits 10 m).map fun c => c.toNat - 48 := by
      refine digits_map fun c hc => ?_
      have hc := toNat_of_mem_toDigits hc
      omega
    rw [hdigits]
    constructor
    · rw [number, List.foldl_map]
      exact Nat.ofDigitChars_eq_foldl.symm.trans Nat.ofDigitChars_ten_toDigits
    · simp [printed]

theorem not_isSpace_of_mem_decimal {c : BitVec 8} (h : c ∈ decimal n) :
    Stream.isSpace c = false := by
  by_cases hn : n < 0
  · rw [decimal_of_neg hn] at h
    rcases List.mem_cons.1 h with rfl | h
    · rfl
    · exact (of_mem_printed h).1
  · rw [decimal_of_nonneg (Int.not_lt.1 hn)] at h
    exact (of_mem_printed h).1

theorem takeWhile_decimal : (decimal n).takeWhile Stream.isSpace = [] := by
  rcases htext : decimal n with _ | ⟨c, text⟩
  · rfl
  · have hc : Stream.isSpace c = false := not_isSpace_of_mem_decimal (htext ▸ List.mem_cons_self)
    rw [List.takeWhile_cons_of_neg (by simp [hc])]

/-- The sign of the text of a number, with what is left of it. -/
theorem sign_decimal : ∃ s k, sign (decimal n) = (s, k) ∧ (decimal n).drop k = printed n.natAbs
    ∧ (decimal n).length = k + (printed n.natAbs).length ∧ s * n.natAbs = n := by
  by_cases h : n < 0
  · rw [decimal_of_neg h]
    exact ⟨-1, 1, rfl, rfl, by rw [List.length_cons, Nat.add_comm], by omega⟩
  · rw [decimal_of_nonneg (Int.not_lt.1 h)]
    refine ⟨1, 0, ?_, rfl, (Nat.zero_add _).symm, by omega⟩
    obtain ⟨c, text, htext⟩ := List.exists_cons_of_ne_nil (printed_ne_nil (m := n.natAbs))
    obtain ⟨-, hminus, hplus⟩ := of_mem_printed (htext ▸ List.mem_cons_self (a := c) (l := text))
    rw [htext, sign, if_neg hminus, if_neg hplus]

theorem decimal_ne_nil : decimal n ≠ [] := by
  simp [decimal, Nat.toDigits_ne_nil]

/-- A number that is printed is read back, if it fits. -/
theorem stoll_decimal (h : -2 ^ 63 ≤ n ∧ n < 2 ^ 63) :
    stoll (decimal n) = .ok (n, (decimal n).length) := by
  obtain ⟨s, k, hsign, hdrop, hlen, hvalue⟩ := sign_decimal (n := n)
  obtain ⟨radix, hbase, hnumber, hdigits⟩ := number_printed (m := n.natAbs)
  have hne : (digits radix (printed n.natAbs)).isEmpty = false := by
    rw [List.isEmpty_eq_false_iff, ← List.length_pos_iff, hdigits, List.length_pos_iff]
    exact printed_ne_nil
  simp only [stoll, takeWhile_decimal, List.length_nil, List.drop_zero, hsign, Nat.zero_add, hdrop,
    hbase, Nat.add_zero, hnumber, hvalue, hne, hdigits, ← hlen, Bool.false_eq_true, if_false]
  rw [if_neg (by omega)]

/-- Different numbers have different texts. -/
theorem decimal_injective : Function.Injective decimal := by
  intro n n' h
  obtain ⟨s, k, hsign, hdrop, -, hvalue⟩ := sign_decimal (n := n)
  obtain ⟨s', k', hsign', hdrop', -, hvalue'⟩ := sign_decimal (n := n')
  obtain ⟨radix, hbase, hnumber, -⟩ := number_printed (m := n.natAbs)
  obtain ⟨radix', hbase', hnumber', -⟩ := number_printed (m := n'.natAbs)
  obtain ⟨rfl, rfl⟩ := Prod.mk.inj (hsign.symm.trans (h ▸ hsign'))
  have hprinted : printed n.natAbs = printed n'.natAbs := by rw [← hdrop, ← hdrop', h]
  obtain ⟨rfl, -⟩ := Prod.mk.inj (hbase.symm.trans (hprinted ▸ hbase'))
  rw [← hvalue, ← hvalue', ← hnumber, ← hnumber', hprinted]

end Decimal

end IntegerText

end Machines
