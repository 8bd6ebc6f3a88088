import MiptMips.Infra.Macro

/-!
# Primitives of the execution units

Bit counting, rotations, overflow tests, the masks of the bit permutations and the multiplication
and division routines, each on a value of its own width.
-/

namespace MiptMips

variable {w : ℕ}

section Counting

def popcount (x : BitVec w) : ℕ := (List.range w).countP fun i => x.getLsbD i

def countLeadingZeroes (x : BitVec w) : ℕ :=
  ((List.range w).reverse.takeWhile fun i => !x.getLsbD i).length

def countLeadingOnes (x : BitVec w) : ℕ :=
  ((List.range w).reverse.takeWhile fun i => x.getLsbD i).length

def countTrailingZeroes (x : BitVec w) : ℕ :=
  ((List.range w).takeWhile fun i => !x.getLsbD i).length

end Counting

section Shifts

def circLs (x : BitVec w) (shamt : ℕ) : BitVec w :=
  if w = 128 then
    if shamt = 0 ∨ shamt = w then x else (x <<< shamt) ||| (x >>> (w - shamt))
  else x.rotateLeft shamt

def circRs (x : BitVec w) (shamt : ℕ) : BitVec w :=
  if w = 128 then circLs x (w - shamt) else x.rotateRight shamt

/-- The shift of the signed type, except for 128 bits, where the sign is handled by hand. -/
def arithmeticRs (value : BitVec w) (shamt : ℕ) : BitVec w :=
  if w ≠ 128 then value.sshiftRight shamt
  else if value &&& msbSet w = 0#w then value >>> shamt
  else onesRs value shamt

def alignUp (N : ℕ) (value : BitVec w) : BitVec w := ((value + bitmask w N) >>> N) <<< N

def trapVectorAddress (value : BitVec w) : BitVec w := value >>> 2 &&& ~~~bitmask w 3

theorem toNat_bitmask_two (hw : 2 ≤ w) : (bitmask w 2).toNat = 3 := by
  have hb : bitmask w 2 = 3#w := by
    refine BitVec.eq_of_getLsbD_eq fun i hi => ?_
    rw [getLsbD_bitmask, BitVec.getLsbD_ofNat]
    rcases i with _ | _ | i
    · rfl
    · rfl
    · have : Nat.testBit 3 (i + 2) = false := Nat.testBit_lt_two_pow
        (Nat.lt_of_lt_of_le (by decide : 3 < 2 ^ 2) (Nat.pow_le_pow_right (by decide) (by omega)))
      simp [this]
  have h4 : 2 ^ 2 ≤ 2 ^ w := Nat.pow_le_pow_right (by decide) hw
  rw [hb, BitVec.toNat_ofNat, Nat.mod_eq_of_lt (by omega)]

/-- A multiple of four is aligned already. -/
theorem alignUp_eq (hw : 2 ≤ w) {v : BitVec w} (h : v.toNat % 4 = 0) : alignUp 2 v = v := by
  obtain ⟨k, hk⟩ : 2 ^ 2 ∣ 2 ^ w := Nat.pow_dvd_pow 2 hw
  have hlt : v.toNat < 4 * k := hk ▸ v.isLt
  have h3 : v.toNat + 3 < 2 ^ 2 * k := by omega
  apply BitVec.eq_of_toNat_eq
  rw [alignUp, BitVec.toNat_shiftLeft, BitVec.toNat_ushiftRight, BitVec.toNat_add,
    toNat_bitmask_two hw, Nat.shiftRight_eq_div_pow, Nat.shiftLeft_eq, hk,
    Nat.mod_eq_of_lt h3, Nat.mod_eq_of_lt (by omega)]
  omega

end Shifts

section Overflow

def isNegative (value : BitVec w) : Bool := value &&& msbSet w != 0#w

def isPositive (value : BitVec w) : Bool := !isNegative value && value != 0#w

/-- The operands keep their own width; only the result has the width `T` of the operation. -/
def testAdditionOverflow (T : ℕ) (val1 val2 : BitVec w) : BitVec T × Bool :=
  let result := val1.setWidth T + val2.setWidth T
  (result, (isPositive val1 && isPositive val2 && isNegative result)
    || (isNegative val1 && isNegative val2 && isPositive result))

def testSubtractionOverflow (T : ℕ) (val1 val2 : BitVec w) : BitVec T × Bool :=
  let result := val1.setWidth T - val2.setWidth T
  (result, (isPositive val1 && isNegative val2 && isNegative result)
    || (isNegative val1 && isPositive val2 && isPositive result))

end Overflow

section Permutations

def interleavedMask (w density : ℕ) : BitVec w :=
  (List.range w).foldl
    (fun result i => if (i >>> density) % 2 = 0 then result ||| lsbSet w <<< i else result) 0#w

def shuffleMask (w shift density : ℕ) : BitVec w :=
  (List.range w).foldl
    (fun result i => if (i >>> density) % 4 = shift then result ||| lsbSet w <<< i else result) 0#w

/-- The two halves of one level of a generalized reverse. -/
def interleave (value : BitVec w) (i : ℕ) : BitVec w :=
  ((value &&& interleavedMask w i) <<< (1 <<< i)) |||
    ((value &&& ~~~interleavedMask w i) >>> (1 <<< i))

def genReverse (value : BitVec w) (shamt : ℕ) : BitVec w :=
  (List.range (logBitwidth w)).foldl
    (fun value i => if shamt &&& (1 <<< i) ≠ 0 then interleave value i else value) value

def genOrCombine (value : BitVec w) (shamt : ℕ) : BitVec w :=
  (List.range (logBitwidth w)).foldl
    (fun value i => if shamt &&& (1 <<< i) ≠ 0 then value ||| interleave value i else value) value

def bitShuffle (value : BitVec w) (level : ℕ) : BitVec w :=
  let maskL := shuffleMask w 2 level
  let maskR := shuffleMask w 1 level
  let shamt := 1 <<< level
  (value &&& ~~~(maskL ||| maskR)) ||| (((value <<< shamt) &&& maskL) ||| ((value >>> shamt) &&& maskR))

def unshuffle (value control : BitVec w) : BitVec w :=
  (List.range (logBitwidth w - 1)).foldl
    (fun value i => if (control >>> i) &&& 1#w ≠ 0#w then bitShuffle value i else value) value

def shuffle (value control : BitVec w) : BitVec w :=
  (List.range (logBitwidth w - 1)).reverse.foldl
    (fun value i => if (control >>> i) &&& 1#w ≠ 0#w then bitShuffle value i else value) value

def carrylessMul (T : ℕ) (x y : BitVec w) : BitVec w :=
  (List.range T).foldl
    (fun dst index => if (y >>> index) &&& 1#w ≠ 0#w then dst ^^^ (x <<< index) else dst) 0#w

end Permutations

section Multiplication

def isSignedDivisionOverflow (signed : Bool) (x y : BitVec w) : Bool :=
  signed && y == allOnes w && x == msbSet w

/-- The low and the high half of the product. -/
def mipsMultiplication (signed : Bool) (x y : BitVec w) : BitVec w × BitVec w :=
  let value : BitVec (2 * w) :=
    if signed then x.signExtend (2 * w) * y.signExtend (2 * w)
    else x.setWidth (2 * w) * y.setWidth (2 * w)
  (value.setWidth w, (value >>> w).setWidth w)

/-- The quotient and the remainder. -/
def mipsDivision (signed : Bool) (x y : BitVec w) : BitVec w × BitVec w :=
  if y = 0#w ∨ isSignedDivisionOverflow signed x y then (0#w, 0#w)
  else if signed then (x.sdiv y, x.srem y)
  else (x / y, x % y)

def riscvMultiplicationLow (x y : BitVec w) : BitVec w := x * y &&& allOnes w

def riscvMultiplicationHighUu (x y : BitVec w) : BitVec w :=
  let halfwidth := w / 2
  let halfMask := allOnes w >>> halfwidth
  let x1 := x >>> halfwidth
  let x0 := x &&& halfMask
  let y1 := y >>> halfwidth
  let y0 := y &&& halfMask
  let lowPart :=
    (((x0 * y0) >>> halfwidth) + ((x0 * y1) &&& halfMask) + ((x1 * y0) &&& halfMask)) >>> halfwidth
  let highPart := x1 * y1 + ((x0 * y1) >>> halfwidth) + ((x1 * y0) >>> halfwidth)
  highPart + lowPart

/-- The absolute value as the source takes it, given the sign bit as a value. -/
def absBy (isNeg x : BitVec w) : BitVec w := if isNeg ≠ 0#w then ~~~(x - 1#w) else x

def negateHigh (hiAbs loAbs : BitVec w) : BitVec w :=
  if loAbs = 0#w then ~~~hiAbs + 1#w else ~~~hiAbs

def riscvMultiplicationHighSs (x y : BitVec w) : BitVec w :=
  let xIsNeg := x >>> (w - 1)
  let yIsNeg := y >>> (w - 1)
  let xAbs := absBy xIsNeg x
  let yAbs := absBy yIsNeg y
  let hiAbs := riscvMultiplicationHighUu xAbs yAbs
  let loAbs := riscvMultiplicationLow xAbs yAbs
  if xIsNeg ^^^ yIsNeg ≠ 0#w then negateHigh hiAbs loAbs else hiAbs

def riscvMultiplicationHighSu (x y : BitVec w) : BitVec w :=
  let xIsNeg := x >>> (w - 1)
  let xAbs := absBy xIsNeg x
  let hiAbs := riscvMultiplicationHighUu xAbs y
  let loAbs := riscvMultiplicationLow xAbs y
  if xIsNeg ≠ 0#w then negateHigh hiAbs loAbs else hiAbs

def riscvDivision (signed : Bool) (x y : BitVec w) : BitVec w :=
  if y = 0#w then allOnes w
  else if isSignedDivisionOverflow signed x y then msbSet w
  else if signed then x.sdiv y else x / y

def riscvRemainder (signed : Bool) (x y : BitVec w) : BitVec w :=
  if y = 0#w then x
  else if isSignedDivisionOverflow signed x y then 0#w
  else if signed then x.srem y else x % y

end Multiplication

end MiptMips
