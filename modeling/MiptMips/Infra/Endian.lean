import MiptMips.Infra.Macro

/-!
# Byte order

A value of `w` bits is `w / 8` bytes. The packing loops of the source keep the value built so far
and the shift of the next byte; what they compute is that bit `i` of the value is bit `i % 8` of
byte `i / 8`, counted from the first byte in little-endian order and from the last in big-endian.
-/

namespace MiptMips

inductive Endian where
  | little
  | big
  deriving DecidableEq, Repr

section Pack

variable {w : ℕ}

/-- One turn of the packing loop: the byte goes to the current shift. -/
def packByte (value : BitVec w) (shift : ℕ) (el : Byte) : BitVec w :=
  value ||| (el.setWidth w <<< shift)

def packLe (value : BitVec w) (shift : ℕ) : List Byte → BitVec w
  | [] => value
  | el :: array => packLe (packByte value shift el) (shift + 8) array

def packBe (value : BitVec w) (shift : ℕ) : List Byte → BitVec w
  | [] => value
  | el :: array => packBe (packByte value shift el) (shift - 8) array

def packArrayLe (w : ℕ) (array : List Byte) : BitVec w := packLe 0#w 0 array

def packArrayBe (w : ℕ) (array : List Byte) : BitVec w :=
  packBe 0#w ((array.length - 1) * 8) array

def unpackArrayLe (value : BitVec w) : List Byte :=
  (List.range (w / 8)).map fun i => (value >>> (8 * i)).setWidth 8

def unpackArrayBe (value : BitVec w) : List Byte :=
  (List.range (w / 8)).map fun i => (value >>> (8 * (w / 8 - 1 - i))).setWidth 8

def packArray (w : ℕ) : Endian → List Byte → BitVec w
  | .little => packArrayLe w
  | .big => packArrayBe w

def unpackArray : Endian → BitVec w → List Byte
  | .little => unpackArrayLe
  | .big => unpackArrayBe

/-- The first bytes of a value, for the host. -/
def putValueToPointer (e : Endian) (value : BitVec w) (size : ℕ) : List Byte :=
  (unpackArray e value).take size

/-- A value of the first bytes of a host buffer, and zeroes. -/
def getValueFromPointer (w : ℕ) (e : Endian) (buf : List Byte) (size : ℕ) : BitVec w :=
  packArray w e (buf.take size ++ List.replicate (w / 8 - size) 0#8)

def swapEndian (value : BitVec w) : BitVec w := packArrayLe w (unpackArrayBe value)

end Pack

section Bits

variable {w : ℕ}

/-- Bit `i` of a list of bytes read in little-endian order. -/
def bitLe (array : List Byte) (i : ℕ) : Bool := (array.getD (i / 8) 0#8).getLsbD (i % 8)

theorem getLsbD_packByte (value : BitVec w) (shift : ℕ) (el : Byte) (i : ℕ) (hi : i < w) :
    (packByte value shift el).getLsbD i
      = (value.getLsbD i || (decide (shift ≤ i) && el.getLsbD (i - shift))) := by
  rw [packByte, BitVec.getLsbD_or, BitVec.getLsbD_shiftLeft, BitVec.getLsbD_setWidth]
  by_cases h : i < shift
  · have h' : ¬ shift ≤ i := by omega
    simp [h, h']
  · have h' : shift ≤ i := by omega
    have h'' : i - shift < w := by omega
    simp [h, h', h'', hi]

theorem getLsbD_packLe (i : ℕ) (hi : i < w) : ∀ (array : List Byte) (value : BitVec w) (shift : ℕ),
    (packLe value shift array).getLsbD i
      = (value.getLsbD i || (decide (shift ≤ i) && bitLe array (i - shift)))
  | [], value, shift => by simp [packLe, bitLe]
  | el :: array, value, shift => by
    rw [packLe, getLsbD_packLe i hi array, getLsbD_packByte _ _ _ _ hi, Bool.or_assoc]
    congr 1
    by_cases h : shift ≤ i
    · by_cases h8 : shift + 8 ≤ i
      · have hd : (i - shift) / 8 = (i - (shift + 8)) / 8 + 1 := by omega
        have hm : (i - shift) % 8 = (i - (shift + 8)) % 8 := by omega
        have hz : el.getLsbD (i - shift) = false := BitVec.getLsbD_of_ge _ _ (by omega)
        simp [h, h8, hz, bitLe, hd, hm]
      · have hd : (i - shift) / 8 = 0 := by omega
        have hm : (i - shift) % 8 = i - shift := by omega
        simp [h, h8, bitLe, hd, hm]
    · have h8 : ¬ shift + 8 ≤ i := by omega
      simp [h, h8]

theorem getLsbD_packArrayLe (array : List Byte) (i : ℕ) (hi : i < w) :
    (packArrayLe w array).getLsbD i = bitLe array i := by
  simp [packArrayLe, getLsbD_packLe i hi]

theorem packLe_append : ∀ (xs ys : List Byte) (value : BitVec w) (shift : ℕ),
    packLe value shift (xs ++ ys) = packLe (packLe value shift xs) (shift + 8 * xs.length) ys
  | [], ys, value, shift => by simp [packLe]
  | x :: xs, ys, value, shift => by
    rw [List.cons_append, packLe, packLe_append xs ys, packLe, List.length_cons]
    congr 1
    omega

theorem packByte_comm (value : BitVec w) (s t : ℕ) (x y : Byte) :
    packByte (packByte value s x) t y = packByte (packByte value t y) s x := by
  simp only [packByte, BitVec.or_assoc]
  rw [BitVec.or_comm (x.setWidth w <<< s)]

theorem packLe_packByte (t : ℕ) (y : Byte) : ∀ (xs : List Byte) (value : BitVec w) (shift : ℕ),
    packLe (packByte value t y) shift xs = packByte (packLe value shift xs) t y
  | [], value, shift => rfl
  | x :: xs, value, shift => by
    rw [packLe, packLe, packByte_comm, packLe_packByte t y xs]

/-- The big-endian loop, run down to shift zero, is the little-endian one on the reversed bytes. -/
theorem packBe_eq_packLe_reverse : ∀ (xs : List Byte) (value : BitVec w),
    packBe value ((xs.length - 1) * 8) xs = packLe value 0 xs.reverse
  | [], value => rfl
  | x :: xs, value => by
    have hs : (x :: xs).length - 1 = xs.length := by simp
    have hs' : xs.length * 8 - 8 = (xs.length - 1) * 8 := by omega
    rw [hs, packBe, hs', packBe_eq_packLe_reverse xs, List.reverse_cons, packLe_append,
      List.length_reverse, packLe_packByte]
    simp [packLe, Nat.mul_comm]

theorem packArrayBe_eq (array : List Byte) : packArrayBe w array = packArrayLe w array.reverse :=
  packBe_eq_packLe_reverse array 0#w

@[simp]
theorem length_unpackArray (e : Endian) (value : BitVec w) :
    (unpackArray e value).length = w / 8 := by
  cases e <;> simp [unpackArray, unpackArrayLe, unpackArrayBe]

theorem unpackArrayBe_eq (value : BitVec w) :
    unpackArrayBe value = (unpackArrayLe value).reverse := by
  apply List.ext_getElem
  · simp [unpackArrayBe, unpackArrayLe]
  · intro i h₁ h₂
    simp [unpackArrayBe, unpackArrayLe]

theorem getElem_unpackArrayLe (value : BitVec w) (i : ℕ) (h : i < (unpackArrayLe value).length) :
    (unpackArrayLe value)[i] = (value >>> (8 * i)).setWidth 8 := by
  simp [unpackArrayLe]

theorem bitLe_unpackArrayLe (value : BitVec w) (i : ℕ) (hi : i < w / 8 * 8) :
    bitLe (unpackArrayLe value) i = value.getLsbD i := by
  have h : i / 8 < w / 8 := by omega
  have h8 : i % 8 < 8 := by omega
  have hs : 8 * (i / 8) + i % 8 = i := by omega
  simp [bitLe, unpackArrayLe, List.getD_eq_getElem?_getD, h, h8, hs]

/-- Packing the bytes of a value of whole bytes gives the value back. -/
theorem pack_unpack (e : Endian) (value : BitVec w) (h : 8 ∣ w) :
    packArray w e (unpackArray e value) = value := by
  have hw : w / 8 * 8 = w := Nat.div_mul_cancel h
  have hle : packArrayLe w (unpackArrayLe value) = value := by
    apply BitVec.eq_of_getLsbD_eq
    intro i hi
    rw [getLsbD_packArrayLe _ _ hi, bitLe_unpackArrayLe _ _ (by omega)]
  cases e with
  | little => exact hle
  | big =>
    show packArrayBe w (unpackArrayBe value) = value
    rw [packArrayBe_eq, unpackArrayBe_eq, List.reverse_reverse, hle]

/-- Unpacking a value gives the bytes it was packed of. -/
theorem unpack_pack (e : Endian) {array : List Byte} (h : array.length = w / 8) :
    unpackArray e (packArray w e array) = array := by
  have hle : ∀ {bytes : List Byte}, bytes.length = w / 8 →
      unpackArrayLe (packArrayLe w bytes) = bytes := by
    intro bytes hlength
    apply List.ext_getElem
    · rw [hlength]
      simp [unpackArrayLe]
    · intro i h₁ h₂
      rw [getElem_unpackArrayLe]
      apply BitVec.eq_of_getLsbD_eq
      intro j hj
      have hw : 8 * i + j < w := by omega
      have hd : (8 * i + j) / 8 = i := by omega
      have hm : (8 * i + j) % 8 = j := by omega
      simp only [BitVec.getLsbD_setWidth, BitVec.getLsbD_ushiftRight, hj, decide_true,
        Bool.true_and]
      rw [getLsbD_packArrayLe _ _ hw, bitLe, hd, hm, List.getD_eq_getElem?_getD,
        List.getElem?_eq_getElem h₂, Option.getD_some]
  cases e with
  | little => exact hle h
  | big =>
    show unpackArrayBe (packArrayBe w array) = array
    rw [packArrayBe_eq, unpackArrayBe_eq, hle (by rw [List.length_reverse, h]),
      List.reverse_reverse]

/-- The bytes of a swapped value, in one order, are its bytes in the other. -/
theorem unpackArrayBe_swapEndian (value : BitVec w) :
    unpackArrayBe (swapEndian value) = unpackArrayLe value := by
  have hlength : (unpackArrayBe value).length = w / 8 := length_unpackArray .big value
  have hle : unpackArrayLe (swapEndian value) = unpackArrayBe value := unpack_pack .little hlength
  rw [unpackArrayBe_eq, hle, unpackArrayBe_eq, List.reverse_reverse]

end Bits

end MiptMips
