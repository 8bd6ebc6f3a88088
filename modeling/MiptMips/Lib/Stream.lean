import Mathlib.Data.Int.Notation
import Mathlib.Data.List.Basic
import Mathlib.Logic.Function.Iterate

/-!
# Streams of the standard library

A stream is a list of bytes with a position and three flags. An operation on a stream that is not
good does nothing but set the fail flag. A read that asks for more bytes than are left takes those
that are left, and sets both the flag for the end of the file and the fail flag; from then on the
stream is not good any more, and the positions that it reports are `-1`.

What is written is put at the end.
-/

namespace Machines

structure Stream where
  bytes : List (BitVec 8)
  position : ℕ := 0
  /-- Opened for reading. -/
  input : Bool := true
  /-- Opened for writing. -/
  output : Bool := true
  eof : Bool := false
  fail : Bool := false
  bad : Bool := false

namespace Stream

section Model

variable (s : Stream)

def good : Bool := !(s.eof || s.fail || s.bad)

/-- The bytes that are left to read. -/
def remaining : List (BitVec 8) := if s.input then s.bytes.drop s.position else []

/-- What every operation starts with. -/
def sentry : Stream := { s with fail := s.fail || !s.good }

def tellg : ℤ × Stream := (if s.good then s.position else -1, s.sentry)

def read (n : ℕ) : List (BitVec 8) × Stream :=
  if s.good then
    let taken := s.remaining.take n
    let short := decide (taken.length < n)
    (taken, { s with position := s.position + taken.length, eof := short, fail := short })
  else ([], s.sentry)

/-- `tellp`; it has no sentry. -/
def tellp : ℤ := if s.fail || s.bad then -1 else s.position

def write (data : List (BitVec 8)) : Stream :=
  if !s.good then s.sentry
  else if data.isEmpty then s
  else if s.output then
    { s with bytes := s.bytes ++ data, position := (s.bytes ++ data).length }
  else { s with bad := true }

/-- `isspace`. -/
def isSpace (c : BitVec 8) : Bool := c == 0x20#8 || (0x09#8 ≤ c && c ≤ 0x0d#8)

/-- `>>` into a string: blanks are skipped, and a word is taken up to the next blank. -/
def extract : List (BitVec 8) × Stream :=
  if s.good then
    let rest := s.remaining.dropWhile isSpace
    let word := rest.takeWhile (!isSpace ·)
    (word,
      { s with
        position := s.position + (s.remaining.length - rest.length) + word.length
        eof := decide (word.length = rest.length)
        fail := word.isEmpty })
  else ([], s.sentry)

/-- The stream after some words are taken. -/
def skip (n : ℕ) : Stream := (fun s => s.extract.2)^[n] s

/-- The words that are taken one after another; they are empty when the stream is at its end. -/
def word (n : ℕ) : List (BitVec 8) := (s.skip n).extract.1

/-- After blanks, if any, there is a word, which a blank or the end of the stream ends. -/
def ComesTo (word : List (BitVec 8)) : Prop :=
  s.good ∧ ∃ blanks rest, s.remaining = blanks ++ (word ++ rest) ∧ (∀ c ∈ blanks, isSpace c)
    ∧ ∀ c ∈ rest.head?, isSpace c

end Model

section Good

variable {s : Stream}

theorem sentry_of_good (h : s.good) : s.sentry = s := by
  unfold sentry
  rw [h]
  simp

@[simp]
theorem skip_zero : s.skip 0 = s := rfl

theorem skip_succ (n : ℕ) : s.skip (n + 1) = (s.skip n).extract.2 :=
  Function.iterate_succ_apply' _ _ _

theorem good_sentry (h : s.good = false) : s.sentry.good = false := by
  have hfail : s.sentry.fail = true := by simp [sentry, h]
  simp [good, hfail]

theorem tellg_of_not_good (h : s.good = false) : s.tellg = (-1, s.sentry) := by
  rw [tellg, h]
  rfl

theorem tellg_of_good (h : s.good) : s.tellg = ((s.position : ℤ), s) := by
  rw [tellg, sentry_of_good h, if_pos h]

theorem read_of_not_good (h : s.good = false) (n : ℕ) : s.read n = ([], s.sentry) := by
  rw [read, h]
  rfl

/-- With enough bytes left, a read takes what it is asked for, and sets no flag. -/
theorem read_of_le (h : s.good) {n : ℕ} (hn : n ≤ s.remaining.length) :
    s.read n = (s.remaining.take n, { s with position := s.position + n }) := by
  have hgood := h
  simp only [good, Bool.not_eq_true', Bool.or_eq_false_iff] at hgood
  have hlen : (s.remaining.take n).length = n := List.length_take_of_le hn
  simp [read, h, hlen, hgood]

/-- A read of more bytes than are left takes them all, and the stream is not good any more. -/
theorem read_of_lt (h : s.good) {n : ℕ} (hn : s.remaining.length < n) :
    s.read n = (s.remaining,
      { s with position := s.position + s.remaining.length, eof := true, fail := true }) := by
  have htake : s.remaining.take n = s.remaining := List.take_of_length_le (Nat.le_of_lt hn)
  simp [read, h, htake, hn]

theorem bytes_write_of_good (h : s.good) (hout : s.output) (data : List (BitVec 8)) :
    (s.write data).bytes = s.bytes ++ data := by
  rcases data with _ | ⟨c, data⟩ <;> simp [write, h, hout]

theorem extract_of_comesTo {word : List (BitVec 8)} (h : s.ComesTo word) (hne : word ≠ [])
    (hword : ∀ c ∈ word, isSpace c = false) : s.extract.1 = word := by
  obtain ⟨hgood, blanks, rest, hremaining, hblanks, hrest⟩ := h
  have hskip : s.remaining.dropWhile isSpace = word ++ rest := by
    obtain ⟨c, text, htext⟩ := List.exists_cons_of_ne_nil hne
    have hc : isSpace c = false := hword c (htext ▸ List.mem_cons_self)
    rw [hremaining, List.dropWhile_append_of_pos hblanks, htext, List.cons_append,
      List.dropWhile_cons_of_neg (by simp [hc])]
  have hstop : rest.takeWhile (!isSpace ·) = [] := by
    rcases rest with _ | ⟨c, rest⟩
    · rfl
    · rw [List.takeWhile_cons_of_neg (by simp [hrest c rfl])]
  rw [extract, if_pos hgood, hskip]
  dsimp only
  rw [List.takeWhile_append_of_pos fun c hc => by simp [hword c hc], hstop, List.append_nil]

@[simp]
theorem bytes_extract : s.extract.2.bytes = s.bytes := by
  unfold extract
  split_ifs <;> rfl

/-- Nothing is written where the stream is not good or not open for writing. -/
theorem bytes_write_of_not (h : ¬ (s.good ∧ s.output)) (data : List (BitVec 8)) :
    (s.write data).bytes = s.bytes := by
  unfold write
  split_ifs with hg he ho
  · rfl
  · rfl
  · exact absurd ⟨by simpa using hg, ho⟩ h
  · rfl

end Good

end Stream

end Machines
