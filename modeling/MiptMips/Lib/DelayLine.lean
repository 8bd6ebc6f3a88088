import Mathlib.Data.Nat.Notation
import Mathlib.Logic.Basic

/-!
# Delay lines

What is on its way through a channel of a fixed latency that takes at most one value at a time. The
value at index `r` comes out in `r` ticks, and a tick moves everything by one and puts a new value
in at the far end.
-/

namespace Machines

structure DelayLine (α : Type) where
  latency : ℕ
  item : ℕ → Option α

namespace DelayLine

variable {α : Type}

def empty (latency : ℕ) : DelayLine α := ⟨latency, fun _ => none⟩

variable (line : DelayLine α)

/-- What comes out now. -/
def out : Option α := line.item 0

def shift (value : Option α) : DelayLine α :=
  { line with item := fun r => if r + 1 = line.latency then value else line.item (r + 1) }

@[simp]
theorem latency_shift (value : Option α) : (line.shift value).latency = line.latency := rfl

@[simp]
theorem item_empty (latency r : ℕ) : (empty latency : DelayLine α).item r = none := rfl

theorem item_shift (value : Option α) (r : ℕ) :
    (line.shift value).item r = if r + 1 = line.latency then value else line.item (r + 1) := rfl

/-- After `c` ticks from an empty line: what is at `r` now went in `latency - r` ticks ago. -/
theorem item_history {latency n : ℕ} (lines : ℕ → DelayLine α) {values : ℕ → Option α}
    (hstart : lines 0 = empty latency) (hstep : ∀ c < n, lines (c + 1) = (lines c).shift (values c)) :
    ∀ c ≤ n, (lines c).latency = latency ∧ ∀ r, (lines c).item r
      = if latency ≤ c + r ∧ r < latency then values (c + r - latency) else none
  | 0, _ => by
    refine ⟨by rw [hstart]; rfl, fun r => ?_⟩
    rw [hstart, item_empty, if_neg (by omega)]
  | c + 1, hc => by
    obtain ⟨hl, hi⟩ := item_history lines hstart hstep c (by omega)
    rw [hstep c (by omega)]
    refine ⟨hl, fun r => ?_⟩
    rw [item_shift, hl, hi]
    by_cases hr : r + 1 = latency
    · rw [if_pos hr, if_pos (by omega), show c + 1 + r - latency = c by omega]
    · rw [if_neg hr, show c + 1 + r - latency = c + (r + 1) - latency by omega]
      exact if_congr (by omega) rfl rfl

end DelayLine

end Machines
