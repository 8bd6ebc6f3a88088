import Mathlib.Logic.Basic

/-!
# An index of slots by their keys

Slots hold keys, and an index leads from a key to the slot that holds it. A key can be put into a
slot, in the place of the one that was there, when no other slot holds it already: an index leads to
one slot at most.
-/

namespace Machines

variable {K I : Type*}

/-- The index leads from a key to a slot just when the slot holds the key. -/
def Indexed (find : K → Option I) (held : I → Option K) : Prop :=
  ∀ key slot, find key = some slot ↔ held slot = some key

namespace Indexed

variable {find : K → Option I} {held : I → Option K} {key : K} {slot slot' : I}

theorem slot_unique (h : Indexed find held) (hslot : held slot = some key)
    (hslot' : held slot' = some key) : slot = slot' := by
  rw [← h] at hslot hslot'
  exact Option.some.inj (hslot.symm.trans hslot')

variable [DecidableEq I]

/-- A slot that is emptied is not led to any more. -/
theorem clear [DecidableEq K] (h : Indexed find held) (slot : I) :
    Indexed (fun key => if held slot = some key then none else find key)
      (fun i => if i = slot then none else held i) := by
  intro key i
  dsimp only
  by_cases hkey : held slot = some key
  · rw [if_pos hkey]
    by_cases hi : i = slot
    · simp [hi]
    · simp only [hi, if_false, reduceCtorEq, false_iff]
      exact fun hother => hi (h.slot_unique hother hkey)
  · rw [if_neg hkey, h]
    by_cases hi : i = slot
    · simp [hi, hkey]
    · simp [hi]

/-- A key that no other slot holds is put into a slot. -/
theorem put [DecidableEq K] (h : Indexed find held) (slot : I)
    (hkey : find key = none ∨ find key = some slot) :
    Indexed (fun k => if k = key then some slot else if held slot = some k then none else find k)
      (fun i => if i = slot then some key else held i) := by
  intro k i
  dsimp only
  have hother : i ≠ slot → held i ≠ some key := by
    intro hi hheld
    rw [← h] at hheld
    rcases hkey with hnone | hsome
    · rw [hnone] at hheld
      cases hheld
    · exact hi (Option.some.inj (hheld.symm.trans hsome))
  by_cases hk : k = key
  · subst hk
    by_cases hi : i = slot
    · simp [hi]
    · simp [hi, hother hi, Ne.symm hi]
  · rw [if_neg hk]
    refine (h.clear slot k i).trans ?_
    by_cases hi : i = slot
    · simp [hi, Ne.symm hk]
    · simp [hi]

end Indexed

end Machines
