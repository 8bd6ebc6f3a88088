import MiptMips.Infra.Macro
import Mathlib.Data.List.Basic
import Mathlib.Logic.Function.Basic

/-!
# Ports

A write port sends each value to all of its read ports, which give it out a latency later. A read
port keeps the values on their way in a queue of fixed size, a ring with a front and a back that
wrap around; nothing but the bandwidth of the write port keeps the back from running over the front.
A value that is not read in its cycle is thrown away by the next operation on the port.

Cycles do not wrap around here.
-/

namespace MiptMips

variable {T : Type}

structure PortError where
  msg : String
  deriving DecidableEq, Repr

/-- The ring. A slot of the arena is empty before something is put there and after it is
destroyed. -/
structure PortQueue (T : Type) where
  arena : ℕ → Option T := fun _ => none
  pFront : ℕ := 0
  pBack : ℕ := 0
  occupied : ℕ := 0
  capacity : ℕ := 0

namespace PortQueue

section Model

variable (q : PortQueue T)

def advancePtr (p : ℕ) : ℕ := if p + 1 = q.capacity then 0 else p + 1

def resize (T : Type) (size : ℕ) : PortQueue T := { capacity := size }

def emplace (x : T) : PortQueue T :=
  { q with
    arena := Function.update q.arena q.pBack (some x)
    pBack := q.advancePtr q.pBack
    occupied := q.occupied + 1 }

def pop : PortQueue T :=
  { q with
    arena := Function.update q.arena q.pFront none
    pFront := q.advancePtr q.pFront
    occupied := q.occupied - 1 }

def empty : Bool := q.occupied == 0

def front : Option T := q.arena q.pFront

end Model

section Contents

/-- The slot that is `i` slots behind the front. -/
def slot (q : PortQueue T) (i : ℕ) : ℕ := (q.pFront + i) % q.capacity

/-- The queue holds a list, from its front on. -/
structure Holds (q : PortQueue T) (l : List T) : Prop where
  occupied : q.occupied = l.length
  fits : l.length ≤ q.capacity
  front_lt : q.pFront = 0 ∨ q.pFront < q.capacity
  back : q.pBack = q.slot l.length
  slots (i : ℕ) (h : i < l.length) : q.arena (q.slot i) = some l[i]
  free (i : ℕ) : l.length ≤ i → i < q.capacity → q.arena (q.slot i) = none

variable {q : PortQueue T} {l : List T} {x : T}

theorem holds_resize (size : ℕ) : (resize T size).Holds [] where
  occupied := rfl
  fits := Nat.zero_le _
  front_lt := .inl rfl
  back := (Nat.zero_mod _).symm
  slots i h := absurd h (Nat.not_lt_zero i)
  free _ _ _ := rfl

/-- Slots that are less than the capacity apart differ. -/
theorem slot_inj {i j : ℕ} (hi : i < q.capacity) (hj : j < q.capacity)
    (h : q.slot i = q.slot j) : i = j := by
  have hmod : i % q.capacity = j % q.capacity := Nat.ModEq.add_left_cancel' q.pFront h
  rwa [Nat.mod_eq_of_lt hi, Nat.mod_eq_of_lt hj] at hmod

theorem advancePtr_slot (hc : 0 < q.capacity) (i : ℕ) :
    q.advancePtr (q.slot i) = q.slot (i + 1) := by
  have hlt : q.slot i < q.capacity := Nat.mod_lt _ hc
  unfold advancePtr
  unfold slot at hlt ⊢
  rw [← Nat.add_assoc, Nat.add_mod (q.pFront + i) 1]
  by_cases h₁ : q.capacity = 1
  · rw [h₁, Nat.mod_one]
    rfl
  · have hone : 1 % q.capacity = 1 := Nat.mod_eq_of_lt (by omega)
    rw [hone]
    split_ifs with h
    · rw [h, Nat.mod_self]
    · exact (Nat.mod_eq_of_lt (by omega)).symm

/-- Putting one more item into a queue that is not full. -/
theorem Holds.emplace (h : q.Holds l) (hl : l.length < q.capacity) :
    (q.emplace x).Holds (l ++ [x]) where
  occupied := by simp [PortQueue.emplace, h.occupied]
  fits := by
    rw [List.length_append]
    exact hl
  front_lt := h.front_lt
  back := by
    rw [List.length_append]
    exact (congrArg q.advancePtr h.back).trans (advancePtr_slot (Nat.zero_lt_of_lt hl) _)
  slots i hi := by
    show Function.update q.arena q.pBack (some x) (q.slot i) = _
    have hi' : i < l.length + 1 := by simpa using hi
    rcases Nat.lt_succ_iff_lt_or_eq.1 hi' with hlt | rfl
    · have hne : q.slot i ≠ q.pBack := by
        rw [h.back]
        intro he
        exact absurd (slot_inj (Nat.lt_trans hlt hl) hl he) (Nat.ne_of_lt hlt)
      rw [Function.update_of_ne hne, h.slots i hlt, List.getElem_append_left hlt]
    · rw [← h.back, Function.update_self]
      simp
  free i hi hc := by
    rw [List.length_append] at hi
    show Function.update q.arena q.pBack (some x) (q.slot i) = none
    have hne : q.slot i ≠ q.pBack := by
      rw [h.back]
      intro he
      have := slot_inj hc hl he
      simp at hi
      omega
    rw [Function.update_of_ne hne]
    exact h.free i (by simp at hi; omega) hc

theorem Holds.slot_zero (h : q.Holds l) : q.slot 0 = q.pFront := by
  rcases h.front_lt with h | h
  · rw [slot, h, Nat.zero_add, Nat.zero_mod]
  · rw [slot, Nat.add_zero, Nat.mod_eq_of_lt h]

theorem Holds.empty_iff (h : q.Holds l) : q.empty = true ↔ l = [] := by
  rw [empty, h.occupied, beq_iff_eq, List.length_eq_zero_iff]

theorem Holds.front (h : q.Holds (x :: l)) : q.front = some x := by
  rw [PortQueue.front, ← h.slot_zero]
  exact h.slots 0 (Nat.succ_pos _)

/-- Taking the first item out moves the others up by one. -/
theorem Holds.pop (h : q.Holds (x :: l)) : q.pop.Holds l := by
  have hc : 0 < q.capacity := Nat.lt_of_lt_of_le (Nat.succ_pos _) h.fits
  have hfits : l.length + 1 ≤ q.capacity := h.fits
  have hfront : q.pop.pFront = q.slot 1 := by
    show q.advancePtr q.pFront = _
    rw [← h.slot_zero, advancePtr_slot hc]
  have hslot : ∀ i, q.pop.slot i = q.slot (i + 1) := by
    intro i
    show (q.pop.pFront + i) % q.capacity = (q.pFront + (i + 1)) % q.capacity
    rw [hfront, slot, Nat.mod_add_mod, Nat.add_assoc, Nat.add_comm 1 i]
  have hother : ∀ i, i + 1 < q.capacity → q.pop.arena (q.pop.slot i) = q.arena (q.slot (i + 1)) := by
    intro i hi
    rw [hslot]
    show Function.update q.arena q.pFront none (q.slot (i + 1)) = _
    refine Function.update_of_ne ?_ _ _
    rw [← h.slot_zero]
    intro he
    exact absurd (slot_inj hi hc he) (Nat.succ_ne_zero i)
  refine ⟨?_, ?_, ?_, ?_, ?_, ?_⟩
  · show q.occupied - 1 = l.length
    rw [h.occupied]
    rfl
  · exact Nat.le_of_succ_le hfits
  · rw [hfront]
    exact .inr (Nat.mod_lt _ hc)
  · rw [hslot]
    exact h.back
  · intro i hi
    rw [hother i (Nat.lt_of_lt_of_le (Nat.succ_lt_succ hi) hfits)]
    exact h.slots (i + 1) (Nat.succ_lt_succ hi)
  · intro i hi hlt
    have hlt' : i < q.capacity := hlt
    rcases Nat.lt_or_eq_of_le (show i + 1 ≤ q.capacity from hlt') with hlast | hlast
    · rw [hother i hlast]
      exact h.free (i + 1) (Nat.succ_le_succ hi) hlast
    · -- the slot that was the front is the last one now
      have hwrap : q.pop.slot i = q.pFront := by
        rw [hslot, hlast, ← h.slot_zero, slot, slot, Nat.add_mod_right, Nat.add_zero]
      rw [hwrap]
      exact Function.update_self _ _ _

end Contents

end PortQueue

section ReadPort

/-- A read port. The cycle of an item is the one to read it in. -/
structure ReadPort (T : Type) where
  key : String
  latency : ℕ
  queue : PortQueue (T × ℕ) := {}
  lastCycle : ℕ := 0

namespace ReadPort

variable (p : ReadPort T) (cycle : ℕ)

def init (bandwidth : BitVec 32) : ReadPort T :=
  { p with queue := .resize _ ((p.latency + 1) * bandwidth.toNat) }

/-- The loop of `cleanup_stale_data`; it ends as each item is taken out once. -/
def popStale : ℕ → PortQueue (T × ℕ) → PortQueue (T × ℕ)
  | 0, queue => queue
  | n + 1, queue => match queue.front with
    | some item => if item.2 < cycle then popStale n queue.pop else queue
    | none => queue

def cleanupStaleData : ReadPort T :=
  { p with lastCycle := cycle, queue := popStale cycle p.queue.occupied p.queue }

def isReady : Bool × ReadPort T :=
  let p := p.cleanupStaleData cycle
  (!p.queue.empty && p.queue.front.map (·.2) == some cycle, p)

def noData : PortError := ⟨p.key ++ " has no data to read in cycle:" ++ toString cycle⟩

def read : Except PortError T × ReadPort T :=
  let (ready, p) := p.isReady cycle
  match ready, p.queue.front with
  | true, some item => (.ok item.1, { p with queue := p.queue.pop })
  | _, _ => (.error (p.noData cycle), p)

def emplaceData (what : T) : ReadPort T :=
  let p := p.cleanupStaleData cycle
  { p with queue := p.queue.emplace (what, cycle + p.latency) }

end ReadPort

end ReadPort

section WritePort

structure WritePort where
  key : String
  bandwidth : BitVec 32
  writeCounter : BitVec 32 := 0#32
  lastCycle : ℕ := 0

namespace WritePort

variable (p : WritePort) (cycle : ℕ)

def overloaded : PortError := ⟨p.key ++ " port is overloaded by bandwidth"⟩

/-- The counter is written before the check, so a write that throws counts too. -/
def incrementWriteCounter : Except PortError Unit × WritePort :=
  let p :=
    { p with
      writeCounter := if p.lastCycle = cycle then p.writeCounter + 1#32 else 0#32
      lastCycle := cycle }
  (if p.bandwidth < p.writeCounter then .error p.overloaded else .ok (), p)

end WritePort

/-- A write port with its read ports. -/
structure Cluster (n : ℕ) (T : Type) where
  writer : WritePort
  readers : Fin n → ReadPort T

namespace Cluster

variable {n : ℕ}

/-- What `PortMap::init` makes of the ports with one key. -/
def init (key : String) (bandwidth : BitVec 32) (latency : Fin n → ℕ) :
    Except PortError (Cluster n T) :=
  if n = 0 then .error ⟨key ++ " has no ReadPorts"⟩
  else .ok
    { writer := { key, bandwidth }
      readers := fun r => ReadPort.init { key, latency := latency r } bandwidth }

def write (c : Cluster n T) (what : T) (cycle : ℕ) : Except PortError Unit × Cluster n T :=
  match c.writer.incrementWriteCounter cycle with
  | (.ok _, writer) => (.ok (), ⟨writer, fun r => (c.readers r).emplaceData cycle what⟩)
  | (.error e, writer) => (.error e, { c with writer })

end Cluster

end WritePort

end MiptMips
