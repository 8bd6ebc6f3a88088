import MiptMips.Infra.Ports
import MiptMips.Lib.Machine
import Mathlib.Algebra.Order.BigOperators.Group.Finset
import Mathlib.Order.Interval.Finset.Nat

/-!
# What ports deliver

Operations on the ports of one key come in cycles that never go back. What a read port still holds
are the values whose cycle has not passed, less those that were read in this cycle (`pending`); at
most a bandwidth of them were written in each of the last `latency + 1` cycles, and so the ring is
never full when a value is put in. So a reader gives out, in each cycle, exactly the values that
were written a latency before, in their order and once (`delivery`).

The bandwidth itself is enforced in the cycle 0 only: in a later cycle the counter starts a write
late, and one write too many gets through (`bandwidthEnforced_iff`).
-/

namespace MiptMips

open Machines

variable {T : Type} {n : ℕ}

section Sorted

/-- Items in the order of the cycles to read them in. -/
def InOrder (items : List (T × ℕ)) : Prop := items.Pairwise fun x y => x.2 ≤ y.2

/-- What is left for a reader that was last used in a cycle and has read `k` items in it. -/
def pending (items : List (T × ℕ)) (cycle k : ℕ) : List (T × ℕ) :=
  (items.filter (·.2 = cycle)).drop k ++ items.filter (cycle < ·.2)

variable {items : List (T × ℕ)} {cycle later k : ℕ}

theorem dropWhile_of_forall {α : Type} {p : α → Bool} :
    ∀ {l : List α}, (∀ x ∈ l, p x = false) → l.dropWhile p = l
  | [], _ => rfl
  | x :: l, h => by rw [List.dropWhile_cons, h x List.mem_cons_self]; rfl

/-- Throwing away what is before a cycle leaves what is in it and what is after it. -/
theorem dropWhile_inOrder (cycle : ℕ) : ∀ {items : List (T × ℕ)}, InOrder items →
    items.dropWhile (·.2 < cycle) = items.filter (·.2 = cycle) ++ items.filter (cycle < ·.2)
  | [], _ => rfl
  | x :: items, h => by
    obtain ⟨hx, hitems⟩ := List.pairwise_cons.1 h
    have ih := dropWhile_inOrder cycle hitems
    rcases Nat.lt_trichotomy x.2 cycle with hlt | heq | hgt
    · simp [hlt, ih, Nat.ne_of_lt hlt, Nat.not_lt_of_lt hlt]
    · have hall : items.dropWhile (·.2 < cycle) = items :=
        dropWhile_of_forall fun y hy => by
          have := hx y hy
          simp
          omega
      rw [hall] at ih
      simp [heq, ← ih]
    · have hnone : items.filter (·.2 = cycle) = [] :=
        List.filter_eq_nil_iff.2 fun y hy => by
          have := hx y hy
          simp
          omega
      have hall : items.filter (cycle < ·.2) = items :=
        List.filter_eq_self.2 fun y hy => by
          have := hx y hy
          simp
          omega
      have h₁ : ¬ x.2 < cycle := by omega
      have h₂ : x.2 ≠ cycle := by omega
      simp [h₁, h₂, hgt, hnone, hall]

theorem mem_pending_ge {x : T × ℕ} (h : x ∈ pending items cycle k) : cycle ≤ x.2 := by
  rcases List.mem_append.1 h with h | h
  · have := (List.mem_filter.1 (List.mem_of_mem_drop h)).2
    simp at this
    omega
  · have := (List.mem_filter.1 h).2
    simp at this
    omega

/-- A reader that is used in a later cycle has read nothing in it yet. -/
theorem dropWhile_pending (h : InOrder items) (hle : cycle ≤ later) :
    (pending items cycle k).dropWhile (·.2 < later)
      = pending items later (if cycle = later then k else 0) := by
  split_ifs with heq
  · subst heq
    refine dropWhile_of_forall fun x hx => ?_
    have := mem_pending_ge hx
    simp
    omega
  · have hlt : cycle < later := by omega
    have hfirst : ∀ x ∈ (items.filter (·.2 = cycle)).drop k, decide (x.2 < later) = true := by
      intro x hx
      have := (List.mem_filter.1 (List.mem_of_mem_drop hx)).2
      simp at this ⊢
      omega
    rw [pending, List.dropWhile_append_of_pos hfirst,
      dropWhile_inOrder later (List.Pairwise.filter _ h), List.filter_filter, List.filter_filter,
      pending, List.drop_zero]
    congr 1 <;> refine List.filter_congr fun x _ => ?_
    · rw [Bool.eq_iff_iff]
      simp
      omega
    · rw [Bool.eq_iff_iff]
      simp
      omega

/-- An item that is to be read last of all comes last. -/
theorem pending_append (x : T) (hle : cycle ≤ later) (hmax : ∀ y ∈ items, y.2 ≤ later)
    (hk : k ≤ (items.filter (·.2 = cycle)).length) :
    pending (items ++ [(x, later)]) cycle k = pending items cycle k ++ [(x, later)] := by
  rcases Nat.eq_or_lt_of_le hle with rfl | hlt
  · have hnone : items.filter (cycle < ·.2) = [] :=
      List.filter_eq_nil_iff.2 fun y hy => by
        have := hmax y hy
        simp
        omega
    simp [pending, List.filter_append, List.drop_append_of_le_length hk, hnone]
  · have hne : later ≠ cycle := by omega
    simp [pending, List.filter_append, hne, hlt]

theorem length_pending_le :
    (pending items cycle k).length ≤ (items.filter (cycle ≤ ·.2)).length := by
  have hsum : ∀ items : List (T × ℕ), (items.filter (·.2 = cycle)).length
      + (items.filter (cycle < ·.2)).length = (items.filter (cycle ≤ ·.2)).length := by
    intro items
    induction items with
    | nil => rfl
    | cons x items ih =>
      rcases Nat.lt_trichotomy x.2 cycle with h | h | h
      · simp [Nat.ne_of_lt h, Nat.not_lt_of_lt h, Nat.not_le_of_lt h, ih]
      · simp [h, ← ih]
        omega
      · simp [Nat.ne_of_gt h, h, Nat.le_of_lt h, ← ih]
        omega
  rw [pending, List.length_append, List.length_drop, ← hsum]
  omega

/-- Reading one item more. -/
theorem pending_some {x : T × ℕ} (h : (items.filter (·.2 = cycle))[k]? = some x) :
    pending items cycle k = x :: pending items cycle (k + 1) := by
  obtain ⟨hk, rfl⟩ := List.getElem?_eq_some_iff.1 h
  rw [pending, List.drop_eq_getElem_cons hk]
  rfl

/-- All items of the cycle are read. -/
theorem pending_none (h : (items.filter (·.2 = cycle))[k]? = none) :
    pending items cycle k = items.filter (cycle < ·.2)
      ∧ pending items cycle (k + 1) = items.filter (cycle < ·.2) := by
  rw [List.getElem?_eq_none_iff] at h
  rw [pending, pending, List.drop_eq_nil_of_le h, List.drop_eq_nil_of_le (Nat.le_succ_of_le h)]
  exact ⟨rfl, rfl⟩

end Sorted

section Reader

namespace ReadPort

open PortQueue

variable {p : ReadPort T} {b : ℕ} {items : List (T × ℕ)} {k cycle : ℕ}

/-- The port has been given items and has read `k` of them in the cycle it was last used in. -/
structure Follows (p : ReadPort T) (b : ℕ) (items : List (T × ℕ)) (k : ℕ) : Prop where
  capacity : p.queue.capacity = (p.latency + 1) * b
  read_le : k ≤ (items.filter (·.2 = p.lastCycle)).length
  holds : p.queue.Holds (pending items p.lastCycle k)

/-- The reads of a port in a cycle, given those in the cycle it was last used in. -/
def readsIn (p : ReadPort T) (cycle k : ℕ) : ℕ := if p.lastCycle = cycle then k else 0

theorem popStale_holds (cycle : ℕ) : ∀ {l : List (T × ℕ)} {q : PortQueue (T × ℕ)}, q.Holds l →
    (popStale cycle l.length q).Holds (l.dropWhile (·.2 < cycle))
      ∧ (popStale cycle l.length q).capacity = q.capacity
  | [], q, h => ⟨h, rfl⟩
  | x :: l, q, h => by
    rw [List.length_cons, popStale, h.front, List.dropWhile_cons]
    by_cases hx : x.2 < cycle
    · simp only [hx, decide_true, if_true]
      exact popStale_holds cycle h.pop
    · simp only [hx, decide_false, if_false, Bool.false_eq_true]
      exact ⟨h, trivial⟩

theorem Follows.cleanup (h : p.Follows b items k) (hs : InOrder items) (hle : p.lastCycle ≤ cycle) :
    (p.cleanupStaleData cycle).Follows b items (p.readsIn cycle k) := by
  obtain ⟨hheld, hcap⟩ := popStale_holds cycle h.holds
  rw [dropWhile_pending hs hle] at hheld
  rw [← h.holds.occupied] at hheld hcap
  refine ⟨hcap.trans h.capacity, ?_, hheld⟩
  show p.readsIn cycle k ≤ (items.filter (·.2 = cycle)).length
  unfold readsIn
  split_ifs with he
  · exact he ▸ h.read_le
  · exact Nat.zero_le _

/-- The next item of the cycle, if there is one. -/
def nextItem (p : ReadPort T) (items : List (T × ℕ)) (cycle k : ℕ) : Option (T × ℕ) :=
  (items.filter (·.2 = cycle))[p.readsIn cycle k]?

/-- A port is ready when an item of this cycle is left. -/
theorem Follows.isReady (h : p.Follows b items k) (hs : InOrder items)
    (hle : p.lastCycle ≤ cycle) :
    (p.isReady cycle).1 = (p.nextItem items cycle k).isSome := by
  have hc := (h.cleanup hs hle).holds
  show (!(p.cleanupStaleData cycle).queue.empty
    && (p.cleanupStaleData cycle).queue.front.map (·.2) == some cycle) = _
  change (p.cleanupStaleData cycle).queue.Holds (pending items cycle (p.readsIn cycle k)) at hc
  rcases hn : p.nextItem items cycle k with _ | x
  · rw [(pending_none hn).1] at hc
    rcases hl : items.filter (cycle < ·.2) with _ | ⟨x, l⟩
    · rw [hl] at hc
      simp [hc.empty_iff.2 rfl]
    · have hx : x ∈ items.filter (cycle < ·.2) := by simp [hl]
      have hgt := (List.mem_filter.1 hx).2
      rw [hl] at hc
      have hne : x.2 ≠ cycle := by
        simp at hgt
        omega
      simp [hc.front, hne]
  · have hx : x.2 = cycle := by
      have := (List.mem_filter.1 (List.mem_of_getElem? hn)).2
      simpa using this
    rw [pending_some hn] at hc
    have hne : (p.cleanupStaleData cycle).queue.empty = false := by
      rw [← Bool.not_eq_true, hc.empty_iff]
      exact List.cons_ne_nil _ _
    simp [hc.front, hne, hx]

/-- A read takes the next item of the cycle, and throws when there is none. -/
theorem Follows.read (h : p.Follows b items k) (hs : InOrder items) (hle : p.lastCycle ≤ cycle) :
    (p.read cycle).1 = (match p.nextItem items cycle k with
        | some x => .ok x.1
        | none => .error (p.noData cycle))
      ∧ (p.read cycle).2.Follows b items
        (p.readsIn cycle k + if (p.nextItem items cycle k).isSome then 1 else 0) := by
  have hready := h.isReady hs hle
  have hc := h.cleanup hs hle
  have hheld : (p.cleanupStaleData cycle).queue.Holds (pending items cycle (p.readsIn cycle k)) :=
    hc.holds
  have hpair : p.isReady cycle = ((p.isReady cycle).1, p.cleanupStaleData cycle) := rfl
  unfold ReadPort.read
  rw [hpair, hready]
  rcases hn : p.nextItem items cycle k with _ | x
  · exact ⟨rfl, hc⟩
  · rw [pending_some hn] at hheld
    simp only [Option.isSome_some, hheld.front]
    exact ⟨trivial, hc.capacity, (List.getElem?_eq_some_iff.1 hn).1, hheld.pop⟩

theorem read_frame (p : ReadPort T) (cycle : ℕ) : (p.read cycle).2.key = p.key
    ∧ (p.read cycle).2.latency = p.latency ∧ (p.read cycle).2.lastCycle = cycle := by
  have hpair : p.isReady cycle = ((p.isReady cycle).1, p.cleanupStaleData cycle) := rfl
  unfold ReadPort.read
  rw [hpair]
  dsimp only
  rcases (p.isReady cycle).1 with _ | _
  · exact ⟨rfl, rfl, rfl⟩
  · rcases (p.cleanupStaleData cycle).queue.front with _ | x <;> exact ⟨rfl, rfl, rfl⟩

/-- There is room for one more item if fewer than the capacity are still to be read. -/
theorem Follows.room (h : p.Follows b items k) (hs : InOrder items) (hle : p.lastCycle ≤ cycle)
    (hroom : (items.filter (cycle ≤ ·.2)).length < (p.latency + 1) * b) :
    (pending items cycle (p.readsIn cycle k)).length < (p.cleanupStaleData cycle).queue.capacity := by
  rw [(h.cleanup hs hle).capacity]
  exact Nat.lt_of_le_of_lt length_pending_le hroom

/-- Putting an item in. -/
theorem Follows.emplaceData (h : p.Follows b items k) (hs : InOrder items)
    (hle : p.lastCycle ≤ cycle) (hmax : ∀ y ∈ items, y.2 ≤ cycle + p.latency)
    (hroom : (items.filter (cycle ≤ ·.2)).length < (p.latency + 1) * b) (x : T) :
    (p.emplaceData cycle x).Follows b (items ++ [(x, cycle + p.latency)]) (p.readsIn cycle k) where
  capacity := (h.cleanup hs hle).capacity
  read_le := by
    refine Nat.le_trans (h.cleanup hs hle).read_le ?_
    rw [List.filter_append, List.length_append]
    exact Nat.le_add_right _ _
  holds := by
    show ((p.cleanupStaleData cycle).queue.emplace (x, cycle + p.latency)).Holds
      (pending (items ++ [(x, cycle + p.latency)]) cycle (p.readsIn cycle k))
    rw [pending_append x (Nat.le_add_right _ _) hmax (h.cleanup hs hle).read_le]
    exact (h.cleanup hs hle).holds.emplace (h.room hs hle hroom)

end ReadPort

end Reader

section Window

/-- A list of numbers from an interval with no number more often than `b` times. -/
theorem length_le_of_count {b a m : ℕ} {l : List ℕ} (hmem : ∀ x ∈ l, a ≤ x ∧ x < a + m)
    (hcount : ∀ x, l.count x ≤ b) : l.length ≤ m * b := by
  have hsub : l.toFinset ⊆ Finset.Ico a (a + m) := by
    intro x hx
    simpa using hmem x (List.mem_toFinset.1 hx)
  have hcard : l.toFinset.card ≤ m := by
    simpa using Finset.card_le_card hsub
  calc l.length = ∑ x ∈ l.toFinset, l.count x := (List.sum_toFinset_count_eq_length l).symm
    _ ≤ l.toFinset.card • b := Finset.sum_le_card_nsmul _ _ _ fun x _ => hcount x
    _ ≤ m * b := Nat.mul_le_mul_right b hcard

/-- Of the items to be read from a cycle on, there are at most as many as the ring has slots. -/
theorem length_window {items : List (T × ℕ)} {cycle latency b : ℕ}
    (hmax : ∀ x ∈ items, x.2 ≤ cycle + latency)
    (hcount : ∀ due, (items.filter (·.2 = due)).length ≤ b) :
    (items.filter (cycle ≤ ·.2)).length ≤ (latency + 1) * b := by
  have hlen := length_le_of_count (a := cycle) (m := latency + 1) (b := b)
    (l := (items.filter (cycle ≤ ·.2)).map (·.2)) ?_ ?_
  · simpa using hlen
  · intro x hx
    obtain ⟨y, hy, rfl⟩ := List.mem_map.1 hx
    obtain ⟨hy, hle⟩ := List.mem_filter.1 hy
    have := hmax y hy
    simp at hle
    omega
  · intro due
    refine Nat.le_trans ?_ (hcount due)
    rw [List.count, List.countP_map, ← List.countP_eq_length_filter]
    refine Nat.le_trans (List.Sublist.countP_le List.filter_sublist) (le_of_eq ?_)
    exact List.countP_congr fun x _ => by simp

end Window

section Machine

/-- What is done with the ports of one key in a cycle. -/
inductive PortEvent (n : ℕ) (T : Type) where
  | write (what : T)
  | isReady (reader : Fin n)
  | read (reader : Fin n)

inductive PortReply (T : Type) where
  | written
  | ready (b : Bool)
  | value (x : T)
  | error (e : PortError)
  deriving DecidableEq

/-- Events with their cycles. -/
abbrev PortSchedule (n : ℕ) (T : Type) := List (ℕ × PortEvent n T)

namespace Cluster

/-- The ports as a machine. -/
def machine : Machine (Cluster n T) (ℕ × PortEvent n T) (PortReply T) where
  step c
    | (cycle, .write what) => match c.write what cycle with
      | (.ok _, c) => (c, .written)
      | (.error e, c) => (c, .error e)
    | (cycle, .isReady r) =>
      let (ready, p) := (c.readers r).isReady cycle
      ({ c with readers := Function.update c.readers r p }, .ready ready)
    | (cycle, .read r) => match (c.readers r).read cycle with
      | (.ok x, p) => ({ c with readers := Function.update c.readers r p }, .value x)
      | (.error e, p) => ({ c with readers := Function.update c.readers r p }, .error e)

end Cluster

namespace PortSchedule

variable (s : PortSchedule n T)

/-- The cycles do not go back. -/
def Ordered : Prop := s.Pairwise fun e f => e.1 ≤ f.1

def isWriteIn (cycle : ℕ) : ℕ × PortEvent n T → Bool
  | (c, .write _) => c == cycle
  | _ => false

def isReadIn (r : Fin n) (cycle : ℕ) : ℕ × PortEvent n T → Bool
  | (c, .read r') => c == cycle && r' == r
  | _ => false

def writesIn (cycle : ℕ) : ℕ := s.countP (isWriteIn cycle)

def readsIn (r : Fin n) (cycle : ℕ) : ℕ := s.countP (isReadIn r cycle)

/-- The value of a write that is to be read in a cycle. -/
def valueFor (latency cycle : ℕ) : ℕ × PortEvent n T → Option T
  | (c, .write x) => if c + latency = cycle then some x else none
  | _ => none

/-- The values to be read in a cycle, in the order of the writes. -/
def valuesFor (latency cycle : ℕ) : List T := s.filterMap (valueFor latency cycle)

/-- What an event is answered when every write is delivered a latency later: the `k`-th read of a
reader in a cycle gives the `k`-th value for that cycle. -/
def reply (key : String) (latency : Fin n → ℕ) : ℕ × PortEvent n T → PortReply T
  | (_, .write _) => .written
  | (cycle, .isReady r) => .ready (s.readsIn r cycle < (s.valuesFor (latency r) cycle).length)
  | (cycle, .read r) => match (s.valuesFor (latency r) cycle)[s.readsIn r cycle]? with
    | some x => .value x
    | none => .error ⟨key ++ " has no data to read in cycle:" ++ toString cycle⟩

/-- The reference: it keeps all that has happened. -/
def reference (key : String) (latency : Fin n → ℕ) :
    Machine (PortSchedule n T) (ℕ × PortEvent n T) (PortReply T) where
  step s e := (s ++ [e], s.reply key latency e)

end PortSchedule

end Machine

section Delivery

open PortSchedule

variable {s : PortSchedule n T} {latency b cycle : ℕ} {r : Fin n}

/-- A write as an item of a reader's queue. -/
def itemOf (latency : ℕ) : ℕ × PortEvent n T → Option (T × ℕ)
  | (c, .write x) => some (x, c + latency)
  | _ => none

/-- All that a reader has been given. -/
def itemsOf (latency : ℕ) (s : PortSchedule n T) : List (T × ℕ) := s.filterMap (itemOf latency)

theorem valuesFor_eq (s : PortSchedule n T) (latency cycle : ℕ) : s.valuesFor latency cycle
    = ((itemsOf latency s).filter (·.2 = cycle)).map (·.1) := by
  unfold valuesFor itemsOf
  induction s with
  | nil => rfl
  | cons e s ih =>
    obtain ⟨c, x | r | r⟩ := e
    · by_cases hc : c + latency = cycle
      · simp [valueFor, itemOf, hc, ih]
      · simp [valueFor, itemOf, hc, ih]
    · exact ih
    · exact ih

theorem mem_itemsOf {y : T × ℕ} (h : y ∈ itemsOf latency s) :
    ∃ c x, (c, PortEvent.write x) ∈ s ∧ y = (x, c + latency) := by
  obtain ⟨⟨c, x | r | r⟩, he, hy⟩ := List.mem_filterMap.1 h
  · exact ⟨c, x, he, by simpa [itemOf] using hy.symm⟩
  · cases hy
  · cases hy

theorem inOrder_itemsOf (h : s.Ordered) : InOrder (itemsOf latency s) := by
  refine List.Pairwise.filterMap _ ?_ h
  rintro ⟨c, e⟩ ⟨c', e'⟩ hle x hx y hy
  cases e <;> cases hx
  cases e' <;> cases hy
  exact Nat.add_le_add_right hle latency

/-- The items of a cycle are the writes of one cycle. -/
theorem length_itemsOf_le (s : PortSchedule n T) (latency due : ℕ) :
    ((itemsOf latency s).filter (·.2 = due)).length ≤ s.writesIn (due - latency) := by
  unfold itemsOf writesIn
  induction s with
  | nil => exact Nat.le_refl 0
  | cons e s ih =>
    obtain ⟨c, x | r | r⟩ := e
    · by_cases hc : c + latency = due
      · have hw : isWriteIn (due - latency) (c, (PortEvent.write x : PortEvent n T)) = true := by
          simp [isWriteIn]
          omega
        simp only [itemOf, List.filterMap_cons, hc, List.countP_cons, hw, if_true]
        simpa using ih
      · refine Nat.le_trans ?_ (List.Sublist.countP_le (List.sublist_cons_self _ _))
        simpa [itemOf, hc] using ih
    · exact ih
    · exact ih

theorem itemsOf_append (latency : ℕ) (s : PortSchedule n T) (e : ℕ × PortEvent n T) :
    itemsOf latency (s ++ [e]) = itemsOf latency s ++ (itemOf latency e).toList := by
  unfold itemsOf
  rw [List.filterMap_append]
  rcases h : itemOf latency e with _ | x <;> simp [h]

theorem readsIn_append (s : PortSchedule n T) (e : ℕ × PortEvent n T) (r : Fin n) (cycle : ℕ) :
    PortSchedule.readsIn (s ++ [e]) r cycle
      = s.readsIn r cycle + if isReadIn r cycle e then 1 else 0 := by
  unfold PortSchedule.readsIn
  rw [List.countP_append, List.countP_singleton]

theorem writesIn_append (s : PortSchedule n T) (e : ℕ × PortEvent n T) (cycle : ℕ) :
    PortSchedule.writesIn (s ++ [e]) cycle
      = s.writesIn cycle + if isWriteIn cycle e then 1 else 0 := by
  unfold PortSchedule.writesIn
  rw [List.countP_append, List.countP_singleton]

theorem itemsOf_le (hcycles : ∀ e ∈ s, e.1 ≤ cycle) :
    ∀ y ∈ itemsOf latency s, y.2 ≤ cycle + latency := by
  intro y hy
  obtain ⟨c, x, hmem, rfl⟩ := mem_itemsOf hy
  exact Nat.add_le_add_right (hcycles _ hmem) latency

/-- As long as the bandwidth is not used up, the items still to be read leave a slot. -/
theorem room_of_bandwidth (hcycles : ∀ e ∈ s, e.1 ≤ cycle) (hbw : ∀ c, s.writesIn c ≤ b)
    (hroom : s.writesIn cycle < b) (latency : ℕ) (x : T) :
    ((itemsOf latency s).filter (cycle ≤ ·.2)).length < (latency + 1) * b := by
  have hitems : itemsOf latency (s ++ [(cycle, PortEvent.write x)])
      = itemsOf latency s ++ [(x, cycle + latency)] := itemsOf_append _ _ _
  have hw : ((itemsOf latency (s ++ [(cycle, PortEvent.write x)])).filter (cycle ≤ ·.2)).length
      ≤ (latency + 1) * b := length_window ?_ ?_
  · rw [hitems, List.filter_append, List.length_append] at hw
    simp at hw
    omega
  · refine itemsOf_le fun e he => ?_
    rcases List.mem_append.1 he with he | he
    · exact hcycles e he
    · rw [List.mem_singleton.1 he]
  · intro due
    refine Nat.le_trans (length_itemsOf_le _ _ _) ?_
    rw [writesIn_append]
    split_ifs with h
    · have hc : cycle = due - latency := by simpa [isWriteIn] using h
      rw [← hc]
      exact hroom
    · exact hbw _

/-- Where a reader is after a schedule. -/
structure ReadPort.Delivers (p : ReadPort T) (key : String) (b latency : ℕ) (s : PortSchedule n T)
    (r : Fin n) (now : ℕ) : Prop where
  key_eq : p.key = key
  latency_eq : p.latency = latency
  last_le : p.lastCycle ≤ now
  later (cycle : ℕ) : p.lastCycle < cycle → s.readsIn r cycle = 0
  follows : p.Follows b (itemsOf latency s)
    (min (s.readsIn r p.lastCycle) ((itemsOf latency s).filter (·.2 = p.lastCycle)).length)

variable {p : ReadPort T} {key : String} {now : ℕ} {e : ℕ × PortEvent n T}

/-- The reads in a cycle that is not over. -/
theorem ReadPort.Delivers.readsIn_eq (h : p.Delivers key b latency s r now) (hle : now ≤ cycle) :
    p.readsIn cycle
        (min (s.readsIn r p.lastCycle) ((itemsOf latency s).filter (·.2 = p.lastCycle)).length)
      = min (s.readsIn r cycle) ((itemsOf latency s).filter (·.2 = cycle)).length := by
  unfold ReadPort.readsIn
  split_ifs with he
  · rw [he]
  · have hlt : p.lastCycle < cycle := by
      have := h.last_le
      omega
    rw [h.later cycle hlt, Nat.zero_min]

/-- The next item is the one that the reference gives. -/
theorem ReadPort.Delivers.nextItem_eq (h : p.Delivers key b latency s r now) (hle : now ≤ cycle) :
    (p.nextItem (itemsOf latency s) cycle
        (min (s.readsIn r p.lastCycle) ((itemsOf latency s).filter (·.2 = p.lastCycle)).length)).map
      (·.1) = (s.valuesFor latency cycle)[s.readsIn r cycle]? := by
  rw [ReadPort.nextItem, h.readsIn_eq hle, valuesFor_eq, List.getElem?_map]
  congr 1
  rcases Nat.lt_or_ge (s.readsIn r cycle)
    ((itemsOf latency s).filter (·.2 = cycle)).length with hlt | hge
  · rw [Nat.min_eq_left (Nat.le_of_lt hlt)]
  · rw [Nat.min_eq_right hge, List.getElem?_eq_none (Nat.le_refl _), List.getElem?_eq_none hge]

namespace ReadPort.Delivers

/-- Looking whether a value is there. -/
theorem isReady (h : p.Delivers key b latency s r now) (hs : s.Ordered) (hle : now ≤ cycle) :
    (p.isReady cycle).1 = decide (s.readsIn r cycle < (s.valuesFor latency cycle).length)
      ∧ (p.isReady cycle).2.Delivers key b latency s r cycle := by
  have hlast : p.lastCycle ≤ cycle := Nat.le_trans h.last_le hle
  refine ⟨?_, h.key_eq, h.latency_eq, Nat.le_refl _, fun c hc => ?_, ?_⟩
  · have hn := congrArg Option.isSome (h.nextItem_eq hle)
    rw [Option.isSome_map] at hn
    rw [h.follows.isReady (inOrder_itemsOf hs) hlast, hn]
    rw [Bool.eq_iff_iff, decide_eq_true_iff]
    simp
  · exact h.later c (Nat.lt_of_le_of_lt hlast hc)
  · have hc := h.follows.cleanup (inOrder_itemsOf hs) hlast
    rw [h.readsIn_eq hle] at hc
    exact hc

/-- An event that is not for the reader: it has read as much as before. -/
theorem append (h : p.Delivers key b latency s r now) (hitem : itemOf latency e = none)
    (hread : ∀ cycle, isReadIn r cycle e = false) : p.Delivers key b latency (s ++ [e]) r now := by
  have hitems : itemsOf latency (s ++ [e]) = itemsOf latency s := by
    rw [itemsOf_append, hitem]
    exact List.append_nil _
  have hreads : ∀ cycle, PortSchedule.readsIn (s ++ [e]) r cycle = s.readsIn r cycle := by
    intro cycle
    rw [readsIn_append, hread]
    rfl
  refine ⟨h.key_eq, h.latency_eq, h.last_le, fun c hc => ?_, ?_⟩
  · rw [hreads]
    exact h.later c hc
  · rw [hitems, hreads]
    exact h.follows

theorem mono {now' : ℕ} (h : p.Delivers key b latency s r now) (hle : now ≤ now') :
    p.Delivers key b latency s r now' :=
  ⟨h.key_eq, h.latency_eq, Nat.le_trans h.last_le hle, h.later, h.follows⟩

/-- Reading. -/
theorem read (h : p.Delivers key b latency s r now) (hs : s.Ordered) (hle : now ≤ cycle) :
    (p.read cycle).1 = (match (s.valuesFor latency cycle)[s.readsIn r cycle]? with
        | some x => .ok x
        | none => .error ⟨key ++ " has no data to read in cycle:" ++ toString cycle⟩)
      ∧ (p.read cycle).2.Delivers key b latency (s ++ [(cycle, .read r)]) r cycle := by
  have hlast : p.lastCycle ≤ cycle := Nat.le_trans h.last_le hle
  obtain ⟨hreply, hf⟩ := h.follows.read (inOrder_itemsOf hs) hlast
  have hn := h.nextItem_eq hle
  obtain ⟨hkey, hlat, hcycle⟩ := p.read_frame cycle
  have hitems : itemsOf latency (s ++ [(cycle, PortEvent.read r)]) = itemsOf latency s := by
    rw [itemsOf_append]
    exact List.append_nil _
  have hone : PortSchedule.readsIn (s ++ [(cycle, .read r)]) r cycle = s.readsIn r cycle + 1 := by
    rw [readsIn_append, if_pos (by simp [isReadIn])]
  refine ⟨?_, hkey.trans h.key_eq, hlat.trans h.latency_eq, le_of_eq hcycle, fun c hc => ?_, ?_⟩
  · rw [hreply, ← hn]
    rcases p.nextItem (itemsOf latency s) cycle _ with _ | x
    · simp [ReadPort.noData, h.key_eq]
    · rfl
  · rw [hcycle] at hc
    have hne : isReadIn r c (cycle, (PortEvent.read r : PortEvent n T)) = false := by
      simp [isReadIn]
      omega
    rw [readsIn_append, h.later c (Nat.lt_of_le_of_lt hlast hc), hne]
    rfl
  · have hmin : p.readsIn cycle
          (min (s.readsIn r p.lastCycle) ((itemsOf latency s).filter (·.2 = p.lastCycle)).length)
        + (if (p.nextItem (itemsOf latency s) cycle (min (s.readsIn r p.lastCycle)
            ((itemsOf latency s).filter (·.2 = p.lastCycle)).length)).isSome then 1 else 0)
        = min (s.readsIn r cycle + 1) ((itemsOf latency s).filter (·.2 = cycle)).length := by
      rw [← Option.isSome_map, hn, h.readsIn_eq hle]
      have hlen : (s.valuesFor latency cycle).length
          = ((itemsOf latency s).filter (·.2 = cycle)).length := by
        rw [valuesFor_eq, List.length_map]
      rcases Nat.lt_or_ge (s.readsIn r cycle) (s.valuesFor latency cycle).length with hlt | hge
      · rw [List.getElem?_eq_getElem hlt]
        simp only [Option.isSome_some, if_true]
        omega
      · rw [List.getElem?_eq_none hge]
        simp only [Option.isSome_none, Bool.false_eq_true, if_false]
        omega
    rw [hcycle, hitems, hone, ← hmin]
    exact hf

/-- A write reaches the reader. -/
theorem emplaceData (h : p.Delivers key b latency s r now) (hs : s.Ordered) (hle : now ≤ cycle)
    (hcycles : ∀ e ∈ s, e.1 ≤ now) (hbw : ∀ c, s.writesIn c ≤ b) (hroom : s.writesIn cycle < b)
    (hlat : 1 ≤ latency) (x : T) :
    (p.emplaceData cycle x).Delivers key b latency (s ++ [(cycle, .write x)]) r cycle := by
  have hlast : p.lastCycle ≤ cycle := Nat.le_trans h.last_le hle
  have hcycles' : ∀ e ∈ s, e.1 ≤ cycle := fun e he => Nat.le_trans (hcycles e he) hle
  have hitems : itemsOf latency (s ++ [(cycle, PortEvent.write x)])
      = itemsOf latency s ++ [(x, cycle + latency)] := itemsOf_append _ _ _
  have hreads : ∀ c, PortSchedule.readsIn (s ++ [(cycle, .write x)]) r c = s.readsIn r c :=
    fun c => readsIn_append _ _ _ _
  have hmax : ∀ y ∈ itemsOf latency s, y.2 ≤ cycle + p.latency := by
    rw [h.latency_eq]
    exact itemsOf_le hcycles'
  have hf := h.follows.emplaceData (inOrder_itemsOf hs) hlast hmax
    (by rw [h.latency_eq]; exact room_of_bandwidth hcycles' hbw hroom latency x) x
  rw [h.readsIn_eq hle, h.latency_eq] at hf
  refine ⟨h.key_eq, h.latency_eq, Nat.le_refl _, fun c hc => ?_, ?_⟩
  · rw [hreads]
    exact h.later c (Nat.lt_of_le_of_lt hlast hc)
  · -- the item is for a later cycle, so the reads of this one are the same
    have hlen : (itemsOf latency (s ++ [(cycle, PortEvent.write x)])).filter (·.2 = cycle)
        = (itemsOf latency s).filter (·.2 = cycle) := by
      have hne : latency ≠ 0 := by omega
      rw [hitems, List.filter_append]
      simp [hne]
    show (p.emplaceData cycle x).Follows b _
      (min (PortSchedule.readsIn (s ++ [(cycle, .write x)]) r cycle)
        ((itemsOf latency (s ++ [(cycle, PortEvent.write x)])).filter (·.2 = cycle)).length)
    rw [hreads, hlen, hitems]
    exact hf

end ReadPort.Delivers

/-- The counter after some writes in a cycle: it starts at zero, but in the cycle 0 before the first
write, and with it in any other cycle. -/
def counterOf (cycle writes : ℕ) : ℕ := if cycle = 0 then writes else writes - 1

/-- Where the write port is after a schedule. -/
structure WritePort.Counts (p : WritePort) (key : String) (bandwidth : BitVec 32)
    (s : PortSchedule n T) (now : ℕ) : Prop where
  key_eq : p.key = key
  bandwidth_eq : p.bandwidth = bandwidth
  last_le : p.lastCycle ≤ now
  later (cycle : ℕ) : p.lastCycle < cycle → s.writesIn cycle = 0
  counter : p.writeCounter = BitVec.ofNat 32 (counterOf p.lastCycle (s.writesIn p.lastCycle))
  written : p.lastCycle = 0 ∨ 0 < s.writesIn p.lastCycle

namespace WritePort.Counts

variable {p : WritePort} {bandwidth : BitVec 32}

/-- The counter that a write is checked with. -/
theorem increment (h : p.Counts key bandwidth s now) (hle : now ≤ cycle) (x : T) :
    (p.incrementWriteCounter cycle).1
        = (if bandwidth < BitVec.ofNat 32 (counterOf cycle (s.writesIn cycle + 1)) then
            .error ⟨key ++ " port is overloaded by bandwidth"⟩ else .ok ())
      ∧ (p.incrementWriteCounter cycle).2.Counts key bandwidth (s ++ [(cycle, .write x)]) cycle := by
  have hlast : p.lastCycle ≤ cycle := Nat.le_trans h.last_le hle
  have hcounter : (if p.lastCycle = cycle then p.writeCounter + 1#32 else 0#32)
      = BitVec.ofNat 32 (counterOf cycle (s.writesIn cycle + 1)) := by
    split_ifs with he
    · rw [h.counter, ← BitVec.ofNat_add, he]
      congr 1
      unfold counterOf
      rcases h.written with h₀ | hpos
      · simp [← he, h₀]
      · rw [he] at hpos
        split_ifs <;> omega
    · have hlt : p.lastCycle < cycle := by omega
      have hne : cycle ≠ 0 := by omega
      simp [h.later cycle hlt, counterOf, hne]
  have hone : PortSchedule.writesIn (s ++ [(cycle, .write x)]) cycle = s.writesIn cycle + 1 := by
    rw [writesIn_append, if_pos (by simp [isWriteIn])]
  refine ⟨?_, h.key_eq, h.bandwidth_eq, Nat.le_refl _, fun c hc => ?_, ?_, ?_⟩
  · unfold WritePort.incrementWriteCounter
    dsimp only
    rw [hcounter, h.bandwidth_eq, WritePort.overloaded, h.key_eq]
  · have hc' : cycle < c := hc
    have hne : isWriteIn c (cycle, (PortEvent.write x : PortEvent n T)) = false := by
      simp [isWriteIn]
      omega
    rw [writesIn_append, h.later c (by omega), hne]
    rfl
  · show (if p.lastCycle = cycle then p.writeCounter + 1#32 else 0#32)
      = BitVec.ofNat 32 (counterOf cycle (PortSchedule.writesIn (s ++ [(cycle, .write x)]) cycle))
    rw [hone]
    exact hcounter
  · refine .inr ?_
    show 0 < PortSchedule.writesIn (s ++ [(cycle, .write x)]) cycle
    rw [hone]
    exact Nat.succ_pos _

/-- Reads are not counted. -/
theorem append (h : p.Counts key bandwidth s now) (hle : now ≤ cycle)
    (he : ∀ c, isWriteIn c e = false) : p.Counts key bandwidth (s ++ [e]) cycle := by
  have hwrites : ∀ c, PortSchedule.writesIn (s ++ [e]) c = s.writesIn c := by
    intro c
    rw [writesIn_append, he]
    rfl
  refine ⟨h.key_eq, h.bandwidth_eq, Nat.le_trans h.last_le hle, fun c hc => ?_, ?_, ?_⟩
  · rw [hwrites]
    exact h.later c hc
  · rw [hwrites]
    exact h.counter
  · rw [hwrites]
    exact h.written

/-- A write that is within the bandwidth is accepted. -/
theorem accepted (h : p.Counts key bandwidth s now) (hle : now ≤ cycle) (x : T)
    (hbw : s.writesIn cycle < bandwidth.toNat) : (p.incrementWriteCounter cycle).1 = .ok () := by
  rw [(h.increment hle x).1, if_neg]
  rw [BitVec.lt_def, BitVec.toNat_ofNat, Nat.not_lt]
  refine Nat.le_trans (Nat.mod_le _ _) ?_
  unfold counterOf
  split_ifs <;> omega

end WritePort.Counts

section Step

variable {c : Cluster n T} {cycle : ℕ} {x : T}

/-- The reply to a write, by the check of the write port. -/
theorem Cluster.step_write_eq (c : Cluster n T) (cycle : ℕ) (x : T) :
    Cluster.machine.step c (cycle, .write x) = match (c.writer.incrementWriteCounter cycle).1 with
      | .ok _ => (⟨(c.writer.incrementWriteCounter cycle).2,
          fun r => (c.readers r).emplaceData cycle x⟩, .written)
      | .error e => ({ c with writer := (c.writer.incrementWriteCounter cycle).2 }, .error e) := by
  show (match c.write x cycle with
    | (.ok _, c) => (c, PortReply.written)
    | (.error e, c) => (c, .error e)) = _
  unfold Cluster.write
  rcases c.writer.incrementWriteCounter cycle with ⟨_ | _, _⟩ <;> rfl

theorem Cluster.step_write_ok (h : (c.writer.incrementWriteCounter cycle).1 = .ok ()) :
    Cluster.machine.step c (cycle, .write x)
      = (⟨(c.writer.incrementWriteCounter cycle).2,
        fun r => (c.readers r).emplaceData cycle x⟩, .written) := by
  rw [Cluster.step_write_eq, h]

theorem Cluster.step_write_error {e : PortError}
    (h : (c.writer.incrementWriteCounter cycle).1 = .error e) :
    Cluster.machine.step c (cycle, .write x)
      = ({ c with writer := (c.writer.incrementWriteCounter cycle).2 }, .error e) := by
  rw [Cluster.step_write_eq, h]

theorem Cluster.next_read (c : Cluster n T) (cycle : ℕ) (r : Fin n) :
    Cluster.machine.next c (cycle, .read r)
      = { c with readers := Function.update c.readers r ((c.readers r).read cycle).2 } := by
  show (match (c.readers r).read cycle with
    | (.ok x, p) => ({ c with readers := Function.update c.readers r p }, PortReply.value x)
    | (.error e, p) => ({ c with readers := Function.update c.readers r p }, .error e)).1 = _
  rcases (c.readers r).read cycle with ⟨_ | _, _⟩ <;> rfl

theorem Cluster.out_read (c : Cluster n T) (cycle : ℕ) (r : Fin n) :
    Cluster.machine.out c (cycle, .read r) = match ((c.readers r).read cycle).1 with
      | .ok x => .value x
      | .error e => .error e := by
  show (match (c.readers r).read cycle with
    | (.ok x, p) => ({ c with readers := Function.update c.readers r p }, PortReply.value x)
    | (.error e, p) => ({ c with readers := Function.update c.readers r p }, .error e)).2 = _
  rcases (c.readers r).read cycle with ⟨_ | _, _⟩ <;> rfl

end Step

/-- Where the ports are after a schedule. -/
structure Cluster.Delivers (c : Cluster n T) (key : String) (bandwidth : BitVec 32)
    (latency : Fin n → ℕ) (s : PortSchedule n T) (now : ℕ) : Prop where
  ordered : s.Ordered
  cycles : ∀ e ∈ s, e.1 ≤ now
  writer : c.writer.Counts key bandwidth s now
  readers (r : Fin n) : (c.readers r).Delivers key bandwidth.toNat (latency r) s r now

namespace Cluster.Delivers

variable {c : Cluster n T} {bandwidth : BitVec 32} {latency : Fin n → ℕ}

theorem init (hinit : Cluster.init key bandwidth latency = .ok c) :
    c.Delivers key bandwidth latency [] 0 := by
  unfold Cluster.init at hinit
  split_ifs at hinit
  cases hinit
  refine ⟨.nil, nofun, ⟨rfl, rfl, Nat.le_refl _, fun _ _ => rfl, rfl, .inl rfl⟩, fun r => ?_⟩
  exact ⟨rfl, rfl, Nat.le_refl _, fun _ _ => rfl, rfl, Nat.zero_le _, PortQueue.holds_resize _⟩

theorem extend (hs : s.Ordered) (hcycles : ∀ e ∈ s, e.1 ≤ now) (hle : now ≤ e.1) :
    PortSchedule.Ordered (s ++ [e]) ∧ ∀ f ∈ s ++ [e], f.1 ≤ e.1 := by
  constructor
  · refine List.pairwise_append.2 ⟨hs, List.pairwise_singleton _ _, fun f hf g hg => ?_⟩
    rw [List.mem_singleton.1 hg]
    exact Nat.le_trans (hcycles f hf) hle
  · intro f hf
    rcases List.mem_append.1 hf with hf | hf
    · exact Nat.le_trans (hcycles f hf) hle
    · rw [List.mem_singleton.1 hf]

/-- One event: the reply is that of the reference, and the ports are where they should be. -/
theorem step (h : c.Delivers key bandwidth latency s now) (hlat : ∀ r, 1 ≤ latency r)
    (hle : now ≤ e.1) (hbw : ∀ t, PortSchedule.writesIn (s ++ [e]) t ≤ bandwidth.toNat) :
    Cluster.machine.out c e = s.reply key latency e
      ∧ (Cluster.machine.next c e).Delivers key bandwidth latency (s ++ [e]) e.1 := by
  obtain ⟨hordered, hcycles⟩ := extend h.ordered h.cycles hle
  have hbw' : ∀ t, s.writesIn t ≤ bandwidth.toNat := by
    intro t
    refine Nat.le_trans ?_ (hbw t)
    rw [writesIn_append]
    exact Nat.le_add_right _ _
  obtain ⟨cycle, x | r | r⟩ := e
  · have hroom : s.writesIn cycle < bandwidth.toNat := by
      have hone := hbw cycle
      rwa [writesIn_append, if_pos (by simp [isWriteIn])] at hone
    have hstep := Cluster.step_write_ok (x := x) (h.writer.accepted hle x hroom)
    refine ⟨congrArg Prod.snd hstep, ?_⟩
    rw [show Cluster.machine.next c (cycle, .write x) = _ from congrArg Prod.fst hstep]
    exact ⟨hordered, hcycles, (h.writer.increment hle x).2, fun r =>
      (h.readers r).emplaceData h.ordered hle h.cycles hbw' hroom (hlat r) x⟩
  · obtain ⟨hready, hr⟩ := (h.readers r).isReady h.ordered hle
    refine ⟨?_, hordered, hcycles, h.writer.append hle fun _ => rfl, fun r' => ?_⟩
    · show PortReply.ready ((c.readers r).isReady cycle).1 = _
      rw [hready]
      rfl
    · show (Function.update c.readers r ((c.readers r).isReady cycle).2 r').Delivers _ _ _ _ _ _
      by_cases hrr : r' = r
      · subst hrr
        rw [Function.update_self]
        exact hr.append rfl fun _ => rfl
      · rw [Function.update_of_ne hrr]
        exact ((h.readers r').append rfl fun _ => rfl).mono hle
  · obtain ⟨hvalue, hr⟩ := (h.readers r).read h.ordered hle
    constructor
    · rw [Cluster.out_read, hvalue, PortSchedule.reply]
      rcases (s.valuesFor (latency r) cycle)[s.readsIn r cycle]? with _ | x <;> rfl
    · rw [Cluster.next_read]
      refine ⟨hordered, hcycles, h.writer.append hle fun _ => rfl, fun r' => ?_⟩
      show (Function.update c.readers r ((c.readers r).read cycle).2 r').Delivers _ _ _ _ _ _
      by_cases hrr : r' = r
      · subst hrr
        rw [Function.update_self]
        exact hr
      · rw [Function.update_of_ne hrr]
        refine ((h.readers r').append rfl fun t => ?_).mono hle
        have hne : r ≠ r' := fun he => hrr he.symm
        simp [isReadIn, hne]

/-- From a place on, the replies are those of the reference. -/
theorem outputs (hlat : ∀ r, 1 ≤ latency r) :
    ∀ (todo : PortSchedule n T) {c : Cluster n T} {s : PortSchedule n T} {now : ℕ},
      c.Delivers key bandwidth latency s now → todo.Ordered → (∀ e ∈ todo, now ≤ e.1) →
      (∀ t, PortSchedule.writesIn (s ++ todo) t ≤ bandwidth.toNat) →
      Cluster.machine.outputs c todo = (PortSchedule.reference key latency).outputs s todo
  | [], _, _, _, _, _, _, _ => rfl
  | e :: todo, c, s, now, h, htodo, hnow, hbw => by
    obtain ⟨he, htodo⟩ := List.pairwise_cons.1 htodo
    have hsplit : s ++ e :: todo = s ++ [e] ++ todo := by simp
    have hbw' : ∀ t, PortSchedule.writesIn (s ++ [e]) t ≤ bandwidth.toNat := by
      intro t
      refine Nat.le_trans ?_ (hbw t)
      rw [hsplit]
      exact List.Sublist.countP_le (List.sublist_append_left _ _)
    obtain ⟨hout, hnext⟩ := h.step hlat (hnow e List.mem_cons_self) hbw'
    have ih := outputs hlat todo hnext htodo he (hsplit ▸ hbw)
    exact congrArg₂ List.cons hout ih

end Cluster.Delivers

/-- For every bandwidth, number of readers and latencies of at least one cycle, and in every
schedule whose cycles do not go back and that has at most a bandwidth of writes in a cycle: the
write port accepts every write, and a reader gives in each cycle the values written its latency
before, in their order and each of them once, whatever was read or not in other cycles. -/
theorem delivery {c : Cluster n T} {bandwidth : BitVec 32} {latency : Fin n → ℕ}
    {schedule : PortSchedule n T} (hinit : Cluster.init key bandwidth latency = .ok c)
    (hlat : ∀ r, 1 ≤ latency r) (hordered : schedule.Ordered)
    (hbw : ∀ t, schedule.writesIn t ≤ bandwidth.toNat) :
    Cluster.machine.outputs c schedule = (reference key latency).outputs [] schedule :=
  (Cluster.Delivers.init hinit).outputs hlat schedule hordered (fun _ _ => Nat.zero_le _) hbw

/-- A value that is not read in its cycle is thrown away, and the next one is still there. -/
theorem delivery_skips : ∃ c,
    Cluster.init "Key" 1#32 (fun _ : Fin 1 => 1) = .ok c
      ∧ Cluster.machine.outputs c
          [(0, .write 10), (1, .write 11), (1, .isReady 0), (2, .isReady 0), (2, .read 0)]
        = [.written, .written, .ready true, .ready true, .value 11] := by
  refine ⟨_, rfl, (delivery rfl (fun _ => Nat.le_refl 1) ?_ fun t => ?_).trans rfl⟩
  · simp [PortSchedule.Ordered]
  · rcases t with _ | _ | t
    · decide
    · decide
    · simp [PortSchedule.writesIn, isWriteIn]

end Delivery

section Bandwidth

open PortSchedule

variable {c : Cluster n T} {key : String} {bandwidth : BitVec 32} {latency : Fin n → ℕ}
  {s todo schedule : PortSchedule n T} {now now' cycle : ℕ} {e : ℕ × PortEvent n T} {x : T}

/-- One event counts as it should, whatever becomes of it. -/
theorem counts_next (h : c.writer.Counts key bandwidth s now) (hle : now ≤ e.1) :
    (Cluster.machine.next c e).writer.Counts key bandwidth (s ++ [e]) e.1 := by
  obtain ⟨cycle, x | r | r⟩ := e
  · have hw : (Cluster.machine.next c (cycle, .write x)).writer
        = (c.writer.incrementWriteCounter cycle).2 := by
      show (Cluster.machine.step c (cycle, .write x)).1.writer = _
      rw [Cluster.step_write_eq]
      rcases (c.writer.incrementWriteCounter cycle).1 with _ | _ <;> rfl
    rw [hw]
    exact (h.increment hle x).2
  · exact h.append hle fun _ => rfl
  · rw [Cluster.next_read]
    exact h.append hle fun _ => rfl

theorem counts_run : ∀ (todo : PortSchedule n T) {c : Cluster n T}
    {s : PortSchedule n T} {now : ℕ}, now ≤ now' → c.writer.Counts key bandwidth s now →
    todo.Ordered → (∀ e ∈ todo, now ≤ e.1 ∧ e.1 ≤ now') →
    (Cluster.machine.run c todo).writer.Counts key bandwidth (s ++ todo) now'
  | [], c, s, now, hle, h, _, _ => by
    rw [List.append_nil]
    exact ⟨h.key_eq, h.bandwidth_eq, Nat.le_trans h.last_le hle, h.later, h.counter, h.written⟩
  | e :: todo, c, s, now, hle, h, htodo, hnow => by
    obtain ⟨he, htodo⟩ := List.pairwise_cons.1 htodo
    have hnext := counts_next h (hnow e List.mem_cons_self).1
    have ih := counts_run todo (hnow e List.mem_cons_self).2 hnext htodo fun f hf =>
      ⟨he f hf, (hnow f (List.mem_cons_of_mem _ hf)).2⟩
    rwa [List.append_assoc] at ih

/-- What the bandwidth is for: of the writes of a cycle the first ones are accepted, as many as the
bandwidth, and the others throw; no queue ever has more items than slots; and a value that is put in
goes to a free slot. -/
structure Cluster.BandwidthEnforced (c : Cluster n T) (key : String) (bandwidth : ℕ)
    (latency : Fin n → ℕ) (schedule : PortSchedule n T) : Prop where
  reply {done rest : PortSchedule n T} {cycle : ℕ} {x : T} :
    schedule = done ++ (cycle, .write x) :: rest →
    Cluster.machine.out (Cluster.machine.run c done) (cycle, .write x)
      = if done.writesIn cycle < bandwidth then .written
        else .error ⟨key ++ " port is overloaded by bandwidth"⟩
  occupied {done rest : PortSchedule n T} : schedule = done ++ rest → ∀ r,
    ((Cluster.machine.run c done).readers r).queue.occupied ≤ (latency r + 1) * bandwidth
  free {done rest : PortSchedule n T} {cycle : ℕ} {x : T} :
    schedule = done ++ (cycle, .write x) :: rest →
    Cluster.machine.out (Cluster.machine.run c done) (cycle, .write x) = .written → ∀ r,
    let queue := (((Cluster.machine.run c done).readers r).cleanupStaleData cycle).queue
    queue.arena queue.pBack = none

theorem writesIn_cons (e : ℕ × PortEvent n T) (s : PortSchedule n T) (cycle : ℕ) :
    PortSchedule.writesIn (e :: s) cycle = s.writesIn cycle + if isWriteIn cycle e then 1 else 0 := by
  unfold PortSchedule.writesIn
  rw [List.countP_cons]

/-- Some of the writes of a cycle, and the next one. -/
theorem exists_write_after : ∀ (s : PortSchedule n T) {k : ℕ}, k < s.writesIn cycle →
    ∃ done x rest, s = done ++ (cycle, .write x) :: rest ∧ PortSchedule.writesIn done cycle = k
  | [], _, h => absurd h (Nat.not_lt_zero _)
  | e :: s, k, h => by
    rw [writesIn_cons] at h
    by_cases he : isWriteIn cycle e
    · rw [if_pos he] at h
      rcases k with _ | k
      · obtain ⟨c, x | r | r⟩ := e
        · obtain rfl : c = cycle := by simpa [isWriteIn] using he
          exact ⟨[], x, s, rfl, rfl⟩
        · cases he
        · cases he
      · obtain ⟨done, x, rest, rfl, rfl⟩ := exists_write_after s (Nat.lt_of_succ_lt_succ h)
        exact ⟨e :: done, x, rest, rfl, by rw [writesIn_cons, if_pos he]⟩
    · rw [if_neg he] at h
      obtain ⟨done, x, rest, rfl, rfl⟩ := exists_write_after s h
      exact ⟨e :: done, x, rest, rfl, by rw [writesIn_cons, if_neg he]; rfl⟩

/-- A write gets through when its counter is within the bandwidth. -/
theorem out_write (h : c.writer.Counts key bandwidth s now) (hle : now ≤ cycle) :
    Cluster.machine.out c (cycle, .write x)
      = if bandwidth < BitVec.ofNat 32 (counterOf cycle (s.writesIn cycle + 1)) then
          .error ⟨key ++ " port is overloaded by bandwidth"⟩ else .written := by
  show (Cluster.machine.step c (cycle, .write x)).2 = _
  rw [Cluster.step_write_eq, (h.increment hle x).1]
  split_ifs <;> rfl

/-- No cycle but the first has more writes than the bandwidth, and the counter does not wrap around
in the first one. -/
def PortSchedule.Careful (s : PortSchedule n T) (bandwidth : ℕ) : Prop :=
  (∀ t, 0 < t → s.writesIn t ≤ bandwidth) ∧ s.writesIn 0 < 2 ^ 32

theorem PortSchedule.Careful.left {b : ℕ} (h : PortSchedule.Careful (s ++ todo) b) :
    s.Careful b := by
  have hle : ∀ t, s.writesIn t ≤ PortSchedule.writesIn (s ++ todo) t := fun t =>
    List.Sublist.countP_le (List.sublist_append_left _ _)
  exact ⟨fun t ht => Nat.le_trans (hle t) (h.1 t ht), Nat.lt_of_le_of_lt (hle 0) h.2⟩

/-- The check of a careful schedule. -/
theorem out_write_careful (h : c.writer.Counts key bandwidth s now) (hle : now ≤ cycle)
    (hs : PortSchedule.Careful (s ++ [(cycle, .write x)]) bandwidth.toNat) :
    Cluster.machine.out c (cycle, .write x) = if s.writesIn cycle < bandwidth.toNat then .written
      else .error ⟨key ++ " port is overloaded by bandwidth"⟩ := by
  have hone : PortSchedule.writesIn (s ++ [(cycle, .write x)]) cycle = s.writesIn cycle + 1 := by
    rw [writesIn_append, if_pos (by simp [isWriteIn])]
  have hlt := bandwidth.isLt
  have hiff : bandwidth < BitVec.ofNat 32 (counterOf cycle (s.writesIn cycle + 1))
      ↔ ¬ s.writesIn cycle < bandwidth.toNat := by
    rw [BitVec.lt_def, BitVec.toNat_ofNat]
    unfold counterOf
    rcases Nat.eq_zero_or_pos cycle with rfl | hpos
    · have := hs.2
      rw [hone] at this
      rw [if_pos rfl, Nat.mod_eq_of_lt this]
      omega
    · have := hs.1 cycle hpos
      rw [hone] at this
      rw [if_neg (Nat.ne_of_gt hpos), Nat.add_sub_cancel, Nat.mod_eq_of_lt (by omega)]
      omega
  rw [out_write h hle]
  by_cases hk : s.writesIn cycle < bandwidth.toNat
  · rw [if_neg (fun hb => hiff.1 hb hk), if_pos hk]
  · rw [if_pos (hiff.2 hk), if_neg hk]

/-- Where the ports are after a careful schedule, of which some writes were accepted. -/
structure Cluster.Enforces (c : Cluster n T) (key : String) (bandwidth : BitVec 32)
    (latency : Fin n → ℕ) (s accepted : PortSchedule n T) (now : ℕ) : Prop where
  ordered : accepted.Ordered
  cycles : ∀ e ∈ accepted, e.1 ≤ now
  writer : c.writer.Counts key bandwidth s now
  writes (t : ℕ) : accepted.writesIn t = min (s.writesIn t) bandwidth.toNat
  latency_eq (r : Fin n) : (c.readers r).latency = latency r
  last_le (r : Fin n) : (c.readers r).lastCycle ≤ now
  readers (r : Fin n) : ∃ k,
    (c.readers r).Follows bandwidth.toNat (itemsOf (latency r) accepted) k

namespace Cluster.Enforces

variable {accepted : PortSchedule n T}

theorem init (hinit : Cluster.init key bandwidth latency = .ok c) :
    c.Enforces key bandwidth latency [] [] 0 := by
  have h := Cluster.Delivers.init hinit
  exact ⟨h.ordered, h.cycles, h.writer, fun _ => (Nat.zero_min _).symm,
    fun r => (h.readers r).latency_eq, fun r => (h.readers r).last_le,
    fun r => ⟨_, (h.readers r).follows⟩⟩

theorem occupied_le (h : c.Enforces key bandwidth latency s accepted now) (r : Fin n) :
    (c.readers r).queue.occupied ≤ (latency r + 1) * bandwidth.toNat := by
  obtain ⟨k, hf⟩ := h.readers r
  have hfits := hf.holds.fits
  rw [hf.capacity, h.latency_eq] at hfits
  rw [hf.holds.occupied]
  exact hfits

/-- A reader has room for a write that is within the bandwidth. -/
theorem room (h : c.Enforces key bandwidth latency s accepted now) (hle : now ≤ cycle)
    (hk : s.writesIn cycle < bandwidth.toNat) (r : Fin n) (x : T) :
    ((itemsOf (latency r) accepted).filter (cycle ≤ ·.2)).length
      < ((c.readers r).latency + 1) * bandwidth.toNat := by
  rw [h.latency_eq]
  refine room_of_bandwidth (fun e he => Nat.le_trans (h.cycles e he) hle) (fun t => ?_) ?_ _ x
  · rw [h.writes]
    exact Nat.min_le_right _ _
  · rw [h.writes]
    exact Nat.lt_of_le_of_lt (Nat.min_le_left _ _) hk

/-- Such a write goes to a free slot. -/
theorem free (h : c.Enforces key bandwidth latency s accepted now) (hle : now ≤ cycle)
    (hk : s.writesIn cycle < bandwidth.toNat) (r : Fin n) (x : T) :
    ((c.readers r).cleanupStaleData cycle).queue.arena
      ((c.readers r).cleanupStaleData cycle).queue.pBack = none := by
  obtain ⟨k, hf⟩ := h.readers r
  have hlast := Nat.le_trans (h.last_le r) hle
  have hroom := hf.room (inOrder_itemsOf h.ordered) hlast (h.room hle hk r x)
  have hc := (hf.cleanup (inOrder_itemsOf h.ordered) hlast).holds
  rw [hc.back]
  exact hc.free _ (Nat.le_refl _) hroom

/-- An operation of a reader that takes nothing in. -/
theorem update (h : c.Enforces key bandwidth latency s accepted now) (hle : now ≤ e.1)
    (he : ∀ t, isWriteIn t e = false) {r : Fin n} {p : ReadPort T}
    (hp : p.latency = latency r ∧ p.lastCycle ≤ e.1
      ∧ ∃ k, p.Follows bandwidth.toNat (itemsOf (latency r) accepted) k) :
    (⟨c.writer, Function.update c.readers r p⟩ : Cluster n T).Enforces key bandwidth latency
      (s ++ [e]) accepted e.1 := by
  have hall : ∀ r', ((Function.update c.readers r p) r').latency = latency r'
      ∧ ((Function.update c.readers r p) r').lastCycle ≤ e.1
      ∧ ∃ k, ((Function.update c.readers r p) r').Follows bandwidth.toNat
        (itemsOf (latency r') accepted) k := by
    intro r'
    by_cases hrr : r' = r
    · subst hrr
      rwa [Function.update_self]
    · rw [Function.update_of_ne hrr]
      exact ⟨h.latency_eq r', Nat.le_trans (h.last_le r') hle, h.readers r'⟩
  refine ⟨h.ordered, fun f hf => Nat.le_trans (h.cycles f hf) hle, h.writer.append hle he,
    fun t => ?_, fun r' => (hall r').1, fun r' => (hall r').2.1, fun r' => (hall r').2.2⟩
  rw [h.writes, writesIn_append, he]
  rfl

/-- One event of a careful schedule. -/
theorem next (h : c.Enforces key bandwidth latency s accepted now) (hle : now ≤ e.1)
    (hs : PortSchedule.Careful (s ++ [e]) bandwidth.toNat) : ∃ accepted',
    (Cluster.machine.next c e).Enforces key bandwidth latency (s ++ [e]) accepted' e.1 := by
  obtain ⟨cycle, x | r | r⟩ := e
  · have hout := out_write_careful h.writer hle hs
    have hcounts := counts_next h.writer (e := (cycle, PortEvent.write x)) hle
    rcases hi : (c.writer.incrementWriteCounter cycle).1 with err | _
    · -- the write is rejected, and only the counter has moved
      have hstep := Cluster.step_write_error (x := x) hi
      have hk : ¬ s.writesIn cycle < bandwidth.toNat := by
        intro hk
        rw [if_pos hk,
          show Cluster.machine.out c (cycle, .write x) = _ from congrArg Prod.snd hstep]
          at hout
        cases hout
      rw [show Cluster.machine.next c (cycle, .write x) = _ from congrArg Prod.fst hstep]
        at hcounts ⊢
      refine ⟨accepted, h.ordered, fun f hf => Nat.le_trans (h.cycles f hf) hle, hcounts, fun t => ?_,
        h.latency_eq, fun r => Nat.le_trans (h.last_le r) hle, h.readers⟩
      rw [h.writes, writesIn_append]
      split_ifs with ht
      · obtain rfl : cycle = t := by simpa [isWriteIn] using ht
        omega
      · rfl
    · have hstep := Cluster.step_write_ok (x := x) hi
      have hk : s.writesIn cycle < bandwidth.toNat := by
        by_contra hk
        rw [if_neg hk,
          show Cluster.machine.out c (cycle, .write x) = _ from congrArg Prod.snd hstep]
          at hout
        cases hout
      rw [show Cluster.machine.next c (cycle, .write x) = _ from congrArg Prod.fst hstep]
        at hcounts ⊢
      obtain ⟨hordered, hcycles⟩ := Cluster.Delivers.extend h.ordered h.cycles
        (e := (cycle, PortEvent.write x)) hle
      refine ⟨accepted ++ [(cycle, .write x)], hordered, hcycles, hcounts, fun t => ?_,
        h.latency_eq, fun r => Nat.le_refl _, fun r => ?_⟩
      · rw [writesIn_append, writesIn_append, h.writes]
        split_ifs with ht
        · obtain rfl : cycle = t := by simpa [isWriteIn] using ht
          omega
        · rfl
      · obtain ⟨k, hf⟩ := h.readers r
        have hmax : ∀ y ∈ itemsOf (latency r) accepted, y.2 ≤ cycle + latency r :=
          itemsOf_le fun e he => Nat.le_trans (h.cycles e he) hle
        rw [← h.latency_eq r] at hmax hf
        have hput := hf.emplaceData (inOrder_itemsOf h.ordered)
          (Nat.le_trans (h.last_le r) hle) hmax
          (by rw [h.latency_eq r]; exact h.latency_eq r ▸ h.room hle hk r x) x
        rw [h.latency_eq r] at hput
        exact ⟨_, by rw [itemsOf_append]; exact hput⟩
  · obtain ⟨k, hf⟩ := h.readers r
    exact ⟨accepted, h.update hle (fun _ => rfl) ⟨h.latency_eq r, Nat.le_refl _, _,
      hf.cleanup (inOrder_itemsOf h.ordered) (Nat.le_trans (h.last_le r) hle)⟩⟩
  · obtain ⟨k, hf⟩ := h.readers r
    obtain ⟨-, hlat, hcycle⟩ := (c.readers r).read_frame cycle
    refine ⟨accepted, ?_⟩
    rw [Cluster.next_read]
    exact h.update hle (fun _ => rfl) ⟨hlat.trans (h.latency_eq r), le_of_eq hcycle, _,
      (hf.read (inOrder_itemsOf h.ordered) (Nat.le_trans (h.last_le r) hle)).2⟩

/-- A whole careful schedule. -/
theorem run : ∀ (todo : PortSchedule n T) {c : Cluster n T} {s accepted : PortSchedule n T}
    {now : ℕ}, now ≤ now' → c.Enforces key bandwidth latency s accepted now → todo.Ordered →
    (∀ e ∈ todo, now ≤ e.1 ∧ e.1 ≤ now') →
    PortSchedule.Careful (s ++ todo) bandwidth.toNat → ∃ accepted',
      (Cluster.machine.run c todo).Enforces key bandwidth latency (s ++ todo) accepted' now'
  | [], c, s, accepted, now, hle, h, _, _, _ => by
    rw [List.append_nil]
    have hcounts := counts_run [] hle h.writer .nil nofun
    rw [List.append_nil] at hcounts
    exact ⟨accepted, h.ordered, fun e he => Nat.le_trans (h.cycles e he) hle, hcounts, h.writes,
      h.latency_eq, fun r => Nat.le_trans (h.last_le r) hle, h.readers⟩
  | e :: todo, c, s, accepted, now, hle, h, htodo, hnow, hs => by
    obtain ⟨he, htodo⟩ := List.pairwise_cons.1 htodo
    have hsplit : s ++ e :: todo = s ++ [e] ++ todo := by simp
    rw [hsplit] at hs ⊢
    obtain ⟨hfirst, hlast⟩ := hnow e List.mem_cons_self
    obtain ⟨accepted', hnext⟩ := h.next hfirst hs.left
    exact run todo hlast hnext htodo
      (fun f hf => ⟨he f hf, (hnow f (List.mem_cons_of_mem _ hf)).2⟩) hs

end Cluster.Enforces

/-- A cycle after all those of a schedule. -/
theorem exists_bound : ∀ s : PortSchedule n T, ∃ now, ∀ e ∈ s, e.1 ≤ now
  | [] => ⟨0, nofun⟩
  | e :: s => by
    obtain ⟨now, h⟩ := exists_bound s
    refine ⟨max e.1 now, fun f hf => ?_⟩
    rcases List.mem_cons.1 hf with rfl | hf
    · exact Nat.le_max_left _ _
    · exact Nat.le_trans (h f hf) (Nat.le_max_right _ _)

/-- The bandwidth is enforced in just the schedules that do not rely on it in any cycle but the
first. -/
theorem bandwidthEnforced_iff (hinit : Cluster.init key bandwidth latency = .ok c)
    (hordered : schedule.Ordered) :
    c.BandwidthEnforced key bandwidth.toNat latency schedule
      ↔ schedule.Careful bandwidth.toNat := by
  have hbefore : ∀ {done rest : PortSchedule n T} {cycle : ℕ} {x : T},
      schedule = done ++ (cycle, .write x) :: rest → done.Ordered ∧ ∀ e ∈ done, e.1 ≤ cycle := by
    intro done rest cycle x hsplit
    obtain ⟨hdone, -, hle⟩ := List.pairwise_append.1 (hsplit ▸ hordered)
    exact ⟨hdone, fun e he => hle e he _ List.mem_cons_self⟩
  have hstart := Cluster.Enforces.init hinit
  constructor
  · intro h
    -- a write of a cycle after `k` others would be accepted although it should throw
    have hno : ∀ {t k : ℕ}, k < schedule.writesIn t → bandwidth.toNat ≤ k →
        ¬ bandwidth < BitVec.ofNat 32 (counterOf t (k + 1)) → False := by
      intro t k hk hle hcounter
      obtain ⟨done, x, rest, hsplit, rfl⟩ := exists_write_after schedule hk
      obtain ⟨hdone, hcycles⟩ := hbefore hsplit
      have hcounts := counts_run done (Nat.zero_le t) hstart.writer hdone fun e he =>
        ⟨Nat.zero_le _, hcycles e he⟩
      have hout := h.reply hsplit
      rw [out_write (s := done) hcounts (Nat.le_refl t), if_neg hcounter,
        if_neg (Nat.not_lt.2 hle)] at hout
      cases hout
    have hlt := bandwidth.isLt
    constructor
    · intro t ht
      by_contra hmore
      refine hno (k := bandwidth.toNat) (Nat.not_le.1 hmore) (Nat.le_refl _) ?_
      rw [counterOf, if_neg (Nat.ne_of_gt ht), Nat.add_sub_cancel, BitVec.lt_def,
        BitVec.toNat_ofNat, Nat.mod_eq_of_lt hlt]
      exact Nat.lt_irrefl _
    · by_contra hmore
      refine hno (t := 0) (k := 2 ^ 32 - 1) (by omega) (by omega) ?_
      rw [counterOf, if_pos rfl, BitVec.lt_def, BitVec.toNat_ofNat]
      exact Nat.not_lt_zero _
  · intro hs
    have hrun : ∀ {done rest : PortSchedule n T} {now : ℕ}, schedule = done ++ rest →
        (∀ e ∈ done, e.1 ≤ now) → ∃ accepted,
          (Cluster.machine.run c done).Enforces key bandwidth latency done accepted now := by
      intro done rest now hsplit hcycles
      have hdone := (List.pairwise_append.1 (hsplit ▸ hordered)).1
      exact hstart.run done (Nat.zero_le _) hdone (fun e he => ⟨Nat.zero_le _, hcycles e he⟩)
        (hsplit ▸ hs).left
    have hreply : ∀ {done rest : PortSchedule n T} {cycle : ℕ} {x : T},
        schedule = done ++ (cycle, .write x) :: rest →
        Cluster.machine.out (Cluster.machine.run c done) (cycle, .write x)
          = if done.writesIn cycle < bandwidth.toNat then .written
            else .error ⟨key ++ " port is overloaded by bandwidth"⟩ := by
      intro done rest cycle x hsplit
      obtain ⟨accepted, he⟩ := hrun hsplit (hbefore hsplit).2
      refine out_write_careful he.writer (Nat.le_refl _) ?_
      have hs' : PortSchedule.Careful (done ++ [(cycle, .write x)] ++ rest) bandwidth.toNat := by
        rw [List.append_assoc]
        exact hsplit ▸ hs
      exact hs'.left
    refine ⟨hreply, fun {done rest} hsplit r => ?_, fun {done rest cycle x} hsplit hout r => ?_⟩
    · obtain ⟨now, hnow⟩ := exists_bound done
      obtain ⟨accepted, he⟩ := hrun hsplit hnow
      exact he.occupied_le r
    · obtain ⟨accepted, he⟩ := hrun hsplit (hbefore hsplit).2
      have hk : done.writesIn cycle < bandwidth.toNat := by
        by_contra hk
        rw [hreply hsplit, if_neg hk] at hout
        cases hout
      exact he.free (Nat.le_refl _) hk r x

/-- Bandwidth is enforced in the cycle 0: the second write throws. -/
theorem bandwidthEnforced_first : ∃ c : Cluster 1 ℕ,
    Cluster.init "Key" 1#32 (fun _ => 1) = .ok c
      ∧ c.BandwidthEnforced "Key" (1#32).toNat (fun _ => 1) [(0, .write 11), (0, .write 12)] := by
  refine ⟨_, rfl, (bandwidthEnforced_iff rfl ?_).2 ⟨fun t ht => ?_, ?_⟩⟩
  · simp [PortSchedule.Ordered]
  · have hne : 0 ≠ t := Nat.ne_of_lt ht
    simp [PortSchedule.writesIn, isWriteIn, hne]
  · decide

/-- It is not in the cycle 1: both writes are accepted. -/
theorem not_bandwidthEnforced_second : ∃ c : Cluster 1 ℕ,
    Cluster.init "Key" 1#32 (fun _ => 1) = .ok c
      ∧ PortSchedule.Ordered ([(1, .write 11), (1, .write 12)] : PortSchedule 1 ℕ)
      ∧ ¬ c.BandwidthEnforced "Key" 1 (fun _ => 1) [(1, .write 11), (1, .write 12)] := by
  refine ⟨_, rfl, by simp [PortSchedule.Ordered], fun h => ?_⟩
  have hsplit : [(1, PortEvent.write 11), (1, .write 12)]
      = [((1, .write 11) : ℕ × PortEvent 1 ℕ)] ++ (1, .write 12) :: [] := rfl
  exact absurd (h.reply hsplit) (by decide)

end Bandwidth

end MiptMips
