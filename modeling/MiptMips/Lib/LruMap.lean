import MiptMips.Lib.Recency

/-!
# A map that gives up what was not used for longest

The keys of the map, the most recently used one first, and the value that each was inserted with. A
new key takes the place of the last one when the map is full.
-/

namespace Machines

structure LruMap (K V : Type*) where
  keys : List K
  value : K → Option V

namespace LruMap

variable {K V : Type*} [DecidableEq K]

section Model

def empty : LruMap K V := ⟨[], fun _ => none⟩

variable (map : LruMap K V)

def find (key : K) : Option V := if key ∈ map.keys then map.value key else none

def touch (key : K) : LruMap K V := { map with keys := moveToFront key map.keys }

def erase (key : K) : LruMap K V := { map with keys := map.keys.erase key }

/-- What stays when there has to be room for one more. -/
def kept (capacity : ℕ) : List K :=
  if map.keys.length < capacity then map.keys else map.keys.dropLast

def insert (capacity : ℕ) (key : K) (v : V) : LruMap K V where
  keys := key :: map.kept capacity
  value k := if k = key then some v else map.value k

/-- A key that is there keeps its value. -/
def update (capacity : ℕ) (key : K) (v : V) : LruMap K V :=
  if key ∈ map.keys then map.touch key else map.insert capacity key v

/-- The keys, and an empty slot for each key more that there is room for. -/
def slots (capacity : ℕ) : List (Option K) :=
  map.keys.map some ++ List.replicate (capacity - map.keys.length) none

end Model

section Slots

variable {map : LruMap K V} {key : K} {capacity : ℕ}

omit [DecidableEq K] in
theorem some_mem_slots : some key ∈ map.slots capacity ↔ key ∈ map.keys := by
  simp [slots]

theorem slots_touch (h : key ∈ map.keys) :
    (map.touch key).slots capacity = moveToFront (some key) (map.slots capacity) := by
  have hlen : (map.touch key).keys.length = map.keys.length := by
    have hpos := List.length_pos_of_mem h
    show (map.keys.erase key).length + 1 = _
    rw [List.length_erase_of_mem h]
    omega
  unfold slots
  rw [hlen, moveToFront, erase_map_append (Option.some_injective K) h]
  rfl

/-- An erased key leaves an empty slot. -/
theorem slots_erase (h : key ∈ map.keys) (hle : map.keys.length ≤ capacity) :
    (map.erase key).slots capacity = (map.keys.erase key).map some
      ++ List.replicate (capacity - map.keys.length) none ++ [none] := by
  have hpos := List.length_pos_of_mem h
  have hroom : capacity - (map.keys.erase key).length = capacity - map.keys.length + 1 := by
    rw [List.length_erase_of_mem h]
    omega
  rw [List.append_assoc, ← List.replicate_succ', ← hroom]
  rfl

/-- A new key takes the last slot. -/
theorem slots_insert (hcap : 0 < capacity) (hle : map.keys.length ≤ capacity) (v : V) :
    (map.insert capacity key v).slots capacity
      = some key :: (map.slots capacity).dropLast := by
  have hslots : (map.insert capacity key v).slots capacity = some key
      :: ((map.kept capacity).map some
        ++ List.replicate (capacity - ((map.kept capacity).length + 1)) none) := rfl
  rw [hslots, kept, slots]
  split_ifs with hlt
  · have hroom : capacity - map.keys.length = capacity - (map.keys.length + 1) + 1 := by omega
    rw [hroom, List.replicate_succ', ← List.append_assoc, List.dropLast_concat]
  · have hfull : capacity - map.keys.length = 0 := by omega
    have hkept : capacity - (map.keys.dropLast.length + 1) = 0 := by
      rw [List.length_dropLast]
      omega
    rw [hfull, hkept, List.replicate_zero, List.append_nil, List.append_nil, List.map_dropLast]

omit [DecidableEq K] in
/-- As long as there is room, the last slot is empty. -/
theorem getLast?_slots (h : map.keys.length < capacity) :
    (map.slots capacity).getLast? = some none := by
  obtain ⟨n, hn⟩ : ∃ n, capacity - map.keys.length = n + 1 :=
    ⟨capacity - map.keys.length - 1, by omega⟩
  rw [slots, hn, List.replicate_succ', ← List.append_assoc, List.getLast?_concat]

omit [DecidableEq K] in
/-- When there is no room, no slot is empty. -/
theorem none_notMem_slots (h : capacity ≤ map.keys.length) : none ∉ map.slots capacity := by
  simp [slots, Nat.sub_eq_zero_of_le h]

end Slots

end LruMap

end Machines
