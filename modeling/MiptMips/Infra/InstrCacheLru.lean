import MiptMips.Infra.InstrCache
import MiptMips.Lib.Indexed
import MiptMips.Lib.LruMap

/-!
# What the cache of decoded instructions gives up

The cache is a map that gives up the key that was not used for longest (`Follows`): the slots that
hold a key come first in the order, in the order of the keys, and after them the slots that hold
nothing. A slot that holds nothing has the default key all the same, and a new key that takes such a
slot erases the default key: when this one is in the cache, it is given up though there is room.
-/

namespace MiptMips

open Machines

namespace InstrCache

variable {K V : Type} [DecidableEq K]

section Model

inductive Operation (K V : Type) where
  | find (key : K)
  | update (key : K) (value : V)
  | touch (key : K)
  | erase (key : K)

namespace Operation

def key : Operation K V → K
  | find key => key
  | update key _ => key
  | touch key => key
  | erase key => key

def apply (cache : InstrCache K V) : Operation K V → InstrCache K V
  | find _ => cache
  | update key value => cache.update key value
  | touch key => cache.touch key
  | erase key => cache.erase key

/-- What the operation does to a map of at most `capacity` keys. -/
def applyTo (capacity : ℕ) (map : LruMap K V) : Operation K V → LruMap K V
  | find _ => map
  | update key value => map.update capacity key value
  | touch key => map.touch key
  | erase key => map.erase key

end Operation

variable (cache : InstrCache K V)

/-- The key of a slot that has an element. -/
def held (i : ℕ) : Option K := (cache.storage i).map fun _ => cache.keys i

/-- The keys are not reserved, and only keys that are there are touched. -/
def LegalRun : InstrCache K V → List (Operation K V) → Prop
  | _, [] => True
  | cache, op :: ops =>
    (¬ cache.pointers.Reserved op.key ∧ ∀ key, op = .touch key → (cache.find key).isSome)
      ∧ LegalRun (op.apply cache) ops

/-- In all states of a run the cache finds what the map does. -/
def AgreeRun (capacity : ℕ) : InstrCache K V → LruMap K V → List (Operation K V) → Prop
  | cache, map, [] => ∀ key, cache.find key = map.find key
  | cache, map, op :: ops =>
    (∀ key, cache.find key = map.find key)
      ∧ AgreeRun capacity (op.apply cache) (op.applyTo capacity map) ops

/-- A key that is new comes in when the default key is not there, or there is no room. -/
def InsertAllowed (capacity : ℕ) (defaultKey : K) (map : LruMap K V) (key : K) : Prop :=
  key ∉ map.keys → defaultKey ∈ map.keys → capacity ≤ map.keys.length

def AllowedRun (capacity : ℕ) (defaultKey : K) : LruMap K V → List (Operation K V) → Prop
  | _, [] => True
  | map, op :: ops => (∀ key value, op = .update key value →
      InsertAllowed capacity defaultKey map key)
    ∧ AllowedRun capacity defaultKey (op.applyTo capacity map) ops

/-- The cache holds the keys of the map, the slots in the order of the keys, and their values. -/
structure Follows (capacity : ℕ) (cache : InstrCache K V) (map : LruMap K V) : Prop where
  ways : cache.lruModule.ways = capacity
  order : cache.lruModule.lruList.map cache.held = map.slots capacity
  indexed : Indexed cache.pointers.find cache.held
  freeKey : ∀ i, cache.storage i = none → cache.keys i = cache.defaultKey
  inRange : ∀ i, capacity ≤ i → cache.storage i = none
  value : ∀ {key i}, cache.pointers.find key = some i → cache.storage i = map.value key

end Model

theorem erase_of_find {cache : InstrCache K V} {key : K} {i : ℕ}
    (hf : cache.pointers.find key = some i) : cache.erase key
      = { cache with
          storage := fun j => if j = i then none else cache.storage j
          keys := fun j => if j = i then cache.defaultKey else cache.keys j
          pointers := cache.pointers.erase key
          lruModule := cache.lruModule.setToErase i } := by
  unfold erase
  rw [hf]

theorem erase_of_none {cache : InstrCache K V} {key : K} (hf : cache.pointers.find key = none) :
    cache.erase key = cache := by
  unfold erase
  rw [hf]

namespace Follows

variable {capacity : ℕ} {cache : InstrCache K V} {map : LruMap K V} {key : K} {i : ℕ}

theorem create (capacity : ℕ) (defaultKey invalidKey deletedKey : K) :
    Follows capacity (create capacity defaultKey invalidKey deletedKey : InstrCache K V)
      .empty := by
  have hways : ∀ (touched : List ℕ) (lru : LRU), (touched.foldl LRU.touch lru).ways = lru.ways := by
    intro touched
    induction touched with
    | nil => exact fun _ => rfl
    | cons way touched ih => exact fun lru => (ih _).trans (lru.ways_touch way)
  refine ⟨hways _ _, ?_, fun key i => ?_, fun i _ => rfl, fun i _ => rfl, fun {key i} hf => ?_⟩
  · have hlen : (InstrCache.create capacity defaultKey invalidKey deletedKey
        : InstrCache K V).lruModule.lruList.length = capacity := by
      rw [LRU.perm _ |>.length_eq, List.length_range]
      exact hways _ _
    show List.map (fun _ => none) _ = _
    rw [List.map_const', hlen]
    rfl
  · have hnone : (InstrCache.create capacity defaultKey invalidKey deletedKey
        : InstrCache K V).pointers.find key = none := DenseHashMap.find_create _ _
    rw [hnone]
    exact iff_of_false (by simp) (by simp [held, InstrCache.create])
  · rw [show (InstrCache.create capacity defaultKey invalidKey deletedKey
      : InstrCache K V).pointers.find key = none from DenseHashMap.find_create _ _] at hf
    cases hf

variable (h : Follows capacity cache map)
include h

theorem slot_lt (hheld : cache.held i = some key) : i < capacity := by
  by_contra hle
  rw [held, h.inRange i (Nat.not_lt.1 hle)] at hheld
  cases hheld

theorem mem_keys_iff : key ∈ map.keys ↔ ∃ i, cache.pointers.find key = some i := by
  have hmem : key ∈ map.keys ↔ some key ∈ cache.lruModule.lruList.map cache.held := by
    rw [h.order, LruMap.some_mem_slots]
  rw [hmem, List.mem_map]
  refine exists_congr fun i => ?_
  rw [h.indexed key i, LRU.mem_lruList, h.ways]
  exact and_iff_right_of_imp h.slot_lt

theorem find_eq (key : K) : cache.find key = map.find key := by
  unfold InstrCache.find LruMap.find
  rcases hf : cache.pointers.find key with _ | i
  · have hkey : key ∉ map.keys := by
      rw [h.mem_keys_iff, hf]
      simp
    rw [if_neg hkey]
    rfl
  · rw [if_pos (h.mem_keys_iff.2 ⟨i, hf⟩)]
    exact h.value hf

theorem length_le : map.keys.length ≤ capacity := by
  have hlen := congrArg List.length h.order
  rw [List.length_map, cache.lruModule.perm.length_eq, List.length_range, h.ways,
    LruMap.slots, List.length_append, List.length_map, List.length_replicate] at hlen
  omega

theorem touch (hf : cache.pointers.find key = some i) :
    Follows capacity (cache.touch key) (map.touch key) := by
  have hheld : cache.held i = some key := (h.indexed key i).1 hf
  have hlt : i < cache.lruModule.ways := h.ways ▸ h.slot_lt hheld
  have hmem : key ∈ map.keys := h.mem_keys_iff.2 ⟨i, hf⟩
  unfold InstrCache.touch
  rw [hf]
  refine ⟨(LRU.ways_touch _ _).trans h.ways, ?_, h.indexed, h.freeKey, h.inRange, h.value⟩
  show ((cache.lruModule.touch i).lruList).map cache.held = _
  have hinj : ∀ x ∈ cache.lruModule.lruList, cache.held x = cache.held i → x = i :=
    fun x _ hx => h.indexed.slot_unique (hx.trans hheld) hheld
  rw [LRU.lruList_touch hlt, moveToFront_map hinj, h.order, hheld, LruMap.slots_touch hmem]

/-- A key that is erased leaves its slot at the end of the order. -/
theorem erase (hf : cache.pointers.find key = some i) :
    Follows capacity (cache.erase key) (map.erase key) := by
  have hheld : cache.held i = some key := (h.indexed key i).1 hf
  have hlt : i < cache.lruModule.ways := h.ways ▸ h.slot_lt hheld
  have hmem : key ∈ map.keys := h.mem_keys_iff.2 ⟨i, hf⟩
  rw [erase_of_find hf]
  set erased : InstrCache K V :=
    { cache with
      storage := fun j => if j = i then none else cache.storage j
      keys := fun j => if j = i then cache.defaultKey else cache.keys j
      pointers := cache.pointers.erase key
      lruModule := cache.lruModule.setToErase i }
  have hheld' : ∀ j, erased.held j = if j = i then none else cache.held j := by
    intro j
    by_cases hj : j = i <;> simp [held, erased, hj]
  have hfind : ∀ k, erased.pointers.find k = if k = key then none else cache.pointers.find k :=
    fun _ => DenseHashMap.find_erase key
  refine ⟨?_, ?_, fun k j => ?_, fun j hj => ?_, fun j hj => ?_, fun {k j} hk => ?_⟩
  · exact (LRU.ways_setToErase _ _).trans h.ways
  · have hrest : (cache.lruModule.lruList.erase i).map erased.held
        = (cache.lruModule.lruList.erase i).map cache.held := by
      refine List.map_congr_left fun j hj => ?_
      rw [hheld', if_neg]
      rintro rfl
      exact (cache.lruModule.perm.nodup_iff.2 List.nodup_range).not_mem_erase hj
    have hinj : ∀ x ∈ cache.lruModule.lruList, cache.held x = cache.held i → x = i :=
      fun x _ hx => h.indexed.slot_unique (hx.trans hheld) hheld
    show (cache.lruModule.setToErase i).lruList.map erased.held = _
    rw [LRU.lruList_setToErase hlt, List.map_append, hrest, map_erase_of_inj hinj, h.order,
      hheld, LruMap.slots, erase_map_append (Option.some_injective K) hmem,
      LruMap.slots_erase hmem h.length_le, List.map_singleton, hheld', if_pos rfl]
  · rw [hfind, hheld']
    have hiff : cache.held i = some k ↔ k = key := by
      rw [hheld, Option.some.injEq, eq_comm]
    simpa only [hiff] using h.indexed.clear i k j
  · by_cases hji : j = i
    · simp [erased, hji]
    · simp only [erased, hji, if_false] at hj ⊢
      exact h.freeKey j hj
  · exact (congrArg (ite _ none) (h.inRange j hj)).trans (ite_self none)
  · rw [hfind] at hk
    split_ifs at hk with hkey
    have hj : j ≠ i := by
      rintro rfl
      rw [(h.indexed k j).1 hk, Option.some.injEq] at hheld
      exact hkey hheld
    exact (if_neg hj).trans (h.value hk)

end Follows

section Insert

variable {capacity : ℕ} {cache freed : InstrCache K V} {map : LruMap K V} {key : K} {i : ℕ}

/-- Slot `i` is empty and about to be the first one; the others are as they were. -/
structure Freed (cache freed : InstrCache K V) (i : ℕ) : Prop where
  storage : ∀ j, freed.storage j = if j = i then none else cache.storage j
  keys : ∀ j, j ≠ i → freed.keys j = cache.keys j
  find : ∀ k, freed.pointers.find k
    = if cache.held i = some k then none else cache.pointers.find k
  reserved : ∀ k, freed.pointers.Reserved k ↔ cache.pointers.Reserved k
  order : (freed.lruModule.touch i).lruList = i :: cache.lruModule.lruList.dropLast
  ways : freed.lruModule.ways = cache.lruModule.ways
  defaultKey : freed.defaultKey = cache.defaultKey

/-- A new key in the freed slot. -/
theorem Follows.place (h : Follows capacity cache map) (hcap : 0 < capacity) (hi : i < capacity)
    (hfreed : Freed cache freed i) (hlast : i ∉ cache.lruModule.lruList.dropLast)
    (hnew : cache.pointers.find key = none) (hres : ¬ cache.pointers.Reserved key) (v : V) :
    Follows capacity (freed.place i key v) (map.insert capacity key v) := by
  have hheld : ∀ j, (freed.place i key v).held j = if j = i then some key else cache.held j := by
    intro j
    by_cases hj : j = i
    · simp [held, InstrCache.place, hj]
    · simp [held, InstrCache.place, hj, hfreed.storage, hfreed.keys j hj]
  have hfind : ∀ k, (freed.place i key v).pointers.find k = if k = key then some i
      else if cache.held i = some k then none else cache.pointers.find k := by
    intro k
    have hnone : freed.pointers.find key = none := by
      rw [hfreed.find, hnew, ite_self]
    have hres' : ¬ freed.pointers.Reserved key := fun hr => hres ((hfreed.reserved key).1 hr)
    exact (DenseHashMap.find_emplace hres' hnone).trans (by rw [hfreed.find])
  refine ⟨?_, ?_, fun k j => ?_, fun j hj => ?_, fun j hj => ?_, fun {k j} hk => ?_⟩
  · exact (LRU.ways_touch _ _).trans (hfreed.ways.trans h.ways)
  · have hrest : cache.lruModule.lruList.dropLast.map (freed.place i key v).held
        = cache.lruModule.lruList.dropLast.map cache.held := by
      refine List.map_congr_left fun j hj => ?_
      rw [hheld, if_neg]
      rintro rfl
      exact hlast hj
    show (freed.lruModule.touch i).lruList.map (freed.place i key v).held = _
    rw [hfreed.order, List.map_cons, hrest, hheld, if_pos rfl, List.map_dropLast, h.order,
      LruMap.slots_insert hcap h.length_le]
  · rw [hfind, hheld]
    exact h.indexed.put i (.inl hnew) k j
  · by_cases hji : j = i
    · simp [InstrCache.place, hji] at hj
    · simp only [InstrCache.place, hji, if_false] at hj ⊢
      rw [hfreed.storage, if_neg hji] at hj
      rw [hfreed.keys j hji, hfreed.defaultKey, h.freeKey j hj]
  · have hji : j ≠ i := by omega
    simp only [InstrCache.place, hji, if_false]
    rw [hfreed.storage, if_neg hji, h.inRange j hj]
  · rw [hfind] at hk
    by_cases hkey : k = key
    · simp only [hkey, if_true, Option.some.injEq] at hk
      simp [InstrCache.place, LruMap.insert, hkey, hk]
    · rw [if_neg hkey] at hk
      split_ifs at hk with hold
      have hji : j ≠ i := by
        rintro rfl
        exact hold ((h.indexed k j).1 hk)
      simp only [InstrCache.place, LruMap.insert, hji, hkey, if_false]
      rw [hfreed.storage, if_neg hji, h.value hk]

/-- The slot of the victim is freed, unless it holds nothing and the default key is elsewhere. -/
theorem Follows.frees (h : Follows capacity cache map) (hcap : 0 < capacity)
    (hdefault : cache.storage cache.lruModule.victim = none →
      cache.pointers.find cache.defaultKey = none) :
    Freed cache (InstrCache.erase { cache with lruModule := cache.lruModule.update.2 }
      (cache.keys cache.lruModule.victim)) cache.lruModule.victim := by
  have hpos : 0 < cache.lruModule.ways := h.ways ▸ hcap
  have hways : cache.lruModule.update.2.ways = cache.lruModule.ways := LRU.ways_update _
  rcases hstorage : cache.storage cache.lruModule.victim with _ | v
  · have hheld : cache.held cache.lruModule.victim = none := by rw [held, hstorage]; rfl
    have hnone : ({ cache with lruModule := cache.lruModule.update.2 }
        : InstrCache K V).pointers.find (cache.keys cache.lruModule.victim) = none := by
      rw [h.freeKey _ hstorage]
      exact hdefault hstorage
    rw [erase_of_none hnone]
    refine ⟨fun j => ?_, fun j _ => rfl, fun k => ?_, fun k => Iff.rfl,
      (LRU.lruList_touch_update hpos).1, hways, rfl⟩
    · by_cases hj : j = cache.lruModule.victim <;> simp [hj, hstorage]
    · simp [hheld]
  · have hheld : cache.held cache.lruModule.victim
        = some (cache.keys cache.lruModule.victim) := by rw [held, hstorage]; rfl
    have hsome : ({ cache with lruModule := cache.lruModule.update.2 }
        : InstrCache K V).pointers.find (cache.keys cache.lruModule.victim)
        = some cache.lruModule.victim := (h.indexed _ _).2 hheld
    rw [erase_of_find hsome]
    refine ⟨fun j => rfl, fun j hj => if_neg hj, fun k => ?_, fun k => Iff.rfl,
      (LRU.lruList_touch_update hpos).2, (LRU.ways_setToErase _ _).trans hways, rfl⟩
    have hiff : cache.held cache.lruModule.victim = some k
        ↔ k = cache.keys cache.lruModule.victim := by
      rw [hheld, Option.some.injEq, eq_comm]
    simp only [hiff]
    exact DenseHashMap.find_erase _

theorem Follows.update (h : Follows capacity cache map) (hcap : 0 < capacity)
    (hres : ¬ cache.pointers.Reserved key)
    (hallowed : InsertAllowed capacity cache.defaultKey map key) (v : V) :
    Follows capacity (cache.update key v) (map.update capacity key v) := by
  unfold InstrCache.update LruMap.update
  rcases hf : cache.pointers.find key with _ | i
  · have hnew : key ∉ map.keys := by
      rw [h.mem_keys_iff, hf]
      simp
    have hpos : 0 < cache.lruModule.ways := h.ways ▸ hcap
    have hvictim : cache.lruModule.victim < capacity := h.ways ▸ cache.lruModule.victim_lt hpos
    rw [if_neg hnew]
    refine h.place hcap hvictim (h.frees hcap fun hstorage => ?_)
      (LRU.victim_notMem_dropLast hpos) hf hres v
    -- a slot that holds nothing is a room
    rcases hd : cache.pointers.find cache.defaultKey with _ | j
    · rfl
    · have hfull := hallowed hnew (h.mem_keys_iff.2 ⟨j, hd⟩)
      refine absurd ?_ (LruMap.none_notMem_slots hfull)
      rw [← h.order]
      exact List.mem_map.2 ⟨_, cache.lruModule.mem_lruList.2 (h.ways.symm ▸ hvictim),
        by rw [held, hstorage]; rfl⟩
  · rw [if_pos (h.mem_keys_iff.2 ⟨i, hf⟩)]
    exact h.touch hf

/-- Otherwise the default key is lost, though the map keeps it. -/
theorem Follows.default_lost (h : Follows capacity cache map)
    (hnot : ¬ InsertAllowed capacity cache.defaultKey map key) (v : V) :
    (cache.update key v).find cache.defaultKey = none
      ∧ (map.update capacity key v).find cache.defaultKey ≠ none := by
  obtain ⟨hnew, hnot⟩ := Classical.not_imp.1 hnot
  obtain ⟨hdefault, hroom⟩ := Classical.not_imp.1 hnot
  obtain ⟨j, hj⟩ := h.mem_keys_iff.1 hdefault
  have hne : cache.defaultKey ≠ key := fun he => hnew (he ▸ hdefault)
  have hf : cache.pointers.find key = none := by
    rcases hf : cache.pointers.find key with _ | i
    · rfl
    · exact absurd (h.mem_keys_iff.2 ⟨i, hf⟩) hnew
  constructor
  · -- the victim is the last slot, and it holds nothing
    have hkey : cache.keys cache.lruModule.victim = cache.defaultKey := by
      have hlast := LruMap.getLast?_slots (Nat.not_le.1 hroom)
      rw [← h.order, List.getLast?_map, Option.map_eq_some_iff] at hlast
      obtain ⟨i, hi, hheld⟩ := hlast
      have hvictim : cache.lruModule.victim = i := by rw [LRU.victim, hi]; rfl
      rw [hvictim]
      exact h.freeKey i (Option.map_eq_none_iff.1 hheld)
    have hlost : (cache.allocate key v).pointers.find cache.defaultKey = none := by
      show DenseHashMap.find (DenseHashMap.emplace _ _ _) _ = none
      rw [DenseHashMap.find_emplace_ne hne, hkey]
      exact find_erase_self _
    unfold InstrCache.update InstrCache.find
    rw [hf]
    exact congrArg (Option.bind · _) hlost
  · have hheld : cache.held j = some cache.defaultKey := (h.indexed _ j).1 hj
    have hvalue : map.value cache.defaultKey ≠ none := by
      rw [← h.value hj]
      intro hstorage
      rw [held, hstorage] at hheld
      cases hheld
    have hkept : cache.defaultKey ∈ (map.insert capacity key v).keys := by
      have hkeys : map.kept capacity = map.keys := if_pos (Nat.not_le.1 hroom)
      show cache.defaultKey ∈ key :: map.kept capacity
      rw [hkeys]
      exact List.mem_cons_of_mem key hdefault
    rw [LruMap.update, if_neg hnew, LruMap.find, if_pos hkept]
    exact (if_neg hne).trans_ne hvalue

end Insert

section Run

variable {capacity : ℕ} {cache : InstrCache K V} {map : LruMap K V}

/-- The default key and the reserved keys are those of another cache. -/
def SameKeys (cache cache' : InstrCache K V) : Prop := cache.defaultKey = cache'.defaultKey
  ∧ ∀ key, cache.pointers.Reserved key ↔ cache'.pointers.Reserved key

theorem sameKeys_erase (cache : InstrCache K V) (key : K) : SameKeys (cache.erase key) cache := by
  unfold erase
  split <;> exact ⟨rfl, fun _ => Iff.rfl⟩

theorem sameKeys_touch (cache : InstrCache K V) (key : K) : SameKeys (cache.touch key) cache := by
  unfold touch
  split <;> exact ⟨rfl, fun _ => Iff.rfl⟩

theorem sameKeys_update (cache : InstrCache K V) (key : K) (value : V) :
    SameKeys (cache.update key value) cache := by
  unfold update
  split
  · exact sameKeys_erase { cache with lruModule := cache.lruModule.update.2 } _
  · exact sameKeys_touch cache key

theorem sameKeys_apply (cache : InstrCache K V) (op : Operation K V) :
    SameKeys (op.apply cache) cache := by
  cases op with
  | find key => exact ⟨rfl, fun _ => Iff.rfl⟩
  | update key value => exact sameKeys_update cache key value
  | touch key => exact sameKeys_touch cache key
  | erase key => exact sameKeys_erase cache key

theorem Follows.apply (h : Follows capacity cache map) (hcap : 0 < capacity)
    {op : Operation K V} (hres : ¬ cache.pointers.Reserved op.key)
    (htouch : ∀ key, op = .touch key → (cache.find key).isSome)
    (hallowed : ∀ key value, op = .update key value →
      InsertAllowed capacity cache.defaultKey map key) :
    Follows capacity (op.apply cache) (op.applyTo capacity map) := by
  cases op with
  | find key => exact h
  | update key value => exact h.update hcap hres (hallowed key value rfl) value
  | touch key =>
    have hfound := htouch key rfl
    rcases hf : cache.pointers.find key with _ | i
    · rw [InstrCache.find, hf] at hfound
      cases hfound
    · exact h.touch hf
  | erase key =>
    show Follows capacity (cache.erase key) (map.erase key)
    rcases hf : cache.pointers.find key with _ | i
    · have hkey : key ∉ map.keys := by
        rw [h.mem_keys_iff, hf]
        simp
      rw [erase_of_none hf, LruMap.erase, List.erase_of_not_mem hkey]
      exact h
    · exact h.erase hf

theorem AgreeRun.head {ops : List (Operation K V)} (h : AgreeRun capacity cache map ops) (key : K) :
    cache.find key = map.find key := by
  cases ops with
  | nil => exact h key
  | cons op ops => exact h.1 key

theorem agreeRun_iff_of_follows (hcap : 0 < capacity) :
    ∀ {cache : InstrCache K V} {map : LruMap K V} {ops : List (Operation K V)},
      Follows capacity cache map → cache.LegalRun ops →
      (AgreeRun capacity cache map ops ↔ AllowedRun capacity cache.defaultKey map ops)
  | _, _, [], h, _ => iff_of_true h.find_eq trivial
  | cache, map, op :: ops, h, ⟨⟨hres, htouch⟩, hlegal⟩ => by
    by_cases hallowed : ∀ key value, op = .update key value →
        InsertAllowed capacity cache.defaultKey map key
    · have ih := agreeRun_iff_of_follows hcap (h.apply hcap hres htouch hallowed) hlegal
      rw [(sameKeys_apply cache op).1] at ih
      exact and_congr (iff_of_true h.find_eq hallowed) ih
    · refine iff_of_false (fun hagree => ?_) fun hrun => hallowed hrun.1
      push Not at hallowed
      obtain ⟨key, value, rfl, hnot⟩ := hallowed
      have hlost := h.default_lost hnot value
      exact hlost.2 ((hagree.2.head cache.defaultKey).symm.trans hlost.1)

/-- A default key that is reserved is never there. -/
theorem allowedRun_of_reserved (hcap : 0 < capacity) :
    ∀ {cache : InstrCache K V} {map : LruMap K V} {ops : List (Operation K V)},
      Follows capacity cache map → cache.LegalRun ops →
      cache.pointers.Reserved cache.defaultKey → AllowedRun capacity cache.defaultKey map ops
  | _, _, [], _, _, _ => trivial
  | cache, map, op :: ops, h, ⟨⟨hres, htouch⟩, hlegal⟩, hdefault => by
    have hallowed : ∀ key value, op = .update key value →
        InsertAllowed capacity cache.defaultKey map key := by
      intro key value _ _ hmem
      obtain ⟨i, hi⟩ := h.mem_keys_iff.1 hmem
      rw [DenseHashMap.find_of_reserved hdefault] at hi
      cases hi
    obtain ⟨hsame, hreserved⟩ := sameKeys_apply cache op
    have ih := allowedRun_of_reserved hcap (h.apply hcap hres htouch hallowed) hlegal
      ((hreserved _).2 (hsame ▸ hdefault))
    rw [hsame] at ih
    exact ⟨hallowed, ih⟩

/-- The cache is the map just when no new key comes in while the default key is there and there is
room; with a default key that is reserved it always is. -/
theorem agreeRun_iff (capacity : ℕ) (hcap : 0 < capacity) (defaultKey invalidKey deletedKey : K)
    (ops : List (Operation K V))
    (hlegal : (create capacity defaultKey invalidKey deletedKey : InstrCache K V).LegalRun ops) :
    (AgreeRun capacity (create capacity defaultKey invalidKey deletedKey) .empty ops
        ↔ AllowedRun capacity defaultKey .empty ops)
      ∧ (defaultKey = invalidKey ∨ defaultKey = deletedKey →
        AgreeRun capacity (create capacity defaultKey invalidKey deletedKey) .empty ops) := by
  have h : Follows capacity (create capacity defaultKey invalidKey deletedKey : InstrCache K V)
      .empty := .create capacity defaultKey invalidKey deletedKey
  have hiff := agreeRun_iff_of_follows hcap h hlegal
  exact ⟨hiff, fun hdefault => hiff.2 (allowedRun_of_reserved hcap h hlegal hdefault)⟩

/-- `BaseMIPSInstr::DisasmCache`, from words to their texts. -/
def disasmCache : InstrCache (BitVec 32) String :=
  .create 8192 0#32 (allOnes 32) (allOnes 32 - 1#32)

/-- Two words are new, and the first one is the default key. -/
def nopThenAdd : List (Operation (BitVec 32) String) :=
  [.update 0#32 "nop", .update 0x20#32 "add $zero, $zero, $zero"]

theorem legalRun_nopThenAdd : disasmCache.LegalRun nopThenAdd := by
  have hnop : ¬ disasmCache.pointers.Reserved 0#32 := by decide
  have hadd : ¬ disasmCache.pointers.Reserved 0x20#32 := by decide
  refine ⟨⟨hnop, nofun⟩, ⟨fun hr => hadd ?_, nofun⟩, trivial⟩
  exact ((sameKeys_apply disasmCache (.update 0#32 "nop")).2 0x20#32).1 hr

theorem agreeRun_iff_nopThenAdd :
    (AgreeRun 8192 disasmCache .empty nopThenAdd ↔ AllowedRun 8192 0#32 .empty nopThenAdd)
      ∧ (0#32 = allOnes 32 ∨ 0#32 = allOnes 32 - 1#32 →
        AgreeRun 8192 disasmCache .empty nopThenAdd) :=
  agreeRun_iff 8192 (by decide) 0#32 (allOnes 32) (allOnes 32 - 1#32) nopThenAdd
    legalRun_nopThenAdd

/-- The text of the first word is given up, with one word in a cache of 8192. -/
theorem not_agreeRun_nopThenAdd :
    disasmCache.LegalRun nopThenAdd ∧ ¬ AgreeRun 8192 disasmCache .empty nopThenAdd := by
  refine ⟨legalRun_nopThenAdd, fun hagree => ?_⟩
  have hallowed := (agreeRun_iff_of_follows (by decide) (.create 8192 0#32 (allOnes 32) _)
    legalRun_nopThenAdd).1 hagree
  have hfull := hallowed.2.1 0x20#32 "add $zero, $zero, $zero" rfl (by decide) (by decide)
  exact absurd hfull (by decide)

end Run

end InstrCache

end MiptMips
