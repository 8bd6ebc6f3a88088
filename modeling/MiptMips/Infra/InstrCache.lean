import MiptMips.Infra.Replacement

/-!
# The cache of decoded instructions

A cache of `capacity` slots with a map from keys to slots and a least-recently-used order of the
slots. The map is a finite map on all keys but two, which it reserves: a search for one of those
finds nothing. A slot that holds nothing has the default key.
-/

namespace MiptMips

variable {K V : Type} [DecidableEq K]

/-- `dense_hash_map`, with its empty and its deleted key. -/
structure DenseHashMap (K V : Type) where
  emptyKey : K
  deletedKey : K
  table : K → Option V

namespace DenseHashMap

section Model

def create (emptyKey deletedKey : K) : DenseHashMap K V := ⟨emptyKey, deletedKey, fun _ => none⟩

variable (map : DenseHashMap K V)

def Reserved (key : K) : Prop := key = map.emptyKey ∨ key = map.deletedKey

instance (key : K) : Decidable (map.Reserved key) := inferInstanceAs (Decidable (_ ∨ _))

def find (key : K) : Option V := if map.Reserved key then none else map.table key

/-- An element that is present stays. -/
def emplace (key : K) (value : V) : DenseHashMap K V :=
  { map with
    table := fun k => if k = key ∧ map.table key = none then some value else map.table k }

def erase (key : K) : DenseHashMap K V :=
  { map with table := fun k => if k = key then none else map.table k }

end Model

section Facts

variable {map : DenseHashMap K V} {key : K}

theorem find_of_table (h : ¬ map.Reserved key) : map.find key = map.table key := if_neg h

theorem table_of_find {value : V} (h : map.find key = some value) :
    ¬ map.Reserved key ∧ map.table key = some value := by
  unfold find at h
  split at h
  · simp at h
  case isFalse hr => exact ⟨hr, h⟩

theorem find_of_reserved (h : map.Reserved key) : map.find key = none := if_pos h

theorem find_erase (k : K) : (map.erase k).find key = if key = k then none else map.find key := by
  by_cases hr : map.Reserved key
  · have hr' : (map.erase k).Reserved key := hr
    rw [find_of_reserved hr, find_of_reserved hr', ite_self]
  · have hr' : ¬ (map.erase k).Reserved key := hr
    rw [find_of_table hr, find_of_table hr']
    rfl

theorem find_create (emptyKey deletedKey : K) :
    (create emptyKey deletedKey : DenseHashMap K V).find key = none := by
  unfold find
  split <;> rfl

variable {k : K} {value : V}

theorem find_emplace_ne (hkey : key ≠ k) : (map.emplace k value).find key = map.find key := by
  by_cases hres : map.Reserved key
  · have hres' : (map.emplace k value).Reserved key := hres
    rw [find_of_reserved hres, find_of_reserved hres']
  · have hres' : ¬ (map.emplace k value).Reserved key := hres
    rw [find_of_table hres, find_of_table hres']
    simp [emplace, hkey]

theorem find_emplace (hr : ¬ map.Reserved k) (hk : map.find k = none) :
    (map.emplace k value).find key = if key = k then some value else map.find key := by
  rw [find_of_table hr] at hk
  by_cases hkey : key = k
  · subst hkey
    have hr' : ¬ (map.emplace key value).Reserved key := hr
    rw [find_of_table hr']
    simp [emplace, hk]
  · rw [if_neg hkey, find_emplace_ne hkey]

end Facts

end DenseHashMap

/-- `InstrCache`; `storage` has the slots of the arena, empty where no object is alive. -/
structure InstrCache (K V : Type) where
  keys : ℕ → K
  pointers : DenseHashMap K ℕ
  storage : ℕ → Option V
  lruModule : LRU
  /-- `Key{}`. -/
  defaultKey : K

namespace InstrCache

section Model

/-- The constructor touches every way, to start from a known order. -/
def create (capacity : ℕ) (defaultKey invalidKey deletedKey : K) : InstrCache K V where
  keys := fun _ => defaultKey
  pointers := .create invalidKey deletedKey
  storage := fun _ => none
  lruModule := (List.range capacity).foldl LRU.touch (LRU.create capacity)
  defaultKey := defaultKey

variable (cache : InstrCache K V)

def find (key : K) : Option V := (cache.pointers.find key).bind cache.storage

/-- `pointers[key]` gives a key that is not there the slot zero. -/
def touch (key : K) : InstrCache K V :=
  match cache.pointers.find key with
  | some index => { cache with lruModule := cache.lruModule.touch index }
  | none =>
    { cache with
      pointers := cache.pointers.emplace key 0
      lruModule := cache.lruModule.touch 0 }

def erase (key : K) : InstrCache K V :=
  match cache.pointers.find key with
  | some index =>
    { cache with
      storage := fun i => if i = index then none else cache.storage i
      keys := fun i => if i = index then cache.defaultKey else cache.keys i
      pointers := cache.pointers.erase key
      lruModule := cache.lruModule.setToErase index }
  | none => cache

/-- Fills a slot that holds nothing. -/
def place (index : ℕ) (key : K) (value : V) : InstrCache K V :=
  { cache with
    storage := fun i => if i = index then some value else cache.storage i
    keys := fun i => if i = index then key else cache.keys i
    pointers := cache.pointers.emplace key index
    lruModule := cache.lruModule.touch index }

def allocate (key : K) (value : V) : InstrCache K V :=
  let (index, lruModule) := cache.lruModule.update
  let cache := erase { cache with lruModule } (cache.keys index)
  cache.place index key value

def update (key : K) (value : V) : InstrCache K V :=
  match cache.pointers.find key with
  | none => cache.allocate key value
  | some _ => cache.touch key

end Model

section Coherent

/-- Every slot the map leads to is held by its key and has an element that `P` allows for it. -/
structure Coherent (P : K → V → Prop) (cache : InstrCache K V) : Prop where
  key_of_pointer : ∀ {key index}, cache.pointers.find key = some index → cache.keys index = key
  stored : ∀ {key index}, cache.pointers.find key = some index →
    ∃ value, cache.storage index = some value ∧ P key value

variable {P : K → V → Prop} {cache : InstrCache K V}

theorem coherent_create (capacity : ℕ) (defaultKey invalidKey deletedKey : K) :
    (create capacity defaultKey invalidKey deletedKey : InstrCache K V).Coherent P := by
  have h : ∀ key, (create capacity defaultKey invalidKey deletedKey
      : InstrCache K V).pointers.find key = none := fun _ => DenseHashMap.find_create _ _
  constructor
  · intro key index hf
    simp [h] at hf
  · intro key index hf
    simp [h] at hf

theorem Coherent.find_some (h : cache.Coherent P) {key : K} {value : V}
    (hf : cache.find key = some value) : P key value := by
  unfold find at hf
  rcases hp : cache.pointers.find key with _ | index
  · simp [hp] at hf
  · obtain ⟨v, hs, hv⟩ := h.stored hp
    simp only [hp, Option.bind_some, hs, Option.some.injEq] at hf
    rwa [← hf]

/-- The order of the slots does not matter. -/
theorem Coherent.lru (h : cache.Coherent P) (lruModule : LRU) :
    ({ cache with lruModule } : InstrCache K V).Coherent P :=
  ⟨h.key_of_pointer, h.stored⟩

theorem Coherent.touch (h : cache.Coherent P) {key : K} {index : ℕ}
    (hf : cache.pointers.find key = some index) : (cache.touch key).Coherent P := by
  unfold InstrCache.touch
  rw [hf]
  exact h.lru _

/-- Two keys do not share a slot. -/
theorem Coherent.pointer_inj (h : cache.Coherent P) {key key' : K} {index : ℕ}
    (hf : cache.pointers.find key = some index) (hf' : cache.pointers.find key' = some index) :
    key = key' := (h.key_of_pointer hf).symm.trans (h.key_of_pointer hf')

theorem Coherent.erase (h : cache.Coherent P) (key : K) : (cache.erase key).Coherent P := by
  unfold InstrCache.erase
  split
  case h_1 index hf =>
    have hne : ∀ {key' index'}, (cache.pointers.erase key).find key' = some index' →
        cache.pointers.find key' = some index' ∧ index' ≠ index := by
      intro key' index' hf'
      rw [DenseHashMap.find_erase] at hf'
      split at hf'
      · simp at hf'
      case isFalse hk =>
        refine ⟨hf', ?_⟩
        rintro rfl
        exact hk (h.pointer_inj hf' hf)
    constructor
    · intro key' index' hf'
      obtain ⟨hf', hi⟩ := hne hf'
      simp only [hi, if_false]
      exact h.key_of_pointer hf'
    · intro key' index' hf'
      obtain ⟨hf', hi⟩ := hne hf'
      simp only [hi, if_false]
      exact h.stored hf'
  case h_2 => exact h

theorem find_erase_self (key : K) : (cache.erase key).pointers.find key = none := by
  unfold InstrCache.erase
  split
  · simp [DenseHashMap.find_erase]
  case h_2 hf => exact hf

/-- After the old key of a slot is erased, no key leads to the slot. -/
theorem Coherent.slot_free (h : cache.Coherent P) (index : ℕ) {key : K} :
    (cache.erase (cache.keys index)).pointers.find key ≠ some index := by
  intro hf
  have hk := (h.erase (cache.keys index)).key_of_pointer hf
  unfold InstrCache.erase at hf hk
  split at hf
  case h_1 index' hf' =>
    rw [DenseHashMap.find_erase] at hf
    split at hf
    · simp at hf
    case isFalse hne => exact hne (h.key_of_pointer hf).symm
  case h_2 hf' =>
    rw [← h.key_of_pointer hf] at hf
    rw [hf'] at hf
    simp at hf

theorem Coherent.place (h : cache.Coherent P) {index : ℕ} {key : K} {value : V}
    (hfree : ∀ key', cache.pointers.find key' ≠ some index) (hv : P key value) :
    (cache.place index key value).Coherent P := by
  have hne : ∀ {key' index'}, (cache.place index key value).pointers.find key' = some index' →
      (key' = key ∧ index' = index)
        ∨ (cache.pointers.find key' = some index' ∧ index' ≠ index) := by
    intro key' index' hf
    obtain ⟨hr, ht⟩ := DenseHashMap.table_of_find hf
    simp only [InstrCache.place, DenseHashMap.emplace] at ht
    split at ht
    case isTrue hk =>
      simp only [Option.some.injEq] at ht
      exact .inl ⟨hk.1, ht.symm⟩
    case isFalse =>
      have hr' : ¬ cache.pointers.Reserved key' := hr
      have hold : cache.pointers.find key' = some index' := by
        rw [DenseHashMap.find_of_table hr', ht]
      refine .inr ⟨hold, ?_⟩
      rintro rfl
      exact hfree key' hold
  constructor
  · intro key' index' hf
    rcases hne hf with ⟨rfl, rfl⟩ | ⟨hf', hi⟩
    · simp [InstrCache.place]
    · simp only [InstrCache.place, hi, if_false]
      exact h.key_of_pointer hf'
  · intro key' index' hf
    rcases hne hf with ⟨rfl, rfl⟩ | ⟨hf', hi⟩
    · exact ⟨value, by simp [InstrCache.place], hv⟩
    · simp only [InstrCache.place, hi, if_false]
      exact h.stored hf'

theorem Coherent.update (h : cache.Coherent P) {key : K} {value : V} (hv : P key value) :
    (cache.update key value).Coherent P := by
  unfold InstrCache.update
  split
  · exact ((h.lru _).erase _).place (fun key' => (h.lru _).slot_free _) hv
  case h_2 hf => exact h.touch hf

end Coherent

end InstrCache

end MiptMips
