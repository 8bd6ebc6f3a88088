import MiptMips.Infra.TagCoherence

/-!
# The ways are within their number

The victim of either replacement policy is one of the ways, and the maps of the sets lead to ways
that were victims. So all ways that a set-associative array gives are below their number. What it
does not look at is whether the number of ways, times the size of a line, fits 32 bits.
-/

namespace MiptMips

open Machines

namespace PseudoLRU

variable {lru : PseudoLRU} {ways : ℕ}

theorem ways_touchFrom : ∀ (fuel : ℕ) (lru : PseudoLRU) (node : ℕ),
    (touchFrom fuel lru node).ways = lru.ways
  | 0, _, _ => rfl
  | fuel + 1, lru, node => by
    rw [touchFrom]
    split_ifs
    · rfl
    · refine (ways_touchFrom fuel _ _).trans ?_
      split_ifs <;> rfl

/-- The walk down ends at a child of an inner node. -/
theorem leafFrom_le : ∀ (fuel node : ℕ), node ≤ 2 * lru.nodes.length →
    lru.leafFrom fuel node ≤ 2 * lru.nodes.length
  | 0, _, h => h
  | fuel + 1, node, h => by
    rw [leafFrom]
    split_ifs with hinner
    · refine leafFrom_le fuel _ ?_
      rw [getNextNode]
      split_ifs <;> omega
    · exact h

theorem victim_lt (h : 0 < lru.ways) : lru.victim < lru.ways := by
  have hleaf := lru.leafFrom_le (lru.nodes.length + 1) 0 (Nat.zero_le _)
  have hnodes := lru.length_nodes
  rw [victim]
  omega

end PseudoLRU

namespace CacheReplacement

def getWays : CacheReplacement → ℕ
  | lru l => l.ways
  | pseudoLru l => l.ways

variable {r : CacheReplacement} {ways : ℕ}

theorem getWays_touch (way : ℕ) : (r.touch way).getWays = r.getWays := by
  cases r with
  | lru l => exact l.ways_touch way
  | pseudoLru l => exact PseudoLRU.ways_touchFrom _ l _

theorem getWays_update : r.update.2.getWays = r.getWays := by
  cases r with
  | lru l => exact l.ways_update
  | pseudoLru l => exact PseudoLRU.ways_touchFrom _ l _

theorem update_lt (h : 0 < r.getWays) : r.update.1 < r.getWays := by
  cases r with
  | lru l => exact l.victim_lt h
  | pseudoLru l => exact PseudoLRU.victim_lt h

/-- The policies that there are, and the numbers of ways they take. -/
theorem create_cases {policy : String} (h : create policy ways = .ok r) : r.getWays = ways
    ∧ (policy = "LRU" ∨ policy = "pseudo-LRU" ∧ PseudoLRU.isPowerOfTwo ways = true) := by
  unfold create at h
  split_ifs at h with hlru hpseudo
  · cases h
    exact ⟨rfl, .inl hlru⟩
  · unfold PseudoLRU.create at h
    split_ifs at h with hzero hpower
    · cases h
    · cases h
      exact ⟨rfl, .inr ⟨hpseudo, hpower⟩⟩
    · cases h

end CacheReplacement

namespace DenseHashMap

variable {K : Type} [DecidableEq K] {map : DenseHashMap K ℕ} {n value : ℕ}

/-- All values of the map are below `n`. -/
def Below (n : ℕ) (map : DenseHashMap K ℕ) : Prop :=
  ∀ key value, map.table key = some value → value < n

theorem Below.emplace (h : map.Below n) (hvalue : value < n) (key : K) :
    (map.emplace key value).Below n := by
  intro k v hv
  simp only [DenseHashMap.emplace] at hv
  split_ifs at hv
  · rw [← Option.some.inj hv]
    exact hvalue
  · exact h k v hv

theorem Below.erase (h : map.Below n) (key : K) : (map.erase key).Below n := by
  intro k v hv
  simp only [DenseHashMap.erase] at hv
  split_ifs at hv
  exact h k v hv

end DenseHashMap

namespace SimpleCacheTagArray

variable {tags : SimpleCacheTagArray} {ways way : ℕ} {addr : Addr}

/-- The maps lead to ways below `ways`, and the policies choose among them. -/
structure Bounded (ways : ℕ) (tags : SimpleCacheTagArray) : Prop where
  found : ∀ s, (tags.lookupHelper s).Below ways
  policy : ∀ s, (tags.replacementModule s).getWays = ways

theorem bounded_create {size : CacheTagArraySize} {policy : String}
    (h : create size policy = .ok tags) : tags.Bounded size.ways.toNat := by
  rcases create_cases h with ⟨-, r, hr, rfl⟩
  exact ⟨fun _ _ _ hkey => (nomatch hkey), fun _ => (CacheReplacement.create_cases hr).1⟩

namespace Bounded

variable (h : tags.Bounded ways)
include h

theorem readNoTouch (hway : tags.readNoTouch addr = some way) : way < ways :=
  h.found _ _ _ (DenseHashMap.table_of_find hway).2

theorem way_write (hpos : 0 < ways) (addr : Addr) : (tags.write addr).1 < ways := by
  have hpolicy := h.policy (tags.size.set addr)
  rw [SimpleCacheTagArray.way_write, ← hpolicy]
  exact CacheReplacement.update_lt (by rwa [hpolicy])

theorem read (addr : Addr) : (tags.read addr).2.Bounded ways := by
  refine ⟨fun s => ?_, fun s => ?_⟩
  · rw [lookupHelper_read]
    exact h.found s
  · unfold SimpleCacheTagArray.read
    split
    · dsimp only
      split_ifs
      · rw [CacheReplacement.getWays_touch, h.policy]
      · exact h.policy s
    · exact h.policy s

theorem write (hpos : 0 < ways) (addr : Addr) : (tags.write addr).2.Bounded ways := by
  have hway := h.way_write hpos addr
  refine ⟨fun s => ?_, fun s => ?_⟩
  · rw [SimpleCacheTagArray.way_write] at hway
    unfold SimpleCacheTagArray.write
    dsimp only
    split_ifs
    · exact ((h.found _).erase _).emplace hway _
    · exact (h.found _).emplace hway _
    · exact h.found s
  · rw [replacementModule_write]
    split_ifs
    · rw [CacheReplacement.getWays_update, h.policy]
    · exact h.policy s

end Bounded

end SimpleCacheTagArray

end MiptMips
