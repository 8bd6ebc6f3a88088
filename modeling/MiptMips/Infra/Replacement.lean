import Mathlib.Data.List.Perm.Basic
import MiptMips.Infra.Exception
import MiptMips.Lib.Recency

/-!
# Cache replacement

`LRU` keeps the ways in a list with the most recently used one at its head; the list is always a
permutation of the ways, and the structure carries that. A way that is moved goes to the head or,
when it is to be erased, to the tail. `PseudoLRU` keeps one bit for each inner node of a tree over
the ways: the side its next victim is on.
-/

namespace MiptMips

open Machines

structure LRU where
  ways : ℕ
  lruList : List ℕ
  perm : lruList.Perm (List.range ways)

namespace LRU

section Model

def create (ways : ℕ) : LRU where
  ways := ways
  lruList := (List.range ways).reverse
  perm := List.reverse_perm _

variable (lru : LRU)

theorem mem_lruList {way : ℕ} : way ∈ lru.lruList ↔ way < lru.ways := by
  rw [lru.perm.mem_iff, List.mem_range]

/-- Splicing an iterator that is not in the list is undefined; here nothing moves. -/
def touch (way : ℕ) : LRU :=
  if h : way < lru.ways then
    { lru with
      lruList := way :: lru.lruList.erase way
      perm := (List.perm_cons_erase (lru.mem_lruList.2 h)).symm.trans lru.perm }
  else lru

def setToErase (way : ℕ) : LRU :=
  if h : way < lru.ways then
    { lru with
      lruList := lru.lruList.erase way ++ [way]
      perm := (List.perm_append_singleton _ _).trans
        ((List.perm_cons_erase (lru.mem_lruList.2 h)).symm.trans lru.perm) }
  else lru

/-- The least recently used way. -/
def victim : ℕ := lru.lruList.getLast?.getD 0

def update : ℕ × LRU := (lru.victim, lru.touch lru.victim)

end Model

section Facts

variable (lru : LRU)

@[simp]
theorem ways_touch (way : ℕ) : (lru.touch way).ways = lru.ways := by
  unfold touch
  split <;> rfl

@[simp]
theorem ways_setToErase (way : ℕ) : (lru.setToErase way).ways = lru.ways := by
  unfold setToErase
  split <;> rfl

@[simp]
theorem ways_update : lru.update.2.ways = lru.ways := lru.ways_touch _

theorem lruList_ne_nil (h : 0 < lru.ways) : lru.lruList ≠ [] := by
  have hl : lru.lruList.length = lru.ways := by rw [lru.perm.length_eq, List.length_range]
  intro hnil
  rw [hnil, List.length_nil] at hl
  omega

theorem victim_eq_getLast (h : 0 < lru.ways) :
    lru.victim = lru.lruList.getLast (lru.lruList_ne_nil h) := by
  rw [victim, List.getLast?_eq_some_getLast (lru.lruList_ne_nil h)]
  rfl

theorem victim_lt (h : 0 < lru.ways) : lru.victim < lru.ways := by
  rw [← lru.mem_lruList, victim_eq_getLast _ h]
  exact List.getLast_mem _

end Facts

section Order

variable {lru : LRU} {way : ℕ}

theorem lruList_touch (h : way < lru.ways) :
    (lru.touch way).lruList = moveToFront way lru.lruList := by
  unfold touch
  rw [dif_pos h]
  rfl

theorem lruList_setToErase (h : way < lru.ways) :
    (lru.setToErase way).lruList = lru.lruList.erase way ++ [way] := by
  unfold setToErase
  rw [dif_pos h]

/-- A use of the victim takes the last way to the front. -/
theorem lruList_update (h : 0 < lru.ways) :
    lru.update.2.lruList = lru.victim :: lru.lruList.dropLast := by
  have hne := lru.lruList_ne_nil h
  have hvictim : lru.victim = lru.lruList.getLast hne := lru.victim_eq_getLast h
  have hnodup : lru.lruList.Nodup := lru.perm.nodup_iff.2 List.nodup_range
  have hsplit := List.dropLast_append_getLast hne
  have hnotMem : lru.lruList.getLast hne ∉ lru.lruList.dropLast := by
    rw [← hsplit, List.nodup_append] at hnodup
    intro hmem
    exact hnodup.2.2 _ hmem _ (List.mem_singleton_self _) rfl
  show (lru.touch lru.victim).lruList = _
  rw [lruList_touch (lru.victim_lt h), moveToFront, hvictim]
  nth_rewrite 2 [← hsplit]
  rw [List.erase_append_right _ hnotMem]
  simp

theorem victim_notMem_dropLast (h : 0 < lru.ways) : lru.victim ∉ lru.lruList.dropLast := by
  have hnodup : lru.update.2.lruList.Nodup := lru.update.2.perm.nodup_iff.2 List.nodup_range
  rw [lruList_update h] at hnodup
  exact (List.nodup_cons.1 hnodup).1

/-- The victim goes to the front once more, with or without a turn at the back. -/
theorem lruList_touch_update (h : 0 < lru.ways) :
    (lru.update.2.touch lru.victim).lruList = lru.victim :: lru.lruList.dropLast
      ∧ ((lru.update.2.setToErase lru.victim).touch lru.victim).lruList
        = lru.victim :: lru.lruList.dropLast := by
  have hlt : lru.victim < lru.update.2.ways := by
    rw [ways_update]
    exact lru.victim_lt h
  constructor
  · rw [lruList_touch hlt, lruList_update h, moveToFront, List.erase_cons_head]
  · rw [lruList_touch (by rwa [ways_setToErase]), lruList_setToErase hlt, lruList_update h,
      List.erase_cons_head, moveToFront, List.erase_append_right _ (victim_notMem_dropLast h)]
    simp

end Order

end LRU

structure PseudoLRU where
  ways : ℕ
  /-- `false` is `Left`. -/
  nodes : List Bool
  length_nodes : nodes.length = ways - 1

namespace PseudoLRU

section Model

def isPowerOfTwo (n : ℕ) : Bool := (List.range (n + 1)).any fun k => 2 ^ k == n

/-- The nodes are allocated before the number of ways is checked. -/
def create (ways : ℕ) : Except SimException PseudoLRU :=
  if ways = 0 then .error .lengthError
  else if isPowerOfTwo ways then
    .ok { ways := ways, nodes := List.replicate (ways - 1) false, length_nodes := by simp }
  else .error .cacheReplacement

variable (lru : PseudoLRU)

def getNextNode (node : ℕ) : ℕ := node * 2 + if lru.nodes.getD node false then 2 else 1

/-- Whether a node is the right child of its parent. -/
def getDirectionToPrevNode (node : ℕ) : Bool := node % 2 == 0

def reverseNode (node : ℕ) : PseudoLRU :=
  { lru with
    nodes := lru.nodes.modify node not
    length_nodes := by rw [List.length_modify, lru.length_nodes] }

/-- The walk from a node up to the root; a parent is below its children. -/
def touchFrom : ℕ → PseudoLRU → ℕ → PseudoLRU
  | 0, lru, _ => lru
  | fuel + 1, lru, node =>
    if node = 0 then lru
    else
      let parent := (node - 1) / 2
      let lru := if getDirectionToPrevNode node = lru.nodes.getD parent false
        then lru.reverseNode parent else lru
      touchFrom fuel lru parent

def touch (way : ℕ) : PseudoLRU :=
  touchFrom (way + lru.nodes.length) lru (way + lru.nodes.length)

/-- The walk from a node down to a leaf; each turn at least doubles the node. -/
def leafFrom : ℕ → ℕ → ℕ
  | 0, node => node
  | fuel + 1, node =>
    if node < lru.nodes.length then leafFrom fuel (lru.getNextNode node) else node

def victim : ℕ := lru.leafFrom (lru.nodes.length + 1) 0 - lru.nodes.length

def update : ℕ × PseudoLRU := (lru.victim, lru.touch lru.victim)

end Model

end PseudoLRU

end MiptMips
