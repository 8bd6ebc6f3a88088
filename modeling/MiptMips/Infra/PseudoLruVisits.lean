import MiptMips.Infra.CacheGeometry
import MiptMips.Lib.ToggleTree

/-!
# The victims of pseudo-LRU

The array of nodes is a tree of toggles: `update` is a visit, which walks down to a leaf as the bits
lead and up again, turning them.
-/

namespace MiptMips

open Machines ToggleTree

namespace PseudoLRU

variable {lru : PseudoLRU} {depth k root pos fuel i way : ℕ}

section Tree

def bit (lru : PseudoLRU) (pos : ℕ) : Bool := lru.nodes.getD pos false

/-- The tree of the nodes, when there are as many ways as leaves. -/
def tree (lru : PseudoLRU) (depth : ℕ) : ToggleTree depth := ofArray lru.bit depth 0

/-- The leaves below a node are those of the whole tree. -/
structure Spans (depth k root : ℕ) : Prop where
  first : 2 ^ depth ≤ 2 ^ k * (root + 1)
  last : 2 ^ k * (root + 2) ≤ 2 ^ (depth + 1)

theorem spans_root (depth : ℕ) : Spans depth depth 0 := by
  constructor
  · omega
  · rw [Nat.pow_succ]

theorem Spans.left (h : Spans depth (k + 1) root) : Spans depth k (2 * root + 1) := by
  have hfirst := h.first
  have hlast := h.last
  rw [Nat.pow_succ, Nat.mul_assoc] at hfirst hlast
  have hpos := Nat.two_pow_pos k
  constructor
  · rwa [show 2 * root + 1 + 1 = 2 * (root + 1) by omega]
  · refine (Nat.mul_le_mul_left _ ?_).trans hlast
    omega

theorem Spans.right (h : Spans depth (k + 1) root) : Spans depth k (2 * root + 2) := by
  have hfirst := h.first
  have hlast := h.last
  rw [Nat.pow_succ, Nat.mul_assoc] at hfirst hlast
  constructor
  · refine hfirst.trans (Nat.mul_le_mul_left _ ?_)
    omega
  · rwa [show 2 * root + 2 + 2 = 2 * (root + 2) by omega]

/-- An inner node is in the array. -/
theorem Spans.lt (h : Spans depth (k + 1) root) : root < 2 ^ depth - 1 := by
  have hlast := h.last
  rw [Nat.pow_succ, Nat.mul_comm (2 ^ k), Nat.mul_assoc, Nat.pow_succ] at hlast
  have hpos := Nat.two_pow_pos k
  have hle : root + 2 ≤ 2 ^ k * (root + 2) := Nat.le_mul_of_pos_left _ hpos
  omega

/-- A leaf below a node is in one of the two halves. -/
theorem Spans.half {pos i : ℕ} (hs : Spans depth (k + 1) root) (hi : i < 2 ^ (k + 1))
    (hnode : pos + 1 = 2 ^ (k + 1) * (root + 1) + i) : ∃ (right : Bool) (j : ℕ), j < 2 ^ k
      ∧ i = (if right then 2 ^ k + j else j)
      ∧ pos + 1 = 2 ^ k * (2 * root + (if right then 2 else 1) + 1) + j
      ∧ Spans depth k (2 * root + if right then 2 else 1) := by
  rw [Nat.pow_succ, Nat.mul_assoc] at hnode
  rw [Nat.pow_succ] at hi
  by_cases hleft : i < 2 ^ k
  · refine ⟨false, i, hleft, rfl, ?_, hs.left⟩
    rw [hnode, if_neg Bool.false_ne_true, show 2 * root + 1 + 1 = 2 * (root + 1) by omega]
  · refine ⟨true, i - 2 ^ k, by omega, by rw [if_pos rfl]; omega, ?_, hs.right⟩
    rw [hnode, if_pos rfl, show 2 * root + 2 + 1 = 2 * (root + 1) + 1 by omega,
      Nat.mul_add (2 ^ k) (2 * (root + 1)), Nat.mul_one]
    omega

theorem Spans.le (h : Spans depth 0 root) : 2 ^ depth - 1 ≤ root := by
  have hfirst := h.first
  rw [Nat.pow_zero, Nat.one_mul] at hfirst
  omega

end Tree

section Down

/-- The walk down leads to the leaf that the bits lead to. -/
theorem leafFrom_eq (hlen : lru.nodes.length = 2 ^ depth - 1) :
    ∀ {k fuel root : ℕ}, k < fuel → Spans depth k root →
      lru.leafFrom fuel root + 1 = 2 ^ k * (root + 1) + (ofArray lru.bit k root).target
  | _, 0, _, h, _ => absurd h (Nat.not_lt_zero _)
  | 0, fuel + 1, root, _, hs => by
    rw [leafFrom, if_neg (by rw [hlen]; exact Nat.not_lt.2 hs.le), ofArray, target]
    simp
  | k + 1, fuel + 1, root, h, hs => by
    rw [leafFrom, if_pos (by rw [hlen]; exact hs.lt), ofArray, target, getNextNode,
      show lru.nodes.getD root false = lru.bit root from rfl, Nat.pow_succ]
    rcases hb : lru.bit root with _ | _
    · rw [if_neg Bool.false_ne_true, if_neg Bool.false_ne_true, Nat.mul_comm root,
        leafFrom_eq hlen (Nat.lt_of_succ_lt_succ h) hs.left, Nat.mul_assoc,
        show 2 * root + 1 + 1 = 2 * (root + 1) by omega]
    · rw [if_pos rfl, if_pos rfl, Nat.mul_comm root,
        leafFrom_eq hlen (Nat.lt_of_succ_lt_succ h) hs.right, Nat.mul_assoc, ← Nat.add_assoc,
        show 2 * root + 2 + 1 = 2 * (root + 1) + 1 by omega, Nat.mul_add, Nat.mul_one]

theorem victim_eq (hlen : lru.nodes.length = 2 ^ depth - 1) :
    lru.victim = (lru.tree depth).target := by
  have hdepth : depth < 2 ^ depth := Nat.lt_two_pow_self
  have h := leafFrom_eq hlen (show depth < lru.nodes.length + 1 by omega) (spans_root depth)
  rw [Nat.zero_add, Nat.mul_one] at h
  unfold victim tree
  omega

end Down

section Up

@[simp]
theorem length_reverseNode (lru : PseudoLRU) (pos : ℕ) :
    (lru.reverseNode pos).nodes.length = lru.nodes.length := List.length_modify _ _ _

theorem bit_reverseNode (h : pos < lru.nodes.length) (p : ℕ) :
    (lru.reverseNode pos).bit p = if pos = p then !lru.bit p else lru.bit p := by
  unfold bit reverseNode
  simp only [List.getD_eq_getElem?_getD, List.getElem?_modify]
  split_ifs with hp
  · obtain rfl := hp
    simp [h]
  · simp

/-- A step up turns the bit of the parent away from the child. -/
theorem touchFrom_succ (fuel : ℕ) (hnode : pos ≠ 0) (h : (pos - 1) / 2 < lru.nodes.length) :
    ∃ lru' : PseudoLRU, touchFrom (fuel + 1) lru pos = touchFrom fuel lru' ((pos - 1) / 2)
      ∧ lru'.nodes.length = lru.nodes.length ∧ lru'.ways = lru.ways
      ∧ ∀ p, lru'.bit p = if p = (pos - 1) / 2 then !getDirectionToPrevNode pos else lru.bit p := by
  rw [touchFrom, if_neg hnode]
  dsimp only
  split_ifs with hdir
  · refine ⟨_, rfl, length_reverseNode _ _, rfl, fun p => ?_⟩
    rw [bit_reverseNode h]
    by_cases hp : p = (pos - 1) / 2
    · rw [if_pos hp.symm, if_pos hp, hp, hdir]
      rfl
    · rw [if_neg hp, if_neg (Ne.symm hp)]
  · refine ⟨lru, rfl, rfl, rfl, fun p => ?_⟩
    by_cases hp : p = (pos - 1) / 2
    · rw [if_pos hp, hp]
      exact (Bool.not_eq.2 hdir).symm
    · rw [if_neg hp]

/-- The walk up from a leaf to a node turns the bits below that node away from the leaf. -/
theorem touchFrom_subtree (fuel : ℕ) : ∀ {k root pos i : ℕ} {lru : PseudoLRU},
    lru.nodes.length = 2 ^ depth - 1 → Spans depth k root → i < 2 ^ k →
    pos + 1 = 2 ^ k * (root + 1) + i →
    ∃ lru' : PseudoLRU, touchFrom (fuel + k) lru pos = touchFrom fuel lru' root
      ∧ lru'.nodes.length = lru.nodes.length ∧ lru'.ways = lru.ways
      ∧ ofArray lru'.bit k root = (ofArray lru.bit k root).turn i
      ∧ ∀ p, ¬ Within k root p → lru'.bit p = lru.bit p
  | 0, root, pos, i, lru, _, _, hi, hnode => by
    obtain rfl : pos = root := by
      rw [Nat.pow_zero] at hi hnode
      omega
    exact ⟨lru, rfl, rfl, rfl, rfl, fun _ _ => rfl⟩
  | k + 1, root, pos, i, lru, hlen, hs, hi, hnode => by
    obtain ⟨right, j, hj, hij, hnode', hspans⟩ := hs.half hi hnode
    obtain ⟨lru₁, hwalk, hlen₁, hways₁, htree, hframe⟩ :=
      touchFrom_subtree (fuel + 1) hlen hspans hj hnode'
    have hparent : (2 * root + (if right then 2 else 1) - 1) / 2 = root := by
      cases right <;> simp <;> omega
    have hdir : getDirectionToPrevNode (2 * root + if right then 2 else 1) = right := by
      cases right <;> simp [getDirectionToPrevNode]
    obtain ⟨lru₂, hstep, hlen₂, hways₂, hbit⟩ := @touchFrom_succ lru₁ _ fuel
      (show 2 * root + (if right then 2 else 1) ≠ 0 by cases right <;> simp)
      (by rw [hparent, hlen₁, hlen]; exact hs.lt)
    rw [hparent] at hstep hbit
    rw [hdir] at hbit
    have hbelow : ∀ p, root < p → lru₂.bit p = lru₁.bit p := fun p hp => by
      rw [hbit, if_neg (by omega)]
    refine ⟨lru₂, ?_, hlen₂.trans hlen₁, hways₂.trans hways₁, ?_, fun p hp => ?_⟩
    · rw [show fuel + (k + 1) = fuel + 1 + k by omega, hwalk, hstep]
    · have hroot : lru₂.bit root = !right := by rw [hbit, if_pos rfl]
      have hsame : ∀ child, root < child →
          ofArray lru₂.bit k child = ofArray lru₁.bit k child := fun child hc =>
        ofArray_congr fun p hp => hbelow p (hc.trans_le hp.le)
      rw [ofArray, ofArray, hroot, hsame _ (by omega), hsame _ (by omega), hij]
      cases right with
      | false =>
        rw [if_neg Bool.false_ne_true] at htree ⊢
        rw [turn, if_pos hj, htree,
          ofArray_congr fun p hp => hframe p fun hw => not_within_both hw hp]
        rfl
      | true =>
        rw [if_pos rfl] at htree ⊢
        rw [turn, if_neg (by omega), Nat.add_sub_cancel_left, htree,
          ofArray_congr fun p hp => hframe p fun hw => not_within_both hp hw]
        rfl
    · rw [Within, not_or, not_or] at hp
      rw [hbit, if_neg hp.1]
      refine hframe p fun hw => ?_
      cases right
      · exact hp.2.1 hw
      · exact hp.2.2 hw

theorem touch_eq (hlen : lru.nodes.length = 2 ^ depth - 1) (hway : way < 2 ^ depth) :
    (lru.touch way).tree depth = (lru.tree depth).turn way
      ∧ (lru.touch way).nodes.length = lru.nodes.length ∧ (lru.touch way).ways = lru.ways := by
  have hdepth : depth < 2 ^ depth := Nat.lt_two_pow_self
  obtain ⟨fuel, hfuel⟩ : ∃ fuel, way + lru.nodes.length = fuel + depth :=
    ⟨way + lru.nodes.length - depth, by omega⟩
  obtain ⟨lru', hwalk, hlen', hways, htree, -⟩ := touchFrom_subtree fuel hlen (spans_root depth)
    hway (show fuel + depth + 1 = 2 ^ depth * (0 + 1) + way by omega)
  have hstop : touchFrom fuel lru' 0 = lru' := by
    cases fuel <;> rfl
  have htouch : lru.touch way = lru' := by
    rw [touch, hfuel, hwalk, hstop]
  rw [htouch]
  exact ⟨htree, hlen', hways⟩

end Up

section Visits

/-- The states that touches and updates lead to. -/
inductive Reachable (ways : ℕ) : PseudoLRU → Prop
  | create {lru : PseudoLRU} : PseudoLRU.create ways = .ok lru → Reachable ways lru
  | touch {lru : PseudoLRU} {way : ℕ} : Reachable ways lru → way < ways →
    Reachable ways (lru.touch way)
  | update {lru : PseudoLRU} : Reachable ways lru → Reachable ways lru.update.2

/-- The ways that consecutive updates return. -/
def updates : ℕ → PseudoLRU → List ℕ
  | 0, _ => []
  | n + 1, lru => lru.update.1 :: updates n lru.update.2

/-- As many ways as leaves. -/
structure Complete (ways depth : ℕ) (lru : PseudoLRU) : Prop where
  ways_eq : ways = 2 ^ depth
  nodes : lru.nodes.length = 2 ^ depth - 1

variable {ways : ℕ}

theorem Complete.update (h : Complete ways depth lru) : lru.update.1 = (lru.tree depth).target
    ∧ lru.update.2.tree depth = (lru.tree depth).visit ∧ Complete ways depth lru.update.2 := by
  have hvictim := victim_eq h.nodes
  have hlt : lru.victim < 2 ^ depth := by
    rw [hvictim]
    exact target_lt _
  obtain ⟨htree, hlen, -⟩ := touch_eq h.nodes hlt
  refine ⟨hvictim, ?_, h.ways_eq, hlen.trans h.nodes⟩
  rw [visit, ← hvictim]
  exact htree

theorem Complete.touch (h : Complete ways depth lru) (hway : way < ways) :
    (lru.touch way).tree depth = (lru.tree depth).turn way
      ∧ Complete ways depth (lru.touch way) := by
  obtain ⟨htree, hlen, -⟩ := touch_eq h.nodes (h.ways_eq ▸ hway)
  exact ⟨htree, h.ways_eq, hlen.trans h.nodes⟩

theorem Reachable.complete (h : Reachable ways lru) : ∃ depth, Complete ways depth lru := by
  induction h with
  | create h =>
    unfold PseudoLRU.create at h
    split_ifs at h with h0 hpow
    cases h
    obtain ⟨depth, rfl⟩ := isPowerOfTwo_iff.1 hpow
    exact ⟨depth, rfl, List.length_replicate⟩
  | touch _ hway ih =>
    obtain ⟨depth, hc⟩ := ih
    exact ⟨depth, (hc.touch hway).2⟩
  | update _ ih =>
    obtain ⟨depth, hc⟩ := ih
    exact ⟨depth, hc.update.2.2⟩

theorem Complete.updates_eq : ∀ {lru : PseudoLRU} (_ : Complete ways depth lru) (n : ℕ),
    updates n lru = visits n (lru.tree depth)
  | _, _, 0 => rfl
  | lru, h, n + 1 => by
    obtain ⟨hvictim, htree, hnext⟩ := h.update
    rw [updates, visits, hvictim, Complete.updates_eq hnext n, htree]

/-- From every state, as many updates as ways return each way once, and a way that has just been
used is not the next victim. -/
theorem updates_visit_ways (h : Reachable ways lru) : (updates ways lru).Perm (List.range ways)
    ∧ lru.update.1 < ways
    ∧ (2 ≤ ways → (∀ way < ways, (lru.touch way).update.1 ≠ way)
      ∧ lru.update.2.update.1 ≠ lru.update.1) := by
  obtain ⟨depth, hc⟩ := h.complete
  obtain ⟨hvictim, htree, hnext⟩ := hc.update
  have hways := hc.ways_eq
  have hlt : lru.update.1 < 2 ^ depth := by
    rw [hvictim]
    exact target_lt _
  refine ⟨?_, hways ▸ hlt, fun htwo => ?_⟩
  · rw [hc.updates_eq, hways]
    exact perm_visits _
  · have hdepth : 0 < depth := by
      rcases Nat.eq_zero_or_pos depth with rfl | hpos
      · rw [hways] at htwo
        exact absurd htwo (by decide)
      · exact hpos
    constructor
    · intro way hway
      obtain ⟨htouch, hnext⟩ := hc.touch hway
      rw [hnext.update.1, htouch]
      exact target_turn_ne hdepth _ (hways ▸ hway)
    · rw [hnext.update.1, htree, hvictim]
      exact target_turn_ne hdepth _ (target_lt _)

/-- Eight ways, after a touch and an update. -/
theorem updates_visit_ways_eight : ∃ lru, PseudoLRU.create 8 = .ok lru
    ∧ (updates 8 (lru.touch 5).update.2).Perm (List.range 8) := by
  obtain ⟨lru, h⟩ : ∃ lru, PseudoLRU.create 8 = .ok lru := ⟨_, rfl⟩
  exact ⟨lru, h, (updates_visit_ways (.update (.touch (.create h) (by decide)))).1⟩

end Visits

end PseudoLRU

end MiptMips
