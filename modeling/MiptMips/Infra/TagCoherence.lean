import MiptMips.Infra.CacheGeometry
import MiptMips.Lib.Machine

/-!
# The map and the tags of a cache

The map of each set describes the tags of its ways: a tag that the map does not reserve leads to a
way just when the way is valid and holds it (`Coherent`). Writing a line that is not there keeps
this. A line that is not there does not come in unless it is written.
-/

namespace MiptMips

open Machines

/-- An access to the tags. -/
inductive TagAccess where
  | read (addr : Addr)
  | write (addr : Addr)

namespace TagAccess

def addr : TagAccess → Addr
  | read addr => addr
  | write addr => addr

end TagAccess

namespace SimpleCacheTagArray

section Model

/-- The two keys that the maps of the sets reserve. -/
def ReservedTag (tag : Addr) : Prop := tag = impossibleKey ∨ tag = impossibleKey - 1#64

/-- The tags as a machine; an access gives the way that has its line. -/
def machine : Machine SimpleCacheTagArray TagAccess (Option ℕ) where
  step tags
    | .read addr => ((tags.read addr).2, (tags.read addr).1)
    | .write addr => ((tags.write addr).2, some (tags.write addr).1)

variable (tags : SimpleCacheTagArray)

structure Coherent : Prop where
  reserved : ∀ s tag, (tags.lookupHelper s).Reserved tag ↔ ReservedTag tag
  find_iff : ∀ s tag way, ¬ ReservedTag tag →
    ((tags.lookupHelper s).find tag = some way ↔ tags.tags s way = ⟨true, tag⟩)

end Model

variable {tags : SimpleCacheTagArray} {addr : Addr} {s way : ℕ} {tag : Addr}

theorem lookupHelper_read (addr : Addr) : (tags.read addr).2.lookupHelper = tags.lookupHelper := by
  unfold read
  split <;> rfl

theorem tags_read (addr : Addr) : (tags.read addr).2.tags = tags.tags := by
  unfold read
  split <;> rfl

theorem size_read (addr : Addr) : (tags.read addr).2.size = tags.size := by
  unfold read
  split <;> rfl

theorem size_write (addr : Addr) : (tags.write addr).2.size = tags.size := rfl

theorem way_write (addr : Addr) :
    (tags.write addr).1 = (tags.replacementModule (tags.size.set addr)).update.1 := rfl

theorem tags_write (addr : Addr) (s way : ℕ) : (tags.write addr).2.tags s way
    = if s = tags.size.set addr ∧ way = (tags.write addr).1 then ⟨true, tags.size.tag addr⟩
      else tags.tags s way := rfl

theorem replacementModule_write (addr : Addr) (s : ℕ) : (tags.write addr).2.replacementModule s
    = if s = tags.size.set addr then (tags.replacementModule s).update.2
      else tags.replacementModule s := by
  unfold write
  split_ifs with hs
  · subst hs
    simp
  · simp [hs]

theorem read_eq (addr : Addr) : (tags.read addr).1 = tags.readNoTouch addr := by
  unfold read
  rcases hw : tags.readNoTouch addr with _ | way <;> rfl

theorem readNoTouch_read (addr x : Addr) :
    (tags.read addr).2.readNoTouch x = tags.readNoTouch x := by
  unfold readNoTouch
  rw [lookupHelper_read, size_read]

theorem size_next (a : TagAccess) : (machine.next tags a).size = tags.size := by
  cases a with
  | read addr => exact size_read addr
  | write addr => rfl

theorem size_run (accesses : List TagAccess) : (machine.run tags accesses).size = tags.size := by
  have hstep : ∀ (t : SimpleCacheTagArray) a, t.size = tags.size →
      (machine.next t a).size = tags.size := fun t a h => (size_next a).trans h
  exact machine.run_invariant hstep accesses rfl

theorem misses_next {a : TagAccess} (hmiss : tags.readNoTouch addr = none)
    (ha : ∀ x, a = .write x → ¬ (tags.size.set x = tags.size.set addr
      ∧ tags.size.tag x = tags.size.tag addr)) :
    (machine.next tags a).readNoTouch addr = none := by
  unfold readNoTouch at hmiss ⊢
  rw [size_next]
  cases a with
  | read x =>
    show ((tags.read x).2.lookupHelper _).find _ = none
    rw [lookupHelper_read, hmiss]
  | write x =>
    show ((tags.write x).2.lookupHelper _).find _ = none
    unfold write
    dsimp only
    split_ifs with hset hvalid
    · have htag : tags.size.tag addr ≠ tags.size.tag x := fun ht => ha x rfl ⟨hset.symm, ht.symm⟩
      rw [DenseHashMap.find_emplace_ne htag, DenseHashMap.find_erase, ← hset, hmiss, ite_self]
    · have htag : tags.size.tag addr ≠ tags.size.tag x := fun ht => ha x rfl ⟨hset.symm, ht.symm⟩
      rw [DenseHashMap.find_emplace_ne htag, ← hset, hmiss]
    · exact hmiss

/-- A new array: the checks pass, the policy is known, and there is nothing in it. -/
theorem create_cases {size : CacheTagArraySize} {policy : String}
    (h : create size policy = .ok tags) : size.check = .ok () ∧ ∃ replacement,
      CacheReplacement.create policy size.ways.toNat = .ok replacement
        ∧ tags = ⟨size, fun _ _ => {}, fun _ => .create impossibleKey (impossibleKey - 1#64),
          fun _ => replacement⟩ := by
  unfold create at h
  rcases hc : size.check with e | u
  · rw [hc] at h
    cases h
  · rcases hr : CacheReplacement.create policy size.ways.toNat with e | r
    · rw [hc, hr] at h
      cases h
    · rw [hc, hr] at h
      cases h
      exact ⟨rfl, r, rfl, rfl⟩

theorem coherent_create {size : CacheTagArraySize} {policy : String}
    (h : create size policy = .ok tags) : tags.size = size ∧ size.check = .ok () ∧ tags.Coherent := by
  rcases create_cases h with ⟨hcheck, r, -, rfl⟩
  refine ⟨rfl, hcheck, ⟨fun s tag => Iff.rfl, fun s tag way ht => ?_⟩⟩
  constructor
  · intro hf
    rw [DenseHashMap.find_create] at hf
    cases hf
  · intro hf
    cases hf

theorem misses_create {size : CacheTagArraySize} {policy : String}
    (h : create size policy = .ok tags) (addr : Addr) : tags.readNoTouch addr = none := by
  rcases create_cases h with ⟨-, r, -, rfl⟩
  exact DenseHashMap.find_create _ _

/-- The map of a set without the tag of a way. -/
theorem find_erase_way (tags : SimpleCacheTagArray) (s way : ℕ) (tag : Addr) :
    (if (tags.tags s way).isValid then (tags.lookupHelper s).erase (tags.tags s way).tag
      else tags.lookupHelper s).find tag
      = if tags.tags s way = ⟨true, tag⟩ then none else (tags.lookupHelper s).find tag := by
  rcases hentry : tags.tags s way with ⟨valid, old⟩
  cases valid with
  | false => simp
  | true => simp [DenseHashMap.find_erase, @eq_comm _ tag]

/-- The map of the set, after a write of a line that was not there or in the way that it gets. -/
theorem find_lookupHelper_write
    (hr : ¬ (tags.lookupHelper (tags.size.set addr)).Reserved (tags.size.tag addr))
    (h : tags.readNoTouch addr = none ∨ tags.tags (tags.size.set addr) (tags.write addr).1
      = ⟨true, tags.size.tag addr⟩) :
    ((tags.write addr).2.lookupHelper (tags.size.set addr)).find tag
      = if tag = tags.size.tag addr then some (tags.write addr).1
        else if tags.tags (tags.size.set addr) (tags.write addr).1 = ⟨true, tag⟩ then none
        else (tags.lookupHelper (tags.size.set addr)).find tag := by
  have herased := find_erase_way tags (tags.size.set addr) (tags.write addr).1
  have hnone : (if tags.tags (tags.size.set addr) (tags.write addr).1
        = ⟨true, tags.size.tag addr⟩ then none
      else (tags.lookupHelper (tags.size.set addr)).find (tags.size.tag addr)) = none := by
    rcases h with hmiss | hown
    · exact (congrArg (ite _ none) hmiss).trans (ite_self _)
    · exact if_pos hown
  rw [way_write] at herased hnone ⊢
  simp only [write, if_true]
  rw [DenseHashMap.find_emplace _ ((herased _).trans hnone), herased]
  split_ifs <;> exact hr

namespace Coherent

variable (h : tags.Coherent)
include h

theorem read (addr : Addr) : (tags.read addr).2.Coherent := by
  refine ⟨fun s tag => ?_, fun s tag way ht => ?_⟩
  · rw [lookupHelper_read]
    exact h.reserved s tag
  · rw [lookupHelper_read, tags_read]
    exact h.find_iff s tag way ht

/-- A tag is in one way only. -/
theorem way_unique {way' : ℕ} (ht : ¬ ReservedTag tag) (hw : tags.tags s way = ⟨true, tag⟩)
    (hw' : tags.tags s way' = ⟨true, tag⟩) : way = way' := by
  have hf := (h.find_iff s tag way ht).2 hw
  have hf' := (h.find_iff s tag way' ht).2 hw'
  rw [hf] at hf'
  exact Option.some.inj hf'

/-- The map of the set, after a line that was not there is written. -/
theorem find_helper (hmiss : tags.readNoTouch addr = none)
    (hnew : ¬ ReservedTag (tags.size.tag addr)) :
    ((tags.write addr).2.lookupHelper (tags.size.set addr)).find tag
      = if tag = tags.size.tag addr then some (tags.write addr).1
        else if tags.tags (tags.size.set addr) (tags.write addr).1 = ⟨true, tag⟩ then none
        else (tags.lookupHelper (tags.size.set addr)).find tag :=
  find_lookupHelper_write (fun hr => hnew ((h.reserved _ _).1 hr)) (.inl hmiss)

/-- A written line is in the way that the write gave; other lines are where they were, but for the
one that was in this way. -/
theorem find_write (hmiss : tags.readNoTouch addr = none)
    (hnew : ¬ ReservedTag (tags.size.tag addr)) (ht : ¬ ReservedTag tag) :
    ((tags.write addr).2.lookupHelper s).find tag = some way
      ↔ if s = tags.size.set addr ∧ way = (tags.write addr).1 then tag = tags.size.tag addr
        else (tags.lookupHelper s).find tag = some way := by
  by_cases hs : s = tags.size.set addr
  · subst hs
    rw [h.find_helper hmiss hnew]
    have hfind := fun w => h.find_iff (tags.size.set addr) tag w ht
    generalize (tags.write addr).1 = victim
    by_cases htag : tag = tags.size.tag addr
    · unfold readNoTouch at hmiss
      subst htag
      simp [hmiss, eq_comm]
    · by_cases hvictim : tags.tags (tags.size.set addr) victim = ⟨true, tag⟩
      · have hold := (hfind victim).2 hvictim
        simp [htag, hvictim, hold, eq_comm]
      · have hold : (tags.lookupHelper (tags.size.set addr)).find tag ≠ some victim :=
          fun hf => hvictim ((hfind victim).1 hf)
        by_cases hway : way = victim <;> simp [htag, hvictim, hway, hold]
  · unfold SimpleCacheTagArray.write
    simp [hs]

theorem write (hmiss : tags.readNoTouch addr = none)
    (hnew : ¬ ReservedTag (tags.size.tag addr)) : (tags.write addr).2.Coherent := by
  refine ⟨fun s tag => ?_, fun s tag way ht => ?_⟩
  · have hreserved := h.reserved s tag
    unfold SimpleCacheTagArray.write
    dsimp only
    split_ifs with hs
    · subst hs
      exact hreserved
    · subst hs
      exact hreserved
    · exact hreserved
  · rw [h.find_write hmiss hnew ht]
    rw [tags_write]
    split_ifs
    · simp [eq_comm]
    · exact h.find_iff s tag way ht

end Coherent

end SimpleCacheTagArray

end MiptMips
