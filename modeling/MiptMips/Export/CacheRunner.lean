import MiptMips.Infra.LruTags

/-!
# The cache runner

A trace of addresses is run on a tag array: an address that is not there is written. The runner
counts the accesses, the hits, and the misses of addresses that never missed before. With the
policy `LRU` the hits are the accesses whose line was used before with fewer other lines of its set
since than there are ways, so that more ways never lose a hit.

The counters do not wrap around here.
-/

namespace MiptMips

open Machines

structure CacheRunnerResults where
  accesses : ℕ := 0
  hits : ℕ := 0
  compulsoryMisses : ℕ := 0
  deriving DecidableEq

def CacheRunnerResults.getMisses (results : CacheRunnerResults) : ℕ :=
  results.accesses - results.hits

structure CacheRunner where
  cache : CacheTagArray
  /-- The addresses that have missed. -/
  history : List Addr := []

namespace CacheRunner

section Model

variable (runner : CacheRunner) (addr : Addr) (result : CacheRunnerResults)

def accountMiss : CacheRunner × CacheRunnerResults :=
  let runner := { runner with cache := (runner.cache.write addr).2 }
  if addr ∈ runner.history then (runner, result)
  else
    ({ runner with history := addr :: runner.history },
      { result with compulsoryMisses := result.compulsoryMisses + 1 })

def accountAccess : CacheRunner × CacheRunnerResults :=
  let result := { result with accesses := result.accesses + 1 }
  let (hit, cache) := runner.cache.lookup addr
  let runner := { runner with cache }
  if hit then (runner, { result with hits := result.hits + 1 }) else runner.accountMiss addr result

/-- `run` on a trace that was read from its file. -/
def run (trace : List Addr) : CacheRunner × CacheRunnerResults :=
  trace.foldl (fun s addr => s.1.accountAccess addr s.2) (runner, {})

end Model

section Reference

variable (size : CacheTagArraySize)

/-- The line of an address was used, and fewer other lines of its set than there are ways were used
since. -/
def Reused (history : List Addr) (addr : Addr) : Prop :=
  (∃ x ∈ history, size.line x = size.line addr)
    ∧ (SimpleCacheTagArray.othersSince size history addr).card < size.ways.toNat

instance (history : List Addr) (addr : Addr) : Decidable (Reused size history addr) :=
  inferInstanceAs (Decidable (_ ∧ _))

/-- The addresses of a trace that are not used again, after a history of uses. -/
def missed : List Addr → List Addr → List Addr
  | _, [] => []
  | history, addr :: trace =>
    (if Reused size history addr then [] else [addr]) ++ missed (addr :: history) trace

variable {size}

variable (size) in
/-- The first use of a line misses. -/
theorem exists_missed : ∀ (history : List Addr) {trace : List Addr} {x : Addr}, x ∈ trace →
    (∃ y ∈ history, size.line y = size.line x)
      ∨ ∃ y ∈ missed size history trace, size.line y = size.line x
  | history, addr :: trace, x, hx => by
    rw [missed]
    rcases List.mem_cons.1 hx with rfl | hx
    · by_cases h : Reused size history x
      · exact .inl h.1
      · rw [if_neg h]
        exact .inr ⟨x, by simp, rfl⟩
    · rcases exists_missed (addr :: history) hx with ⟨y, hy, hline⟩ | ⟨y, hy, hline⟩
      · rcases List.mem_cons.1 hy with rfl | hy
        · by_cases h : Reused size history y
          · obtain ⟨z, hz, hz'⟩ := h.1
            exact .inl ⟨z, hz, hz'.trans hline⟩
          · rw [if_neg h]
            exact .inr ⟨y, by simp, hline⟩
        · exact .inl ⟨y, hy, hline⟩
      · exact .inr ⟨y, List.mem_append_right _ hy, hline⟩

theorem card_lines_le (trace : List Addr) :
    (trace.map size.line).toFinset.card ≤ (missed size [] trace).toFinset.card := by
  have hsub : (trace.map size.line).toFinset ⊆ (missed size [] trace).toFinset.image size.line := by
    intro n hn
    obtain ⟨x, hx, rfl⟩ := List.mem_map.1 (List.mem_toFinset.1 hn)
    obtain ⟨y, hy, -⟩ | ⟨y, hy, hline⟩ := exists_missed size [] hx
    · cases hy
    · exact Finset.mem_image.2 ⟨y, List.mem_toFinset.2 hy, hline⟩
  exact (Finset.card_le_card hsub).trans Finset.card_image_le

/-- The same sets of lines of the same length. -/
structure SameSets (size size' : CacheTagArraySize) : Prop where
  lineSize : size'.lineSize = size.lineSize
  addrSizeInBits : size'.addrSizeInBits = size.addrSizeInBits
  sets : size'.sets = size.sets

namespace SameSets

variable {size' : CacheTagArraySize} (h : SameSets size size')
include h

theorem line_eq (x : Addr) : size'.line x = size.line x := by
  rw [CacheTagArraySize.line, CacheTagArraySize.line, h.lineSize, h.addrSizeInBits]

theorem set_eq (x : Addr) : size'.set x = size.set x := by
  unfold CacheTagArraySize.set CacheTagArraySize.addrMask CacheTagArraySize.lineBits
  rw [h.lineSize, h.addrSizeInBits, h.sets]

theorem tag_eq (x : Addr) : size'.tag x = size.tag x := by
  unfold CacheTagArraySize.tag CacheTagArraySize.addrMask CacheTagArraySize.setBits
    CacheTagArraySize.lineBits
  rw [h.lineSize, h.addrSizeInBits, h.sets]

end SameSets

/-- What is used again soon enough for fewer ways is so for more. -/
theorem Reused.mono {size' : CacheTagArraySize} (h : SameSets size size')
    (hways : size.ways ≤ size'.ways) {history : List Addr} {addr : Addr}
    (hr : Reused size history addr) : Reused size' history addr := by
  unfold Reused SimpleCacheTagArray.othersSince at hr ⊢
  rw [funext h.line_eq, funext h.set_eq]
  exact ⟨hr.1, hr.2.trans_le hways⟩

theorem length_missed_mono {size' : CacheTagArraySize} (h : SameSets size size')
    (hways : size.ways ≤ size'.ways) : ∀ history trace : List Addr,
    (missed size' history trace).length ≤ (missed size history trace).length
  | _, [] => le_rfl
  | history, addr :: trace => by
    have ih := length_missed_mono h hways (addr :: history) trace
    rw [missed, missed, List.length_append, List.length_append]
    by_cases hr : Reused size history addr
    · rw [if_pos hr, if_pos (hr.mono h hways)]
      simpa using ih
    · rw [if_neg hr]
      split_ifs <;> simp <;> omega

end Reference

end CacheRunner

namespace SimpleCacheTagArray

section Hits

variable {size : CacheTagArraySize} {tags : SimpleCacheTagArray} {history : List Addr}
  {addr : Addr} {lineBits indexBits : ℕ}

theorem Follows.isSome_iff (h : Follows size tags history) (hsize : size.Regular lineBits indexBits)
    (ht : ¬ ReservedTag (size.tag addr)) :
    (tags.readNoTouch addr).isSome ↔ CacheRunner.Reused size history addr := by
  rw [readNoTouch, h.size_eq, Option.isSome_iff_exists, h.find_iff ht, heldIn, mem_take_recency,
    ← card_othersSince hsize]
  refine and_congr_left fun _ => ?_
  rw [List.mem_map]
  constructor
  · rintro ⟨x, hx, htag⟩
    obtain ⟨hx, hset⟩ := List.mem_filter.1 hx
    exact ⟨x, hx, hsize.set_tag_iff.1 ⟨of_decide_eq_true hset, htag⟩⟩
  · rintro ⟨x, hx, hline⟩
    obtain ⟨hset, htag⟩ := hsize.set_tag_iff.2 hline
    exact ⟨x, List.mem_filter.2 ⟨hx, by simpa using hset⟩, htag⟩

end Hits

end SimpleCacheTagArray

namespace CacheRunner

open SimpleCacheTagArray (ReservedTag)

section Runs

variable {size : CacheTagArraySize} {lineBits indexBits : ℕ} {runner : CacheRunner}
  {result : CacheRunnerResults} {history : List Addr} {addr : Addr}

theorem lookup_simple (tags : SimpleCacheTagArray) (addr : Addr) :
    (CacheTagArray.simple tags).lookup addr
      = ((tags.readNoTouch addr).isSome, .simple (tags.read addr).2) := by
  show (((tags.read addr).1.map _).isSome, _) = _
  rw [SimpleCacheTagArray.read_eq, Option.isSome_map]
  rfl

theorem accountAccess_hit {tags : SimpleCacheTagArray} {way : ℕ}
    (hcache : runner.cache = .simple tags) (hread : tags.readNoTouch addr = some way) :
    runner.accountAccess addr result = ({ runner with cache := .simple (tags.read addr).2 },
      { result with accesses := result.accesses + 1, hits := result.hits + 1 }) := by
  unfold accountAccess
  rw [hcache, lookup_simple, hread]
  rfl

theorem accountAccess_miss {tags : SimpleCacheTagArray} (hcache : runner.cache = .simple tags)
    (hread : tags.readNoTouch addr = none) :
    runner.accountAccess addr result
      = ({ cache := .simple (tags.write addr).2, history := runner.history.insert addr },
        { result with
          accesses := result.accesses + 1
          compulsoryMisses :=
            result.compulsoryMisses + if addr ∈ runner.history then 0 else 1 }) := by
  have hsame : (tags.read addr).2 = tags := by
    unfold SimpleCacheTagArray.read
    rw [hread]
  unfold accountAccess
  rw [hcache, lookup_simple, hread, hsame]
  dsimp only
  rw [if_neg (by simp), accountMiss]
  split_ifs with hmem
  · rw [List.insert_of_mem hmem]
    rfl
  · rw [List.insert_of_not_mem hmem]
    rfl

/-- What a run over a trace adds to the counters, after a history of accesses. -/
structure Counted (size : CacheTagArraySize) (history trace : List Addr)
    (s t : CacheRunner × CacheRunnerResults) : Prop where
  accesses : t.2.accesses = s.2.accesses + trace.length
  hits : t.2.hits + (missed size history trace).length = s.2.hits + trace.length
  nodup : s.1.history.Nodup → t.1.history.Nodup
  history_eq : t.1.history.toFinset = s.1.history.toFinset ∪ (missed size history trace).toFinset
  compulsoryMisses : t.2.compulsoryMisses + s.1.history.length
    = s.2.compulsoryMisses + t.1.history.length

variable {trace : List Addr} {s t u : CacheRunner × CacheRunnerResults}

theorem missed_cons (addr : Addr) (trace : List Addr) : missed size history (addr :: trace)
    = missed size history [addr] ++ missed size (addr :: history) trace := by
  rw [missed, missed, missed, List.append_nil]

theorem Counted.refl (s : CacheRunner × CacheRunnerResults) : Counted size history [] s s :=
  ⟨rfl, rfl, id, by simp [missed], rfl⟩

theorem Counted.trans (h : Counted size history [addr] s t)
    (h' : Counted size (addr :: history) trace t u) : Counted size history (addr :: trace) s u where
  accesses := by
    rw [h'.accesses, h.accesses, List.length_singleton, List.length_cons]
    omega
  hits := by
    have hfirst := h.hits
    have hrest := h'.hits
    rw [List.length_singleton] at hfirst
    rw [missed_cons, List.length_append, List.length_cons]
    omega
  nodup := h'.nodup ∘ h.nodup
  history_eq := by
    rw [missed_cons, List.toFinset_append, h'.history_eq, h.history_eq, Finset.union_assoc]
  compulsoryMisses := by
    have hfirst := h.compulsoryMisses
    have hrest := h'.compulsoryMisses
    omega

/-- An access is counted, and the cache follows it. -/
theorem counted_accountAccess (hsize : size.Regular lineBits indexBits)
    (s : CacheRunner × CacheRunnerResults) {tags : SimpleCacheTagArray}
    (hcache : s.1.cache = .simple tags) (hf : tags.Follows size history)
    (ht : ¬ ReservedTag (size.tag addr)) :
    Counted size history [addr] s (s.1.accountAccess addr s.2)
      ∧ ∃ tags', (s.1.accountAccess addr s.2).1.cache = .simple tags'
        ∧ tags'.Follows size (addr :: history) := by
  have hiff := hf.isSome_iff hsize ht
  rcases hread : tags.readNoTouch addr with _ | way
  · have hmiss : ¬ Reused size history addr := by
      rw [← hiff, hread]
      simp
    have hmissed : missed size history [addr] = [addr] := by
      rw [missed, if_neg hmiss]
      rfl
    rw [accountAccess_miss hcache hread]
    refine ⟨⟨rfl, ?_, List.Nodup.insert, ?_, ?_⟩, _, rfl, hf.write hsize.ways ht hread⟩
    · rw [hmissed]
    · rw [hmissed]
      ext x
      simp only [Finset.mem_union, List.mem_toFinset, List.mem_insert_iff, List.mem_singleton]
      exact or_comm
    · dsimp only
      by_cases hmem : addr ∈ s.1.history
      · rw [if_pos hmem, List.insert_of_mem hmem, Nat.add_zero]
      · rw [if_neg hmem, List.insert_of_not_mem hmem, List.length_cons]
        omega
  · have hhit : Reused size history addr := by
      rw [← hiff, hread]
      rfl
    have hmissed : missed size history [addr] = [] := by
      rw [missed, if_pos hhit]
      rfl
    rw [accountAccess_hit hcache hread]
    refine ⟨⟨rfl, ?_, id, ?_, rfl⟩, _, rfl, hf.read_hit ht hread⟩
    · rw [hmissed]
      rfl
    · rw [hmissed, List.toFinset_nil, Finset.union_empty]

theorem counted_foldl (hsize : size.Regular lineBits indexBits) : ∀ (trace : List Addr)
    {history : List Addr} (s : CacheRunner × CacheRunnerResults) {tags : SimpleCacheTagArray},
    s.1.cache = .simple tags → tags.Follows size history →
    (∀ a ∈ trace, ¬ ReservedTag (size.tag a)) →
    Counted size history trace s (trace.foldl (fun s addr => s.1.accountAccess addr s.2) s)
  | [], _, s, _, _, _, _ => .refl s
  | addr :: trace, _, s, _, hcache, hf, ht => by
    obtain ⟨hfirst, tags', hcache', hf'⟩ :=
      counted_accountAccess hsize s hcache hf (ht addr List.mem_cons_self)
    exact hfirst.trans (counted_foldl hsize trace _ hcache' hf'
      fun a ha => ht a (List.mem_cons_of_mem _ ha))

end Runs

section Results

variable {size : CacheTagArraySize} {tags : SimpleCacheTagArray} {cache : CacheTagArray}
  {trace : List Addr}

theorem create_lru (size : CacheTagArraySize) :
    CacheTagArray.create "LRU" size = (SimpleCacheTagArray.create size "LRU").map .simple := by
  unfold CacheTagArray.create
  rw [if_neg (by decide), if_neg (by decide)]

theorem exists_simple_of_create (h : CacheTagArray.create "LRU" size = .ok cache) :
    ∃ tags, SimpleCacheTagArray.create size "LRU" = .ok tags ∧ cache = .simple tags := by
  rw [create_lru] at h
  rcases htags : SimpleCacheTagArray.create size "LRU" with e | tags
  · rw [htags] at h
    cases h
  · rw [htags] at h
    cases h
    exact ⟨tags, rfl, rfl⟩

theorem run_counts (h : SimpleCacheTagArray.create size "LRU" = .ok tags)
    (ht : ∀ a ∈ trace, ¬ ReservedTag (size.tag a)) :
    (run { cache := .simple tags } trace).2.accesses = trace.length
      ∧ (run { cache := .simple tags } trace).2.hits + (missed size [] trace).length = trace.length
      ∧ (run { cache := .simple tags } trace).2.compulsoryMisses
        = (missed size [] trace).toFinset.card := by
  obtain ⟨-, hcheck, -⟩ := SimpleCacheTagArray.coherent_create h
  obtain ⟨lineBits, indexBits, hsize⟩ := CacheTagArraySize.regular_of_check hcheck
  have hcounted : Counted size [] trace ({ cache := .simple tags }, {})
      (run { cache := .simple tags } trace) := counted_foldl hsize trace _ rfl (.create h) ht
  refine ⟨by simpa using hcounted.accesses, by simpa using hcounted.hits, ?_⟩
  have hcard := List.toFinset_card_of_nodup (hcounted.nodup List.nodup_nil)
  have hzero : (run { cache := .simple tags } trace).2.compulsoryMisses
      = (run { cache := .simple tags } trace).1.history.length := by
    simpa using hcounted.compulsoryMisses
  rw [hzero, ← hcard, hcounted.history_eq]
  simp

/-- A run on an `LRU` cache, for every trace: the hits are the accesses whose line is used again
soon enough, and the compulsory misses are the addresses that miss, at least one for each line. -/
theorem lru_counts (h : CacheTagArray.create "LRU" size = .ok cache)
    (ht : ∀ a ∈ trace, ¬ ReservedTag (size.tag a)) :
    let result := (run { cache } trace).2
    result.accesses = trace.length
      ∧ result.getMisses = (missed size [] trace).length
      ∧ result.compulsoryMisses = (missed size [] trace).toFinset.card
      ∧ (trace.map size.line).toFinset.card ≤ result.compulsoryMisses := by
  obtain ⟨tags, htags, rfl⟩ := exists_simple_of_create h
  obtain ⟨haccesses, hhits, hcompulsory⟩ := run_counts htags ht
  refine ⟨haccesses, ?_, hcompulsory, hcompulsory ▸ card_lines_le trace⟩
  unfold CacheRunnerResults.getMisses
  omega

/-- With more ways in the same sets, no trace hits less often. -/
theorem hits_mono {size' : CacheTagArraySize} {cache' : CacheTagArray}
    (h : CacheTagArray.create "LRU" size = .ok cache)
    (h' : CacheTagArray.create "LRU" size' = .ok cache') (hsets : SameSets size size')
    (hways : size.ways ≤ size'.ways) (ht : ∀ a ∈ trace, ¬ ReservedTag (size.tag a)) :
    (run { cache } trace).2.hits ≤ (run { cache := cache' } trace).2.hits := by
  obtain ⟨tags, htags, rfl⟩ := exists_simple_of_create h
  obtain ⟨tags', htags', rfl⟩ := exists_simple_of_create h'
  obtain ⟨-, hhits, -⟩ := run_counts htags ht
  obtain ⟨-, hhits', -⟩ := run_counts htags' fun a ha => hsets.tag_eq a ▸ ht a ha
  have hle := length_missed_mono hsets hways [] trace
  omega

end Results

section Example

/-- A cache of lines of four bytes. -/
def smallSize (sizeInBytes ways : BitVec 32) : CacheTagArraySize := ⟨sizeInBytes, ways, 4#32, 32#32⟩

theorem exists_small : ∃ cache, CacheTagArray.create "LRU" (smallSize 16#32 2#32) = .ok cache := by
  rw [create_lru]
  exact ⟨_, rfl⟩

theorem not_reservedTag_small {size : CacheTagArraySize} {addr : Addr} (haddr : addr < 32#64) :
    ¬ ReservedTag (size.tag addr) := by
  intro hr
  have hle := size.toNat_tag_le addr
  rw [BitVec.lt_def] at haddr
  rcases hr with hr | hr <;> rw [hr] at hle <;> simp [impossibleKey] at hle haddr <;> omega

theorem lru_counts_small : ∃ cache, CacheTagArray.create "LRU" (smallSize 16#32 2#32) = .ok cache
    ∧ (run { cache } [0#64, 8#64, 3#64, 16#64, 8#64]).2.accesses = 5
    ∧ 3 ≤ (run { cache } [0#64, 8#64, 3#64, 16#64, 8#64]).2.compulsoryMisses := by
  obtain ⟨cache, h⟩ := exists_small
  have hlt : ∀ a ∈ [0#64, 8#64, 3#64, 16#64, 8#64], a < 32#64 := by simp
  have ht : ∀ a ∈ [0#64, 8#64, 3#64, 16#64, 8#64],
      ¬ ReservedTag ((smallSize 16#32 2#32).tag a) := fun a ha => not_reservedTag_small (hlt a ha)
  obtain ⟨haccesses, -, -, hlines⟩ := lru_counts h ht
  refine ⟨cache, h, haccesses, le_trans ?_ hlines⟩
  decide +kernel

/-- With one way two lines of a set push each other out. -/
theorem hits_mono_small : ∃ cache cache',
    CacheTagArray.create "LRU" (smallSize 8#32 1#32) = .ok cache
      ∧ CacheTagArray.create "LRU" (smallSize 16#32 2#32) = .ok cache'
      ∧ (run { cache } [0#64, 8#64, 0#64]).2.hits = 0
      ∧ (run { cache := cache' } [0#64, 8#64, 0#64]).2.hits = 1
      ∧ (run { cache } [0#64, 8#64, 0#64]).2.hits
        ≤ (run { cache := cache' } [0#64, 8#64, 0#64]).2.hits := by
  have hcreate : ∃ cache cache', CacheTagArray.create "LRU" (smallSize 8#32 1#32) = .ok cache
      ∧ CacheTagArray.create "LRU" (smallSize 16#32 2#32) = .ok cache'
      ∧ (run { cache } [0#64, 8#64, 0#64]).2.hits = 0
      ∧ (run { cache := cache' } [0#64, 8#64, 0#64]).2.hits = 1 := by
    rw [create_lru, create_lru]
    exact ⟨_, _, rfl, rfl, by decide +kernel, by decide +kernel⟩
  obtain ⟨cache, cache', h, h', hnone, hone⟩ := hcreate
  have hlt : ∀ a ∈ [0#64, 8#64, 0#64], a < 32#64 := by simp
  have ht : ∀ a ∈ [0#64, 8#64, 0#64], ¬ ReservedTag ((smallSize 8#32 1#32).tag a) :=
    fun a ha => not_reservedTag_small (hlt a ha)
  have hsets : SameSets (smallSize 8#32 1#32) (smallSize 16#32 2#32) := ⟨rfl, rfl, by decide⟩
  exact ⟨cache, cache', h, h', hnone, hone, hits_mono h h' hsets (by decide) ht⟩

end Example

end CacheRunner

end MiptMips
