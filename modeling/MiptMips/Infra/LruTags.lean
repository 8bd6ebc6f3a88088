import MiptMips.Infra.TagCoherence
import MiptMips.Lib.Recency

/-!
# The least recently used lines

What a cache with the policy `LRU` is for: each set holds the lines that were used last, as many as
it has ways. A line is used when a read hits it or when it is written. The order of the ways is the
order of the tags they hold (`Follows`), as long as a line is written only after a read of it
missed, so that no line is in two ways.
-/

namespace MiptMips

open Machines

namespace SimpleCacheTagArray

section Model

/-- The addresses whose lines were used, the last one first. -/
def uses : SimpleCacheTagArray → List TagAccess → List Addr
  | _, [] => []
  | tags, a :: accesses =>
    uses (machine.next tags a) accesses ++ if (machine.out tags a).isSome then [a.addr] else []

/-- A line is written only after a read of it missed, with no write of it in between. -/
def Disciplined (tags : SimpleCacheTagArray) (accesses : List TagAccess) : Prop :=
  ∀ before addr after, accesses = before ++ .write addr :: after → ∃ earlier x between,
    before = earlier ++ .read x :: between ∧ tags.size.line x = tags.size.line addr
      ∧ machine.out (machine.run tags earlier) (.read x) = none
      ∧ ∀ y, .write y ∈ between → tags.size.line y ≠ tags.size.line addr

/-- Valid tags, and then as many empty ones as there are ways. -/
def padded (ways : ℕ) (held : List Addr) : List Tag :=
  held.map (Tag.mk true) ++ List.replicate ways ({} : Tag)

/-- What the ways of a set have, in their order. -/
def contents (ways : ℕ) (held : List Addr) : List Tag := (padded ways held).take ways

/-- The tags of a set that were used. -/
def heldIn (size : CacheTagArraySize) (s : ℕ) (history : List Addr) : List Addr :=
  recency ((history.filter (size.set · = s)).map size.tag)

/-- The tags of each set after some uses. -/
structure Follows (size : CacheTagArraySize) (tags : SimpleCacheTagArray) (history : List Addr) :
    Prop where
  size_eq : tags.size = size
  coherent : tags.Coherent
  invalid : ∀ s way, size.ways.toNat ≤ way → (tags.tags s way).isValid = false
  order : ∀ s, ∃ lru, tags.replacementModule s = .lru lru ∧ lru.ways = size.ways.toNat
    ∧ lru.lruList.map (tags.tags s) = contents size.ways.toNat (heldIn size s history)

end Model

section Contents

variable {ways : ℕ} {held : List Addr} {tag : Addr}

theorem mk_notMem_empty : Tag.mk true tag ∉ List.replicate ways ({} : Tag) := by
  intro h
  cases List.eq_of_mem_replicate h

theorem length_padded : ways ≤ (padded ways held).length := by
  simp [padded]

theorem mk_mem_contents : Tag.mk true tag ∈ contents ways held ↔ tag ∈ held.take ways := by
  rw [contents, padded, List.take_append, List.mem_append, List.take_replicate, ← List.map_take]
  constructor
  · rintro (h | h)
    · obtain ⟨x, hx, hxt⟩ := List.mem_map.1 h
      exact (Tag.mk.inj hxt).2 ▸ hx
    · exact absurd h mk_notMem_empty
  · intro h
    exact .inl (List.mem_map_of_mem h)

theorem padded_moveToFront :
    padded ways (moveToFront tag held) = moveToFront (Tag.mk true tag) (padded ways held) := by
  have hmap : (moveToFront tag held).map (Tag.mk true)
      = moveToFront (Tag.mk true tag) (held.map (Tag.mk true)) :=
    moveToFront_map fun x _ hx => (Tag.mk.inj hx).2
  unfold padded
  rw [hmap, moveToFront, moveToFront, List.cons_append]
  congr 1
  by_cases h : Tag.mk true tag ∈ held.map (Tag.mk true)
  · rw [List.erase_append_left _ h]
  · rw [List.erase_append_right _ h, List.erase_of_not_mem h, List.erase_of_not_mem mk_notMem_empty]

/-- The use of a tag that is there. -/
theorem contents_hit (h : tag ∈ held.take ways) :
    contents ways (moveToFront tag held)
      = moveToFront (Tag.mk true tag) (contents ways held) := by
  unfold contents
  rw [padded_moveToFront]
  exact take_moveToFront_of_mem (mk_mem_contents.2 h)

/-- The use of a tag that is not there. -/
theorem contents_miss (h : tag ∉ held.take ways) (hways : 0 < ways) :
    contents ways (moveToFront tag held) = Tag.mk true tag :: (contents ways held).dropLast := by
  unfold contents
  rw [padded_moveToFront]
  exact take_moveToFront_of_notMem (fun hmem => h (mk_mem_contents.1 hmem)) hways length_padded

end Contents

namespace Follows

variable {size : CacheTagArraySize} {tags : SimpleCacheTagArray} {history : List Addr}
  {addr : Addr} {s way : ℕ} {tag : Addr}

theorem heldIn_cons (addr : Addr) (s : ℕ) :
    heldIn size s (addr :: history)
      = if s = size.set addr then moveToFront (size.tag addr) (heldIn size s history)
        else heldIn size s history := by
  unfold heldIn
  by_cases hs : size.set addr = s
  · simp [hs, recency]
  · simp [hs, Ne.symm hs]

theorem create (h : SimpleCacheTagArray.create size "LRU" = .ok tags) :
    Follows size tags [] := by
  have hcoherent := (coherent_create h).2.2
  rcases create_cases h with ⟨-, replacement, hr, rfl⟩
  cases hr
  refine ⟨rfl, hcoherent, fun s way _ => rfl, fun s => ⟨_, rfl, rfl, ?_⟩⟩
  have hlen : (LRU.create size.ways.toNat).lruList.length = size.ways.toNat := by
    simp [LRU.create]
  rw [List.map_const', hlen]
  simp [contents, padded, heldIn, recency]

variable (h : Follows size tags history)
include h

/-- A tag that is not reserved is found when it is among the last ones used. -/
theorem find_iff (ht : ¬ ReservedTag tag) (s : ℕ) :
    (∃ way, (tags.lookupHelper s).find tag = some way)
      ↔ tag ∈ (heldIn size s history).take size.ways.toNat := by
  obtain ⟨lru, -, hways, horder⟩ := h.order s
  rw [← mk_mem_contents, ← horder, List.mem_map]
  constructor
  · rintro ⟨way, hf⟩
    have htag := (h.coherent.find_iff s tag way ht).1 hf
    refine ⟨way, ?_, htag⟩
    rw [lru.mem_lruList, hways]
    by_contra hle
    have hinvalid := h.invalid s way (Nat.le_of_not_lt hle)
    rw [htag] at hinvalid
    cases hinvalid
  · rintro ⟨way, -, htag⟩
    exact ⟨way, (h.coherent.find_iff s tag way ht).2 htag⟩

/-- A read that hits uses the line. -/
theorem read_hit (ht : ¬ ReservedTag (size.tag addr)) (hf : tags.readNoTouch addr = some way) :
    Follows size (tags.read addr).2 (addr :: history) := by
  have hheld := (h.find_iff ht (size.set addr)).1 ⟨way, by rw [← h.size_eq]; exact hf⟩
  have hentry : tags.tags (size.set addr) way = ⟨true, size.tag addr⟩ := by
    refine (h.coherent.find_iff _ _ _ ht).1 ?_
    rw [← h.size_eq]
    exact hf
  refine ⟨(size_read addr).trans h.size_eq, h.coherent.read addr, fun s w hw => ?_, fun s => ?_⟩
  · rw [tags_read]
    exact h.invalid s w hw
  · obtain ⟨lru, hlru, hways, horder⟩ := h.order s
    have hnext : (tags.read addr).2.replacementModule s
        = if s = size.set addr then .lru (lru.touch way) else .lru lru := by
      unfold SimpleCacheTagArray.read
      rw [hf, h.size_eq]
      dsimp only
      rw [hlru]
      rfl
    rw [tags_read, heldIn_cons, hnext]
    split_ifs with hs
    · subst hs
      have hlt : way < lru.ways := by
        by_contra hle
        have hinvalid := h.invalid (size.set addr) way (hways ▸ Nat.le_of_not_lt hle)
        rw [hentry] at hinvalid
        cases hinvalid
      refine ⟨_, rfl, (lru.ways_touch way).trans hways, ?_⟩
      rw [LRU.lruList_touch hlt, contents_hit hheld, ← horder, ← hentry]
      refine moveToFront_map fun x _ hx => ?_
      exact h.coherent.way_unique ht (hx.trans hentry) hentry
    · exact ⟨lru, rfl, hways, horder⟩

/-- A write uses a line that was not there; the least recently used one goes. -/
theorem write (hpos : 0 < size.ways.toNat) (ht : ¬ ReservedTag (size.tag addr))
    (hmiss : tags.readNoTouch addr = none) :
    Follows size (tags.write addr).2 (addr :: history) := by
  have hheld : size.tag addr ∉ (heldIn size (size.set addr) history).take size.ways.toNat := by
    rw [← h.find_iff ht]
    rintro ⟨way, hf⟩
    rw [← h.size_eq] at hf
    exact Option.some_ne_none _ (hf.symm.trans hmiss)
  obtain ⟨lru, hlru, hways, horder⟩ := h.order (size.set addr)
  have hpos' : 0 < lru.ways := hways ▸ hpos
  have hvictim : (tags.write addr).1 = lru.victim := by
    rw [way_write, h.size_eq, hlru]
    rfl
  have htags : ∀ s w, (tags.write addr).2.tags s w
      = if s = size.set addr ∧ w = lru.victim then ⟨true, size.tag addr⟩ else tags.tags s w := by
    intro s w
    rw [tags_write, hvictim, h.size_eq]
  have hcoherent := h.coherent.write hmiss (by rw [h.size_eq]; exact ht)
  refine ⟨h.size_eq, hcoherent, fun s w hw => ?_, fun s => ?_⟩
  · have hne : w ≠ lru.victim := by
      have hlt := lru.victim_lt hpos'
      omega
    rw [htags, if_neg (fun hsw => hne hsw.2)]
    exact h.invalid s w hw
  · rw [heldIn_cons, replacementModule_write, h.size_eq]
    split_ifs with hs
    · subst hs
      refine ⟨lru.update.2, by rw [hlru]; rfl, lru.ways_update.trans hways, ?_⟩
      have hnodup : lru.update.2.lruList.Nodup := lru.update.2.perm.nodup_iff.2 List.nodup_range
      rw [LRU.lruList_update hpos'] at hnodup ⊢
      rw [contents_miss hheld hpos, ← horder, List.map_cons, htags, if_pos ⟨rfl, rfl⟩,
        ← List.map_dropLast]
      congr 1
      refine List.map_congr_left fun w hw => ?_
      have hne : w ≠ lru.victim := fun he => (List.nodup_cons.1 hnodup).1 (he ▸ hw)
      rw [htags, if_neg (fun hsw => hne hsw.2)]
    · obtain ⟨lru', hlru', hways', horder'⟩ := h.order s
      refine ⟨lru', hlru', hways', ?_⟩
      rw [← horder']
      refine List.map_congr_left fun w _ => ?_
      rw [htags, if_neg (fun hsw => hs hsw.1)]

end Follows

section Runs

variable {size : CacheTagArraySize} {tags : SimpleCacheTagArray} {accesses : List TagAccess}
  {addr : Addr} {lineBits indexBits : ℕ}

theorem uses_append (a : TagAccess) : ∀ (accesses : List TagAccess) (tags : SimpleCacheTagArray),
    uses tags (accesses ++ [a])
      = (if (machine.out (machine.run tags accesses) a).isSome then [a.addr] else [])
        ++ uses tags accesses
  | [], tags => by
    rw [List.nil_append, uses, uses, uses, Machine.run_nil, List.append_nil, List.nil_append]
  | b :: accesses, tags => by
    rw [List.cons_append, uses, uses_append a accesses, uses, Machine.run_cons, List.append_assoc]

theorem mem_uses_of_write (h : .write addr ∈ accesses) : ∀ tags, addr ∈ uses tags accesses := by
  induction accesses with
  | nil => simp at h
  | cons a accesses ih =>
    intro tags
    rw [uses, List.mem_append]
    rcases List.mem_cons.1 h with rfl | h
    · right
      simp [Machine.out, machine, TagAccess.addr]
    · exact .inl (ih h _)

/-- A line that misses goes on to, until it is written. -/
theorem misses_run (hsize : tags.size.Regular lineBits indexBits)
    (hmiss : tags.readNoTouch addr = none)
    (hother : ∀ y, .write y ∈ accesses → tags.size.line y ≠ tags.size.line addr) :
    (machine.run tags accesses).readNoTouch addr = none := by
  induction accesses generalizing tags with
  | nil => exact hmiss
  | cons a accesses ih =>
    rw [Machine.run_cons]
    refine ih ((size_next a).symm ▸ hsize) (misses_next hmiss fun x hx => ?_) fun y hy => ?_
    · rw [hsize.set_tag_iff]
      exact hother x (hx ▸ List.mem_cons_self)
    · rw [size_next]
      exact hother y (List.mem_cons_of_mem a hy)

theorem Disciplined.left {a : TagAccess} (h : Disciplined tags (accesses ++ [a])) :
    Disciplined tags accesses := by
  intro before addr after he
  refine h before addr (after ++ [a]) ?_
  rw [he, List.append_assoc, List.cons_append]

/-- A line that is to be written is not there. -/
theorem Disciplined.misses (h : Disciplined tags (accesses ++ [.write addr]))
    (hsize : tags.size.Regular lineBits indexBits) :
    (machine.run tags accesses).readNoTouch addr = none := by
  obtain ⟨earlier, x, between, rfl, hline, hmiss, hother⟩ := h accesses addr [] rfl
  rw [Machine.run_append, Machine.run_cons]
  have hnext : machine.next (machine.run tags earlier) (.read x)
      = ((machine.run tags earlier).read x).2 := rfl
  have hsize' : (machine.next (machine.run tags earlier) (.read x)).size = tags.size := by
    rw [size_next, size_run]
  have hx : ((machine.run tags earlier).read x).1 = none := hmiss
  have haddr : (machine.run tags earlier).readNoTouch addr = none := by
    rw [read_eq] at hx
    obtain ⟨hset, htag⟩ := hsize.set_tag_iff.2 hline
    unfold readNoTouch at hx ⊢
    rw [size_run] at hx ⊢
    rw [← hset, ← htag, hx]
  refine misses_run (hsize'.symm ▸ hsize) ?_ fun y hy => ?_
  · refine misses_next haddr fun y hy => ?_
    cases hy
  · rw [hsize']
    exact hother y hy

/-- The tags after a run, and a write for each line that was used. -/
theorem follows_run (h : SimpleCacheTagArray.create size "LRU" = .ok tags)
    (hsize : size.Regular lineBits indexBits) (hd : Disciplined tags accesses)
    (hr : ∀ a ∈ accesses, ¬ ReservedTag (size.tag a.addr)) :
    Follows size (machine.run tags accesses) (uses tags accesses)
      ∧ ∀ x ∈ uses tags accesses, ∃ y, .write y ∈ accesses ∧ size.line y = size.line x := by
  have hstart := (coherent_create h).1
  induction accesses using List.reverseRecOn with
  | nil => exact ⟨.create h, by simp [uses]⟩
  | append_singleton accesses a ih =>
    obtain ⟨hf, hw⟩ := ih hd.left fun b hb => hr b (List.mem_append_left _ hb)
    have ha : ¬ ReservedTag (size.tag a.addr) := hr a (by simp)
    have hold : ∀ x ∈ uses tags accesses,
        ∃ y, .write y ∈ accesses ++ [a] ∧ size.line y = size.line x := by
      intro x hx
      obtain ⟨y, hy, hline⟩ := hw x hx
      exact ⟨y, List.mem_append_left _ hy, hline⟩
    rw [Machine.run_append, uses_append]
    cases a with
    | read addr =>
      have hout : machine.out (machine.run tags accesses) (.read addr)
          = (machine.run tags accesses).readNoTouch addr := read_eq addr
      rw [hout]
      rcases hway : (machine.run tags accesses).readNoTouch addr with _ | way
      · have hsame : machine.run (machine.run tags accesses) [.read addr]
            = machine.run tags accesses := by
          show ((machine.run tags accesses).read addr).2 = _
          unfold SimpleCacheTagArray.read
          rw [hway]
        rw [hsame]
        exact ⟨hf, hold⟩
      · refine ⟨hf.read_hit ha hway, fun x hx => ?_⟩
        rcases List.mem_cons.1 hx with rfl | hx
        · -- the line that a read hits was used before
          have hheld := (hf.find_iff ha (size.set x)).1 ⟨way, by rw [← hf.size_eq]; exact hway⟩
          rw [TagAccess.addr, heldIn, mem_take_recency, List.mem_map] at hheld
          obtain ⟨⟨z, hz, htag⟩, -⟩ := hheld
          obtain ⟨hz, hset⟩ := List.mem_filter.1 hz
          obtain ⟨y, hy, hline⟩ := hold z hz
          exact ⟨y, hy, hline.trans (hsize.set_tag_iff.1 ⟨of_decide_eq_true hset, htag⟩)⟩
        · exact hold x hx
    | write addr =>
      have hmiss := hd.misses (hstart ▸ hsize)
      refine ⟨hf.write hsize.ways ha hmiss, fun x hx => ?_⟩
      rcases List.mem_cons.1 hx with rfl | hx
      · exact ⟨x, by simp, rfl⟩
      · exact hold x hx

end Runs

section Reference

variable {size : CacheTagArraySize} {tags : SimpleCacheTagArray} {accesses : List TagAccess}
  {addr : Addr} {lineBits indexBits : ℕ}

variable (size) in
/-- The other lines of the set of an address that were used since the last use of its own. -/
def othersSince (history : List Addr) (addr : Addr) : Finset ℕ :=
  (((history.takeWhile (size.line · ≠ size.line addr)).filter
    (size.set · = size.set addr)).map size.line).toFinset

/-- In a set the lines are told apart by their tags. -/
theorem card_othersSince (hsize : size.Regular lineBits indexBits) (history : List Addr) :
    (othersSince size history addr).card
      = ((((history.filter (size.set · = size.set addr)).map size.tag).takeWhile
        (· ≠ size.tag addr)).toFinset).card := by
  have hwhile : (history.filter (size.set · = size.set addr)).takeWhile
        (size.tag · ≠ size.tag addr)
      = (history.takeWhile (size.line · ≠ size.line addr)).filter
        (size.set · = size.set addr) := by
    rw [List.takeWhile_filter]
    congr 2
    funext x
    have hx : _ ↔ size.line x = size.line addr := hsize.set_tag_iff
    by_cases hset : size.set x = size.set addr <;> simp [← hx, hset]
  rw [List.takeWhile_map, othersSince]
  show _ = (((history.filter (size.set · = size.set addr)).takeWhile
    (size.tag · ≠ size.tag addr)).map size.tag).toFinset.card
  rw [hwhile]
  generalize hl : (history.takeWhile (size.line · ≠ size.line addr)).filter
    (size.set · = size.set addr) = l
  have hset : ∀ x ∈ l, size.line x % 2 ^ indexBits = size.set addr := by
    intro x hx
    rw [← hl, List.mem_filter] at hx
    rw [← hsize.set_eq]
    exact of_decide_eq_true hx.2
  have htag : l.map size.tag
      = (l.map size.line).map fun n => BitVec.ofNat 64 (n / 2 ^ indexBits) := by
    rw [List.map_map]
    refine List.map_congr_left fun x _ => ?_
    rw [Function.comp_apply, ← hsize.toNat_tag, BitVec.ofNat_toNat, BitVec.setWidth_eq]
  have himage : ((l.map size.line).map fun n => BitVec.ofNat 64 (n / 2 ^ indexBits)).toFinset
      = (l.map size.line).toFinset.image fun n => BitVec.ofNat 64 (n / 2 ^ indexBits) := by
    ext x
    simp only [List.mem_toFinset, Finset.mem_image, List.mem_map]
  rw [htag, himage, Finset.card_image_of_injOn]
  intro m hm n hn hmn
  simp only [List.coe_toFinset, List.mem_map, Set.mem_ofPred_eq] at hm hn
  obtain ⟨x, hx, rfl⟩ := hm
  obtain ⟨y, hy, rfl⟩ := hn
  refine hsize.set_tag_iff.1 ⟨?_, BitVec.eq_of_toNat_eq ?_⟩
  · rw [hsize.set_eq, hsize.set_eq, hset x hx, hset y hy]
  · have hmn' := congrArg BitVec.toNat hmn
    dsimp only at hmn'
    rw [← hsize.toNat_tag, ← hsize.toNat_tag] at hmn'
    simpa using hmn'

/-- A read hits when its line was written and fewer other lines of its set than there are ways
were used since its last use; and lines are what sets and tags tell apart. -/
theorem lru_reference (h : SimpleCacheTagArray.create size "LRU" = .ok tags) :
    (∀ accesses addr, Disciplined tags accesses →
      (∀ a ∈ accesses, ¬ ReservedTag (size.tag a.addr)) → ¬ ReservedTag (size.tag addr) →
      (((machine.run tags accesses).read addr).1.isSome
        ↔ (∃ x, .write x ∈ accesses ∧ size.line x = size.line addr)
          ∧ (othersSince size (uses tags accesses) addr).card < size.ways.toNat))
    ∧ ∀ a b, size.set a = size.set b ∧ size.tag a = size.tag b ↔ size.line a = size.line b := by
  obtain ⟨hstart, hcheck, -⟩ := coherent_create h
  obtain ⟨lineBits, indexBits, hsize⟩ := CacheTagArraySize.regular_of_check hcheck
  refine ⟨fun accesses addr hd hr haddr => ?_, fun a b => hsize.set_tag_iff⟩
  obtain ⟨hf, hw⟩ := follows_run h hsize hd hr
  rw [read_eq, readNoTouch, hf.size_eq, Option.isSome_iff_exists, hf.find_iff haddr, heldIn,
    mem_take_recency, card_othersSince hsize]
  refine and_congr_left fun _ => ?_
  constructor
  · intro hmem
    obtain ⟨z, hz, htag⟩ := List.mem_map.1 hmem
    obtain ⟨hz, hset⟩ := List.mem_filter.1 hz
    obtain ⟨y, hy, hline⟩ := hw z hz
    exact ⟨y, hy, hline.trans (hsize.set_tag_iff.1 ⟨of_decide_eq_true hset, htag⟩)⟩
  · rintro ⟨x, hx, hline⟩
    obtain ⟨hset, htag⟩ := hsize.set_tag_iff.2 hline
    refine List.mem_map.2 ⟨x, List.mem_filter.2 ⟨mem_uses_of_write hx tags, ?_⟩, htag⟩
    simpa using hset

/-- A line that a read misses is written. -/
theorem Disciplined.fill (h : Disciplined tags accesses)
    (hmiss : machine.out (machine.run tags accesses) (.read addr) = none) :
    Disciplined tags (accesses ++ [.read addr] ++ [.write addr]) := by
  intro before x after he
  rcases List.eq_nil_or_concat' after with rfl | ⟨after, last, rfl⟩
  · obtain ⟨rfl, hlast⟩ := List.append_inj' he rfl
    cases hlast
    exact ⟨accesses, addr, [], rfl, rfl, hmiss, by simp⟩
  · rw [← List.cons_append, ← List.append_assoc] at he
    obtain ⟨he, -⟩ := List.append_inj' he rfl
    rcases List.eq_nil_or_concat' after with rfl | ⟨after, last, rfl⟩
    · obtain ⟨-, hread⟩ := List.append_inj' he rfl
      cases hread
    · rw [← List.cons_append, ← List.append_assoc] at he
      exact h before x after (List.append_inj' he rfl).1

/-- Three lines that go into one set of two ways. -/
def fills : List TagAccess :=
  [.read 0#64] ++ [.write 0#64] ++ [.read 4#64] ++ [.write 4#64] ++ [.read 8#64] ++ [.write 8#64]

/-- The line at zero is pushed out by the last one, the line at four is kept. -/
theorem lru_reference_two : ∃ tags,
    SimpleCacheTagArray.create ⟨8#32, 2#32, 4#32, 32#32⟩ "LRU" = .ok tags
    ∧ uses tags fills = [8#64, 4#64, 0#64]
    ∧ ((machine.run tags fills).read 0#64).1 = none ∧ ((machine.run tags fills).read 4#64).1.isSome
    ∧ ∀ addr ∈ [0#64, 4#64], ((machine.run tags fills).read addr).1.isSome
      ↔ (∃ x, .write x ∈ fills ∧ (⟨8#32, 2#32, 4#32, 32#32⟩ : CacheTagArraySize).line x
          = (⟨8#32, 2#32, 4#32, 32#32⟩ : CacheTagArraySize).line addr)
        ∧ (othersSince ⟨8#32, 2#32, 4#32, 32#32⟩ (uses tags fills) addr).card < 2 := by
  obtain ⟨tags, h, huses, hevicted, hkept, h₄, h₈⟩ : ∃ tags,
      SimpleCacheTagArray.create ⟨8#32, 2#32, 4#32, 32#32⟩ "LRU" = .ok tags
      ∧ uses tags fills = [8#64, 4#64, 0#64]
      ∧ ((machine.run tags fills).read 0#64).1 = none
      ∧ ((machine.run tags fills).read 4#64).1.isSome
      ∧ machine.out (machine.run tags ([.read 0#64] ++ [.write 0#64])) (.read 4#64) = none
      ∧ machine.out (machine.run tags ([.read 0#64] ++ [.write 0#64] ++ [.read 4#64]
        ++ [.write 4#64])) (.read 8#64) = none :=
    ⟨_, rfl, by decide +kernel, by decide +kernel, by decide +kernel, by decide +kernel,
      by decide +kernel⟩
  have hnil : Disciplined tags [] := fun before addr after he => by simp at he
  have hd : Disciplined tags fills :=
    ((hnil.fill ((read_eq _).trans (misses_create h _))).fill h₄).fill h₈
  have htag : ∀ addr, addr < 12#64 →
      ¬ ReservedTag ((⟨8#32, 2#32, 4#32, 32#32⟩ : CacheTagArraySize).tag addr) := by
    intro addr haddr hr
    have hle := CacheTagArraySize.toNat_tag_le ⟨8#32, 2#32, 4#32, 32#32⟩ addr
    rw [BitVec.lt_def] at haddr
    rcases hr with hr | hr <;> rw [hr] at hle <;> simp [impossibleKey] at hle haddr <;> omega
  refine ⟨tags, h, huses, hevicted, hkept, fun addr haddr => (lru_reference h).1 _ _ hd ?_ ?_⟩
  · simp [fills, TagAccess.addr, htag]
  · rcases List.mem_cons.1 haddr with rfl | haddr
    · exact htag _ (by decide)
    · obtain rfl := List.mem_singleton.1 haddr
      exact htag _ (by decide)

end Reference

end SimpleCacheTagArray

end MiptMips
