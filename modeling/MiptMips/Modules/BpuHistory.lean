import MiptMips.Infra.TagCoherence
import MiptMips.Modules.Bpu

/-!
# What a predictor remembers

An entry of the branch target buffer is the automaton of its mode after the directions of the
updates of one key, from the last of them that missed, which reset it. The updates of other keys
leave it alone: the tags are coherent, so two keys do not share a way of a set.
-/

namespace MiptMips

open Machines

/-- Reset makes every entry the same. -/
class LawfulBPEntry (E : Type) [BPEntry E] : Prop where
  reset_eq (e : E) : BPEntry.reset e = BPEntry.reset (BPEntry.default : E)

instance (direction : Bool) : LawfulBPEntry (BPEntryAlways direction) := ⟨fun _ => rfl⟩

instance : LawfulBPEntry BPEntryBackwardJumps := ⟨fun _ => rfl⟩

instance : LawfulBPEntry BPEntryOneBit := ⟨fun _ => rfl⟩

instance : LawfulBPEntry BPEntryTwoBit := ⟨fun _ => rfl⟩

instance (depth : ℕ) : LawfulBPEntry (BPEntryAdaptive depth) := ⟨fun _ => rfl⟩

instance (mode : BPMode) : LawfulBPEntry mode.Entry := by
  cases mode
  · exact inferInstanceAs (LawfulBPEntry (BPEntryAlways true))
  · exact inferInstanceAs (LawfulBPEntry (BPEntryAlways false))
  · exact inferInstanceAs (LawfulBPEntry BPEntryBackwardJumps)
  · exact inferInstanceAs (LawfulBPEntry BPEntryOneBit)
  · exact inferInstanceAs (LawfulBPEntry BPEntryTwoBit)
  · exact inferInstanceAs (LawfulBPEntry (BPEntryAdaptive 2))

namespace BP

variable {E : Type} [BPEntry E]

section Model

/-- What tells the entries of two addresses apart. -/
def key (PC : Addr) : BitVec 32 := PC.setWidth 32 >>> 2

variable (E) in
/-- The automaton of a mode, after some directions from its reset state. -/
def automaton (directions : List Bool) : E :=
  directions.foldl BPEntry.update (BPEntry.reset BPEntry.default)

/-- The updates with the key of an address, from the last one of them that missed. -/
def sinceAllocation (PC : Addr) : BP E → List BPInterface → List BPInterface → List BPInterface
  | _, since, [] => since
  | bp, since, u :: updates =>
    sinceAllocation PC (bp.update u)
      (if key u.pc = key PC then if bp.isHit u.pc then since ++ [u] else [u] else since) updates

/-- The entry of each address that hits is what `since` says. -/
structure Remembers (size : CacheTagArraySize) (bp : BP E) (since : Addr → List BPInterface) :
    Prop where
  tags : ∃ tags, bp.tags = .simple tags ∧ tags.size = size ∧ tags.Coherent
  entry : ∀ {PC way}, bp.tags.readNoTouch PC = some way → ∃ last,
    (since PC).getLast? = some last
      ∧ bp.directions way (bp.tags.set PC) = automaton E ((since PC).map (·.isTaken))
      ∧ bp.targets way (bp.tags.set PC) = last.target

end Model

section Key

variable {size : CacheTagArraySize} {lineBits indexBits : ℕ}

theorem line_eq (hline : size.lineSize = 4#32) (haddr : size.addrSizeInBits = 32#32) (PC : Addr) :
    size.line PC = PC.toNat % 2 ^ 32 / 4 := by
  rw [CacheTagArraySize.line, hline, haddr]
  rfl

theorem key_eq_iff {a b : Addr} (hline : size.lineSize = 4#32)
    (haddr : size.addrSizeInBits = 32#32) : key a = key b ↔ size.line a = size.line b := by
  have hkey : ∀ x, (key x).toNat = size.line x := by
    intro x
    rw [key, BitVec.toNat_ushiftRight, BitVec.toNat_setWidth, Nat.shiftRight_eq_div_pow,
      line_eq hline haddr]
  rw [← hkey, ← hkey]
  exact ⟨fun h => by rw [h], BitVec.eq_of_toNat_eq⟩

/-- The tags of a predictor are too small for the keys that the maps reserve. -/
theorem not_reservedTag (h : size.Regular lineBits indexBits) (hline : size.lineSize = 4#32)
    (haddr : size.addrSizeInBits = 32#32) (PC : Addr) :
    ¬ SimpleCacheTagArray.ReservedTag (size.tag PC) := by
  have htag := h.toNat_tag PC
  have hle := Nat.div_le_self (size.line PC) (2 ^ indexBits)
  have hlt := Nat.mod_lt PC.toNat (Nat.two_pow_pos 32)
  have hline' := line_eq hline haddr PC
  rintro (hr | hr) <;> rw [hr] at htag <;> simp [impossibleKey] at htag <;> omega

end Key

section Update

variable {size : CacheTagArraySize} {lineBits indexBits : ℕ} {bp : BP E}
  {since : Addr → List BPInterface} {tags : SimpleCacheTagArray} {u : BPInterface} {way : ℕ}

/-- An update that hits moves its entry on. -/
theorem update_hit (htags : bp.tags = .simple tags) (hway : tags.readNoTouch u.pc = some way) :
    bp.update u =
      { directions := fun w s => if w = way ∧ s = tags.size.set u.pc
          then BPEntry.update (bp.directions way (tags.size.set u.pc)) u.isTaken
          else bp.directions w s
        targets := fun w s => if w = way ∧ s = tags.size.set u.pc then u.target
          else bp.targets w s
        tags := .simple (tags.read u.pc).2 } := by
  unfold update
  rw [htags]
  simp only [CacheTagArray.read, SimpleCacheTagArray.read_eq, hway, Option.map_some,
    CacheTagArray.set]

/-- An update that misses resets the entry of the way it gets. -/
theorem update_miss (htags : bp.tags = .simple tags) (hmiss : tags.readNoTouch u.pc = none) :
    bp.update u =
      { directions := fun w s => if w = (tags.write u.pc).1 ∧ s = tags.size.set u.pc
          then BPEntry.update
            (BPEntry.reset (bp.directions (tags.write u.pc).1 (tags.size.set u.pc))) u.isTaken
          else bp.directions w s
        targets := fun w s => if w = (tags.write u.pc).1 ∧ s = tags.size.set u.pc then u.target
          else bp.targets w s
        tags := .simple (tags.write u.pc).2 } := by
  have hread : (tags.read u.pc).2 = tags := by
    unfold SimpleCacheTagArray.read
    rw [hmiss]
  unfold update
  rw [htags]
  simp only [CacheTagArray.read, SimpleCacheTagArray.read_eq, hmiss, Option.map_none,
    CacheTagArray.set, CacheTagArray.write, hread]

/-- Two addresses have one key when they have one tag in one set. -/
theorem key_eq_iff_set_tag (hsize : size.Regular lineBits indexBits) (hline : size.lineSize = 4#32)
    (haddr : size.addrSizeInBits = 32#32) (PC PC' : Addr) :
    key PC = key PC' ↔ size.set PC = size.set PC' ∧ size.tag PC = size.tag PC' := by
  rw [hsize.set_tag_iff, key_eq_iff hline haddr]

/-- What is remembered of the entry of a way, as a fact about the tags. -/
theorem Remembers.exists_last (h : bp.Remembers size since) (htags : bp.tags = .simple tags)
    {PC : Addr} (hway : tags.readNoTouch PC = some way) : ∃ last, (since PC).getLast? = some last
      ∧ bp.directions way (tags.size.set PC) = automaton E ((since PC).map (·.isTaken))
      ∧ bp.targets way (tags.size.set PC) = last.target := by
  have hread : bp.tags.readNoTouch PC = some (way : ℤ) := by
    rw [htags]
    show Option.map _ (tags.readNoTouch PC) = _
    rw [hway]
    rfl
  obtain ⟨last, hlast, hdirection, htarget⟩ := h.entry hread
  rw [htags] at hdirection htarget
  exact ⟨last, hlast, hdirection, htarget⟩

/-- After a miss, the entry starts with the update. -/
theorem Remembers.update_of_miss [LawfulBPEntry E] (h : bp.Remembers tags.size since)
    (hcoherent : tags.Coherent) (hsize : tags.size.Regular lineBits indexBits)
    (hline : tags.size.lineSize = 4#32) (haddr : tags.size.addrSizeInBits = 32#32)
    (htags : bp.tags = .simple tags) (hway : tags.readNoTouch u.pc = none) :
    (bp.update u).Remembers tags.size fun PC => if key u.pc = key PC then [u] else since PC := by
  have hreserved := not_reservedTag hsize hline haddr
  have hkey := key_eq_iff_set_tag hsize hline haddr u.pc
  rw [update_miss htags hway]
  refine ⟨⟨_, rfl, rfl, hcoherent.write hway (hreserved _)⟩, fun {PC w} hw => ?_⟩
  obtain ⟨n, hn, rfl⟩ := Option.map_eq_some_iff.1 hw
  have hfind : if tags.size.set PC = tags.size.set u.pc ∧ n = (tags.write u.pc).1
      then tags.size.tag PC = tags.size.tag u.pc else tags.readNoTouch PC = some n :=
    (hcoherent.find_write hway (hreserved _) (hreserved PC)).1 hn
  simp only [CacheTagArray.set, SimpleCacheTagArray.size_write, Nat.cast_inj]
  by_cases hk : key u.pc = key PC
  · obtain ⟨hset, htag⟩ := (hkey PC).1 hk
    have hn' : n = (tags.write u.pc).1 := by
      by_contra hne
      rw [if_neg fun hc => hne hc.2, SimpleCacheTagArray.readNoTouch, ← hset, ← htag] at hfind
      exact Option.some_ne_none _ (hfind.symm.trans hway)
    rw [if_pos hk, if_pos ⟨hn', hset.symm⟩, if_pos ⟨hn', hset.symm⟩, LawfulBPEntry.reset_eq]
    exact ⟨u, rfl, rfl, rfl⟩
  · have hslot : ¬ (n = (tags.write u.pc).1 ∧ tags.size.set PC = tags.size.set u.pc) := by
      rintro ⟨hn', hset⟩
      rw [if_pos ⟨hset, hn'⟩] at hfind
      exact hk ((hkey PC).2 ⟨hset.symm, hfind.symm⟩)
    rw [if_neg fun hc => hslot hc.symm] at hfind
    rw [if_neg hk, if_neg hslot, if_neg hslot]
    exact h.exists_last htags hfind

/-- After a hit, the entry has one update more. -/
theorem Remembers.update_of_hit (h : bp.Remembers tags.size since) (hcoherent : tags.Coherent)
    (hsize : tags.size.Regular lineBits indexBits) (hline : tags.size.lineSize = 4#32)
    (haddr : tags.size.addrSizeInBits = 32#32) (htags : bp.tags = .simple tags)
    (hway : tags.readNoTouch u.pc = some way) :
    (bp.update u).Remembers tags.size fun PC =>
      if key u.pc = key PC then since PC ++ [u] else since PC := by
  have hreserved := not_reservedTag hsize hline haddr
  have hkey := key_eq_iff_set_tag hsize hline haddr u.pc
  rw [update_hit htags hway]
  refine ⟨⟨_, rfl, SimpleCacheTagArray.size_read _, hcoherent.read _⟩, fun {PC w} hw => ?_⟩
  obtain ⟨n, hn, rfl⟩ := Option.map_eq_some_iff.1 hw
  rw [SimpleCacheTagArray.readNoTouch_read] at hn
  obtain ⟨last, hlast, hdirection, htarget⟩ := h.exists_last htags hn
  simp only [CacheTagArray.set, SimpleCacheTagArray.size_read, Nat.cast_inj]
  by_cases hk : key u.pc = key PC
  · obtain ⟨hset, htag⟩ := (hkey PC).1 hk
    have hn' : n = way := by
      unfold SimpleCacheTagArray.readNoTouch at hn hway
      rw [hset, htag, hn] at hway
      exact Option.some.inj hway
    subst hn'
    rw [if_pos hk, if_pos ⟨rfl, hset.symm⟩, if_pos ⟨rfl, hset.symm⟩, hset, hdirection]
    refine ⟨u, by simp, ?_, rfl⟩
    rw [List.map_append, automaton, automaton, List.foldl_append]
    rfl
  · have hslot : ¬ (n = way ∧ tags.size.set PC = tags.size.set u.pc) := by
      rintro ⟨rfl, hset⟩
      -- one way does not hold two tags
      unfold SimpleCacheTagArray.readNoTouch at hn hway
      rw [hset] at hn
      have hPC := (hcoherent.find_iff _ _ _ (hreserved PC)).1 hn
      rw [(hcoherent.find_iff _ _ _ (hreserved u.pc)).1 hway] at hPC
      exact hk ((hkey PC).2 ⟨hset.symm, (Tag.mk.inj hPC).2⟩)
    rw [if_neg hk, if_neg hslot, if_neg hslot]
    exact ⟨last, hlast, hdirection, htarget⟩

theorem Remembers.update [LawfulBPEntry E] (h : bp.Remembers size since)
    (hsize : size.Regular lineBits indexBits) (hline : size.lineSize = 4#32)
    (haddr : size.addrSizeInBits = 32#32) (u : BPInterface) :
    (bp.update u).Remembers size fun PC =>
      if key u.pc = key PC then if bp.isHit u.pc then since PC ++ [u] else [u] else since PC := by
  obtain ⟨tags, htags, rfl, hcoherent⟩ := h.tags
  rcases hway : tags.readNoTouch u.pc with _ | way
  · have hhit : bp.isHit u.pc = false := by
      simp [isHit, htags, CacheTagArray.readNoTouch, hway]
    rw [hhit]
    exact h.update_of_miss hcoherent hsize hline haddr htags hway
  · have hhit : bp.isHit u.pc = true := by
      simp [isHit, htags, CacheTagArray.readNoTouch, hway]
    rw [hhit]
    exact h.update_of_hit hcoherent hsize hline haddr htags hway

theorem Remembers.run [LawfulBPEntry E] (hsize : size.Regular lineBits indexBits)
    (hline : size.lineSize = 4#32) (haddr : size.addrSizeInBits = 32#32) :
    ∀ (updates : List BPInterface) {bp : BP E} {since : Addr → List BPInterface},
      bp.Remembers size since → (updates.foldl BP.update bp).Remembers size fun PC =>
        bp.sinceAllocation PC (since PC) updates
  | [], _, _, h => h
  | u :: updates, _, _, h => (h.update hsize hline haddr u).run hsize hline haddr updates

/-- The configured predictor is one of its mode. -/
theorem create_of_configured {bpMode bpLru : String} {bpSize bpWays : BitVec 32} {mode : BPMode}
    {bp : BP mode.Entry}
    (h : BaseBP.createConfiguredBp bpMode bpLru bpSize bpWays = .ok ⟨mode, bp⟩) :
    BP.create mode.Entry bpLru bpSize bpWays 32#32 = .ok bp := by
  unfold BaseBP.createConfiguredBp BaseBP.createBp at h
  rcases hmode : BPMode.ofName bpMode with _ | mode'
  · rw [hmode] at h
    cases h
  · rw [hmode] at h
    rcases hbp : BP.create mode'.Entry bpLru bpSize bpWays 32#32 with e | bp'
    · simp [hbp, Except.map] at h
    · simp only [hbp, Except.map, Except.ok.injEq] at h
      cases h
      exact hbp

/-- A new predictor remembers nothing. -/
theorem remembers_create {lru : String} {sizeInEntries ways : BitVec 32}
    (hlru : lru = "LRU" ∨ lru = "pseudo-LRU")
    (h : BP.create E lru sizeInEntries ways 32#32 = .ok bp) : ∃ lineBits indexBits,
    (CacheTagArraySize.mk sizeInEntries ways 4#32 32#32).Regular lineBits indexBits
      ∧ bp.Remembers ⟨sizeInEntries, ways, 4#32, 32#32⟩ fun _ => [] := by
  have hcreate : CacheTagArray.create lru ⟨sizeInEntries, ways, 4#32, 32#32⟩
      = (SimpleCacheTagArray.create ⟨sizeInEntries, ways, 4#32, 32#32⟩ lru).map .simple := by
    unfold CacheTagArray.create
    rcases hlru with rfl | rfl <;> rw [if_neg (by decide), if_neg (by decide)]
  unfold BP.create at h
  rw [hcreate] at h
  split at h
  · cases h
  · rcases htags : SimpleCacheTagArray.create ⟨sizeInEntries, ways, 4#32, 32#32⟩ lru with e | tags
    · rw [htags] at h
      cases e <;> cases h
    · rw [htags] at h
      cases h
      obtain ⟨hsize, hcheck, hcoherent⟩ := SimpleCacheTagArray.coherent_create htags
      obtain ⟨lineBits, indexBits, hregular⟩ := CacheTagArraySize.regular_of_check hcheck
      refine ⟨lineBits, indexBits, hregular, ⟨tags, rfl, hsize, hcoherent⟩, fun {PC w} hw => ?_⟩
      obtain ⟨n, hn, -⟩ := Option.map_eq_some_iff.1 hw
      rw [SimpleCacheTagArray.misses_create htags] at hn
      cases hn

end Update

section Query

variable {size : CacheTagArraySize} {bp : BP E} {since : Addr → List BPInterface} {PC : Addr}

/-- A prediction that hits is what the entry remembers. -/
theorem Remembers.getBpInfo (h : bp.Remembers size since) (hhit : (bp.getBpInfo PC).isHit) :
    ∃ last, (since PC).getLast? = some last
      ∧ (bp.getBpInfo PC).isTaken
        = BPEntry.isTaken (automaton E ((since PC).map (·.isTaken))) PC last.target
      ∧ (bp.getBpInfo PC).target
        = if (bp.getBpInfo PC).isTaken then last.target else PC + 4#64 := by
  unfold BP.getBpInfo isHit at hhit ⊢
  rcases hway : bp.tags.readNoTouch PC with _ | way
  · simp [hway] at hhit
  · obtain ⟨last, hlast, hdirection, htarget⟩ := h.entry hway
    simp only [Option.isSome_some, if_true]
    refine ⟨last, hlast, ?_, ?_⟩
    · rw [isTaken, hway]
      simp only [isWayTaken, hdirection, htarget]
    · rw [isTaken, getTarget, hway]
      simp only [htarget]

/-- A prediction that misses is the next instruction. -/
theorem getBpInfo_miss (hmiss : (bp.getBpInfo PC).isHit = false) :
    (bp.getBpInfo PC).isTaken = false ∧ (bp.getBpInfo PC).target = PC + 4#64 := by
  unfold BP.getBpInfo at hmiss ⊢
  split_ifs at hmiss ⊢
  exact ⟨rfl, rfl⟩

end Query

section Interference

/-- Entries do not interfere: a prediction that hits is the automaton after the updates of its key
since the entry was allocated, and their last target; one that misses is the next instruction. -/
theorem entries_do_not_interfere {bpMode bpLru : String} {bpSize bpWays : BitVec 32}
    {mode : BPMode} {bp : BP mode.Entry} (hlru : bpLru = "LRU" ∨ bpLru = "pseudo-LRU")
    (h : BaseBP.createConfiguredBp bpMode bpLru bpSize bpWays = .ok ⟨mode, bp⟩)
    (updates : List BPInterface) (PC : Addr) :
    let info := (updates.foldl BP.update bp).getBpInfo PC
    let since := bp.sinceAllocation PC [] updates
    (info.isHit → ∃ last, since.getLast? = some last
        ∧ info.isTaken = BPEntry.isTaken (automaton mode.Entry (since.map (·.isTaken))) PC last.target
        ∧ info.target = if info.isTaken then last.target else PC + 4#64)
      ∧ (info.isHit = false → info.isTaken = false ∧ info.target = PC + 4#64) := by
  obtain ⟨lineBits, indexBits, hregular, hstart⟩ := remembers_create hlru (create_of_configured h)
  have hend := hstart.run hregular rfl rfl updates
  exact ⟨hend.getBpInfo, getBpInfo_miss⟩

/-- Two keys that share the only way: the entry of the second one is new. -/
theorem entries_do_not_interfere_evicted : ∃ bp : BP BPMode.saturatingTwoBits.Entry,
    BaseBP.createConfiguredBp "saturating_two_bits" "LRU" 4#32 1#32 = .ok ⟨_, bp⟩
      ∧ let updates := [⟨0x100#64, true, 0x200#64, true⟩, ⟨0x104#64, true, 0x300#64, true⟩]
        let info := (updates.foldl BP.update bp).getBpInfo 0x104#64
        bp.sinceAllocation 0x104#64 [] updates = [⟨0x104#64, true, 0x300#64, true⟩]
          ∧ info.isTaken ∧ info.target = 0x300#64 := by
  have hrun : ∃ bp : BP BPMode.saturatingTwoBits.Entry,
      BaseBP.createConfiguredBp "saturating_two_bits" "LRU" 4#32 1#32 = .ok ⟨_, bp⟩
        ∧ bp.sinceAllocation 0x104#64 []
          [⟨0x100#64, true, 0x200#64, true⟩, ⟨0x104#64, true, 0x300#64, true⟩]
          = [⟨0x104#64, true, 0x300#64, true⟩]
        ∧ (([⟨0x100#64, true, 0x200#64, true⟩, ⟨0x104#64, true, 0x300#64, true⟩].foldl
          BP.update bp).getBpInfo 0x104#64).isHit :=
    ⟨_, rfl, by decide +kernel, by decide +kernel⟩
  obtain ⟨bp, h, hsince, hhit⟩ := hrun
  obtain ⟨last, hlast, htaken, htarget⟩ :=
    (entries_do_not_interfere (.inl rfl) h _ _).1 hhit
  rw [hsince] at hlast htaken
  obtain rfl := Option.some.inj hlast
  have htaken' : _ = true := htaken
  rw [htaken', if_pos rfl] at htarget
  exact ⟨bp, h, hsince, htaken', htarget⟩

end Interference

end BP

end MiptMips
