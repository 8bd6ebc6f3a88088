import MiptMips.Infra.TagCoherence

/-!
# The keys that the maps of the tags reserve

The maps from tags to ways keep two keys for themselves, and say nothing about what they do when
they are given one. An address leads to one of them when its tag is large enough: a set-associative
array has such addresses if its tags have 31 bits or more, and one that grows always has them.
-/

namespace MiptMips

namespace DenseHashMap

inductive Operation (K V : Type) where
  | find (key : K)
  | emplace (key : K) (value : V)
  | erase (key : K)

namespace Operation

variable {K V : Type} [DecidableEq K]

def key : Operation K V → K
  | find key | emplace key _ | erase key => key

def apply (map : DenseHashMap K V) : Operation K V → DenseHashMap K V
  | find _ => map
  | emplace key value => map.emplace key value
  | erase key => map.erase key

end Operation

end DenseHashMap

namespace CacheTagArray

open DenseHashMap

section Model

def next (tags : CacheTagArray) : TagAccess → CacheTagArray
  | .read addr => (tags.read addr).2
  | .write addr => (tags.write addr).2

/-- The map that an address is looked up in. -/
def lookupMap (addr : Addr) : CacheTagArray → Option (DenseHashMap Addr ℕ)
  | alwaysHit => none
  | infinite tags => some tags.lookupHelper
  | simple tags => some (tags.lookupHelper (tags.size.set addr))

/-- What an access does with the map, in order. -/
def mapOperations : CacheTagArray → TagAccess → List (Operation Addr ℕ)
  | alwaysHit, _ => []
  | infinite _, .read addr => [.find addr]
  | infinite tags, .write addr =>
    if (tags.readNoTouch addr).isSome then [.find addr]
    else [.find addr, .emplace addr tags.tags.length]
  | simple tags, .read addr => [.find (tags.size.tag addr)]
  | simple tags, .write addr =>
    let way := (tags.write addr).1
    let entry := tags.tags (tags.size.set addr) way
    (if entry.isValid then [.erase entry.tag] else []) ++ [.emplace (tags.size.tag addr) way]

/-- No operation of a run is given a key that its map reserves. -/
def KeysAllowed : CacheTagArray → List TagAccess → Prop
  | _, [] => True
  | tags, a :: accesses =>
    (∀ map ∈ tags.lookupMap a.addr, ∀ op ∈ tags.mapOperations a, ¬ map.Reserved op.key)
      ∧ KeysAllowed (tags.next a) accesses

/-- The operations are all that an access does with the map. -/
theorem lookupMap_next (tags : CacheTagArray) (a : TagAccess) :
    (tags.next a).lookupMap a.addr
      = (tags.lookupMap a.addr).map ((tags.mapOperations a).foldl Operation.apply) := by
  cases tags with
  | alwaysHit => cases a <;> rfl
  | infinite tags =>
    cases a with
    | read addr => rfl
    | write addr =>
      rcases hw : tags.readNoTouch addr with _ | way <;>
        simp [next, write, lookupMap, mapOperations, InfiniteCacheTagArray.write, hw,
          Operation.apply]
  | simple tags =>
    cases a with
    | read addr =>
      simp [next, read, lookupMap, mapOperations, SimpleCacheTagArray.lookupHelper_read,
        SimpleCacheTagArray.size_read, Operation.apply, TagAccess.addr]
    | write addr =>
      simp only [next, write, lookupMap, mapOperations, SimpleCacheTagArray.size_write,
        TagAccess.addr, Option.map_some]
      simp only [SimpleCacheTagArray.write, if_true]
      split_ifs with hvalid <;> simp [hvalid, Operation.apply]

end Model

section Spec

/-- The addresses that lead to a reserved key. -/
def ReservedAt (type : String) (size : CacheTagArraySize) (addr : Addr) : Prop :=
  if type = "always_hit" then False
  else if type = "infinite" then SimpleCacheTagArray.ReservedTag addr
  else SimpleCacheTagArray.ReservedTag (size.tag addr)

/-- All maps reserve the two keys, and no way holds one of them. -/
def Clean : CacheTagArray → Prop
  | alwaysHit => True
  | infinite tags => ∀ key, tags.lookupHelper.Reserved key ↔ SimpleCacheTagArray.ReservedTag key
  | simple tags =>
    (∀ s key, (tags.lookupHelper s).Reserved key ↔ SimpleCacheTagArray.ReservedTag key)
      ∧ ∀ s way, (tags.tags s way).isValid →
        ¬ SimpleCacheTagArray.ReservedTag (tags.tags s way).tag

/-- An array of its type and size. -/
def HasShape (type : String) (size : CacheTagArraySize) : CacheTagArray → Prop
  | alwaysHit => type = "always_hit"
  | infinite _ => type = "infinite"
  | simple tags => type ≠ "always_hit" ∧ type ≠ "infinite" ∧ tags.size = size

end Spec

section Run

variable {type : String} {size : CacheTagArraySize} {tags : CacheTagArray}

theorem simple_of_create (h : CacheTagArray.create type size = .ok tags)
    (hhit : type ≠ "always_hit") (hinfinite : type ≠ "infinite") :
    ∃ simpleTags, SimpleCacheTagArray.create size type = .ok simpleTags
      ∧ tags = simple simpleTags := by
  rw [CacheTagArray.create, if_neg hhit, if_neg hinfinite] at h
  rcases hs : SimpleCacheTagArray.create size type with e | simpleTags <;> rw [hs] at h <;> cases h
  exact ⟨simpleTags, rfl, rfl⟩

theorem create_clean (h : CacheTagArray.create type size = .ok tags) :
    tags.HasShape type size ∧ tags.Clean := by
  by_cases hhit : type = "always_hit"
  · rw [CacheTagArray.create, if_pos hhit] at h
    cases h
    exact ⟨hhit, trivial⟩
  · by_cases hinfinite : type = "infinite"
    · rw [CacheTagArray.create, if_neg hhit, if_pos hinfinite] at h
      cases h
      exact ⟨hinfinite, fun _ => Iff.rfl⟩
    · rcases simple_of_create h hhit hinfinite with ⟨simpleTags, hs, rfl⟩
      rcases SimpleCacheTagArray.create_cases hs with ⟨-, r, -, rfl⟩
      exact ⟨⟨hhit, hinfinite, rfl⟩, fun _ _ => Iff.rfl, fun _ _ hvalid => nomatch hvalid⟩

/-- Every operation of an array that grows has the address as its key. -/
theorem key_of_infinite (tags : InfiniteCacheTagArray) (a : TagAccess) :
    .find a.addr ∈ (infinite tags).mapOperations a
      ∧ ∀ op ∈ (infinite tags).mapOperations a, op.key = a.addr := by
  cases a with
  | read addr => simp [mapOperations, TagAccess.addr, Operation.key]
  | write addr =>
    rw [mapOperations]
    split_ifs <;> simp [TagAccess.addr, Operation.key]

/-- The operations of a set-associative array have the tag as their key, but for the one that erases
the tag of the victim. -/
theorem key_of_simple (tags : SimpleCacheTagArray) (a : TagAccess) :
    (∃ op ∈ (simple tags).mapOperations a, op.key = tags.size.tag a.addr)
      ∧ ∀ op ∈ (simple tags).mapOperations a, op.key = tags.size.tag a.addr
        ∨ ∃ s way, (tags.tags s way).isValid ∧ op.key = (tags.tags s way).tag := by
  cases a with
  | read addr => simp [mapOperations, TagAccess.addr, Operation.key]
  | write addr =>
    refine ⟨⟨_, List.mem_append_right _ (.head _), rfl⟩, fun op hop => ?_⟩
    rcases List.mem_append.1 hop with herase | hemplace
    · split_ifs at herase with hvalid
      · rw [List.mem_singleton.1 herase]
        exact .inr ⟨_, _, hvalid, rfl⟩
      · cases herase
    · rw [List.mem_singleton.1 hemplace]
      exact .inl rfl

theorem clean_write {tags : SimpleCacheTagArray} {addr : Addr} (hclean : (simple tags).Clean)
    (h : ¬ SimpleCacheTagArray.ReservedTag (tags.size.tag addr)) :
    (simple (tags.write addr).2).Clean := by
  rcases hclean with ⟨hmaps, htags⟩
  refine ⟨fun s key => ?_, fun s way hvalid => ?_⟩
  · unfold SimpleCacheTagArray.write
    dsimp only
    split_ifs with hs
    · exact hmaps _ key
    · exact hmaps _ key
    · exact hmaps s key
  · rw [SimpleCacheTagArray.tags_write] at hvalid ⊢
    split_ifs at hvalid ⊢
    · exact h
    · exact htags s way hvalid

theorem step_infinite {tags : InfiniteCacheTagArray} (hclean : (infinite tags).Clean)
    (a : TagAccess) : ((∀ map ∈ (infinite tags).lookupMap a.addr,
        ∀ op ∈ (infinite tags).mapOperations a, ¬ map.Reserved op.key)
        ↔ ¬ SimpleCacheTagArray.ReservedTag a.addr) ∧ ((infinite tags).next a).Clean := by
  rcases key_of_infinite tags a with ⟨hfind, hkeys⟩
  constructor
  · simp only [lookupMap, Option.mem_def, Option.some.injEq, forall_eq', ← hclean a.addr]
    exact ⟨fun h => h _ hfind, fun h op hop => by rwa [hkeys op hop]⟩
  · cases a with
    | read addr => exact hclean
    | write addr =>
      show (infinite (tags.write addr).2).Clean
      unfold InfiniteCacheTagArray.write
      split
      · exact hclean
      · exact hclean

theorem step_simple {tags : SimpleCacheTagArray} (hclean : (simple tags).Clean) (a : TagAccess) :
    ((∀ map ∈ (simple tags).lookupMap a.addr,
        ∀ op ∈ (simple tags).mapOperations a, ¬ map.Reserved op.key)
        ↔ ¬ SimpleCacheTagArray.ReservedTag (tags.size.tag a.addr))
      ∧ (¬ SimpleCacheTagArray.ReservedTag (tags.size.tag a.addr) →
        ((simple tags).next a).Clean) := by
  rcases key_of_simple tags a with ⟨⟨own, hown, hkey⟩, hkeys⟩
  constructor
  · simp only [lookupMap, Option.mem_def, Option.some.injEq, forall_eq', hclean.1]
    constructor
    · exact fun h => hkey ▸ h own hown
    · intro h op hop
      rcases hkeys op hop with htag | ⟨s, way, hvalid, htag⟩
      · rwa [htag]
      · rw [htag]
        exact hclean.2 s way hvalid
  · intro h
    cases a with
    | read addr =>
      show (simple (tags.read addr).2).Clean
      simp only [Clean, SimpleCacheTagArray.lookupHelper_read, SimpleCacheTagArray.tags_read]
      exact hclean
    | write addr => exact clean_write hclean h

theorem step_clean (hshape : tags.HasShape type size) (hclean : tags.Clean) (a : TagAccess) :
    ((∀ map ∈ tags.lookupMap a.addr, ∀ op ∈ tags.mapOperations a, ¬ map.Reserved op.key)
        ↔ ¬ ReservedAt type size a.addr)
      ∧ (tags.next a).HasShape type size
      ∧ (¬ ReservedAt type size a.addr → (tags.next a).Clean) := by
  cases tags with
  | alwaysHit =>
    have hnot : ¬ ReservedAt type size a.addr := by
      rw [ReservedAt, if_pos (show type = "always_hit" from hshape)]
      exact id
    cases a <;> exact ⟨iff_of_true (fun _ h => nomatch h) hnot, hshape, fun _ => trivial⟩
  | infinite tags =>
    have hkey : ReservedAt type size a.addr ↔ SimpleCacheTagArray.ReservedTag a.addr := by
      rw [ReservedAt, show type = "infinite" from hshape, if_neg (by decide), if_pos rfl]
    rw [hkey]
    exact ⟨(step_infinite hclean a).1, by cases a <;> exact hshape,
      fun _ => (step_infinite hclean a).2⟩
  | simple tags =>
    rcases hshape with ⟨hhit, hinfinite, rfl⟩
    have hkey : ReservedAt type tags.size a.addr
        ↔ SimpleCacheTagArray.ReservedTag (tags.size.tag a.addr) := by
      rw [ReservedAt, if_neg hhit, if_neg hinfinite]
    have hshape' : ((simple tags).next a).HasShape type tags.size := by
      cases a with
      | read addr => exact ⟨hhit, hinfinite, SimpleCacheTagArray.size_read addr⟩
      | write addr => exact ⟨hhit, hinfinite, rfl⟩
    rw [hkey]
    exact ⟨(step_simple hclean a).1, hshape', (step_simple hclean a).2⟩

theorem keysAllowed_iff : ∀ {tags : CacheTagArray} {accesses : List TagAccess},
    tags.HasShape type size → tags.Clean →
      (tags.KeysAllowed accesses ↔ ∀ a ∈ accesses, ¬ ReservedAt type size a.addr)
  | _, [], _, _ => iff_of_true trivial fun _ h => nomatch h
  | tags, a :: accesses, hshape, hclean => by
    rcases step_clean hshape hclean a with ⟨hkeys, hshape', hclean'⟩
    rw [KeysAllowed, List.forall_mem_cons, hkeys]
    exact and_congr_right fun h => keysAllowed_iff hshape' (hclean' h)

end Run

end CacheTagArray

namespace CacheTagArraySize.Regular

variable {size : CacheTagArraySize} {lineBits indexBits : ℕ}

theorem toNat_tag_eq (h : size.Regular lineBits indexBits) (addr : Addr) :
    (size.tag addr).toNat = addr.toNat % 2 ^ size.addrSizeInBits.toNat / 2 ^ size.setBits := by
  rw [h.toNat_tag, line, h.lineSize, h.setBits_eq, Nat.div_div_eq_div_mul, Nat.add_comm,
    Nat.pow_add]

/-- There is an address with a reserved tag just when the tags have 31 bits or more. -/
theorem reservedTag_iff (h : size.Regular lineBits indexBits) :
    (∃ addr, SimpleCacheTagArray.ReservedTag (size.tag addr))
      ↔ size.setBits + 31 ≤ size.addrSizeInBits.toNat := by
  constructor
  · rintro ⟨addr, haddr⟩
    by_contra hlt
    have hpow : 2 ^ size.addrSizeInBits.toNat ≤ 2 ^ 30 * 2 ^ size.setBits := by
      rw [← Nat.pow_add]
      exact Nat.pow_le_pow_right (by decide) (by omega)
    have hcut := Nat.mod_lt addr.toNat (Nat.two_pow_pos size.addrSizeInBits.toNat)
    have htag : (size.tag addr).toNat < 2 ^ 30 := by
      rw [h.toNat_tag_eq, Nat.div_lt_iff_lt_mul (Nat.two_pow_pos _)]
      omega
    rcases haddr with hr | hr <;> rw [hr] at htag <;> simp [impossibleKey] at htag
  · intro hle
    have hpow : 2 ^ 31 * 2 ^ size.setBits ≤ 2 ^ size.addrSizeInBits.toNat := by
      rw [← Nat.pow_add]
      exact Nat.pow_le_pow_right (by decide) (by omega)
    have hwide : 2 ^ size.addrSizeInBits.toNat ≤ 2 ^ 32 :=
      Nat.pow_le_pow_right (by decide) h.addrSize
    have hpos := Nat.two_pow_pos size.setBits
    refine ⟨BitVec.ofNat 64 (0x7fffffff * 2 ^ size.setBits), .inl (BitVec.eq_of_toNat_eq ?_)⟩
    rw [h.toNat_tag_eq, BitVec.toNat_ofNat, Nat.mod_eq_of_lt (b := 2 ^ 64) (by omega),
      Nat.mod_eq_of_lt (by omega), Nat.mul_div_cancel _ hpos]
    rfl

end CacheTagArraySize.Regular

namespace CacheTagArray

section Exactness

variable {type : String} {size : CacheTagArraySize} {tags : CacheTagArray}

/-- The runs of an array are all allowed if no address leads to a reserved key. -/
theorem keysAllowed_forall (hshape : tags.HasShape type size) (hclean : tags.Clean) :
    (∀ accesses, tags.KeysAllowed accesses) ↔ ∀ addr, ¬ ReservedAt type size addr := by
  constructor
  · intro h addr
    exact (keysAllowed_iff hshape hclean).1 (h [.read addr]) (.read addr) (.head _)
  · intro h accesses
    exact (keysAllowed_iff hshape hclean).2 fun a _ => h a.addr

/-- A run is given a reserved key exactly when an address of it leads to one. No run is exactly when
the array always hits, or it is set-associative and its tags have less than 31 bits. -/
theorem reservedKeys_unused_iff (h : CacheTagArray.create type size = .ok tags) :
    (∀ accesses, tags.KeysAllowed accesses ↔ ∀ a ∈ accesses, ¬ ReservedAt type size a.addr)
      ∧ ((∀ accesses, tags.KeysAllowed accesses) ↔ type = "always_hit"
        ∨ type ≠ "infinite" ∧ size.addrSizeInBits.toNat < size.setBits + 31) := by
  rcases create_clean h with ⟨hshape, hclean⟩
  refine ⟨fun accesses => keysAllowed_iff hshape hclean, ?_⟩
  rw [keysAllowed_forall hshape hclean]
  by_cases hhit : type = "always_hit"
  · simp [ReservedAt, hhit]
  · by_cases hinfinite : type = "infinite"
    · subst hinfinite
      have hkey : ReservedAt "infinite" size impossibleKey := .inl rfl
      exact iff_of_false (fun hall => hall impossibleKey hkey) (by simp)
    · rcases simple_of_create h hhit hinfinite with ⟨simpleTags, hs, -⟩
      rcases CacheTagArraySize.regular_of_check (SimpleCacheTagArray.create_cases hs).1
        with ⟨lineBits, indexBits, hregular⟩
      simp only [ReservedAt, hhit, hinfinite, if_false, false_or]
      rw [← not_exists, hregular.reservedTag_iff, Nat.not_le]
      simp [hinfinite]

/-- An array of 128 bytes, with tags of 26 bits. -/
theorem reservedKeys_unused_iff_small : ∃ tags,
    CacheTagArray.create "LRU" ⟨128#32, 2#32, 4#32, 32#32⟩ = .ok tags
      ∧ (∀ accesses, tags.KeysAllowed accesses ↔ ∀ a ∈ accesses,
        ¬ ReservedAt "LRU" ⟨128#32, 2#32, 4#32, 32#32⟩ a.addr)
      ∧ ((∀ accesses, tags.KeysAllowed accesses) ↔ "LRU" = "always_hit"
        ∨ "LRU" ≠ "infinite" ∧ 32 < (⟨128#32, 2#32, 4#32, 32#32⟩ : CacheTagArraySize).setBits + 31) :=
  ⟨_, rfl, reservedKeys_unused_iff (show CacheTagArray.create "LRU" _ = .ok _ from rfl)⟩

/-- The empty key is put into an array that grows, and into a set-associative one of four lines of a
byte. -/
theorem not_reservedKeys_unused :
    (∃ tags, CacheTagArray.create "infinite" ⟨4#32, 4#32, 1#32, 32#32⟩ = .ok tags
        ∧ (∃ way, .emplace impossibleKey way ∈ tags.mapOperations (.write 0x7fffffff#64))
        ∧ ¬ tags.KeysAllowed [.write 0x7fffffff#64])
      ∧ ∃ tags, CacheTagArray.create "LRU" ⟨4#32, 4#32, 1#32, 32#32⟩ = .ok tags
        ∧ (∃ way, .emplace impossibleKey way ∈ tags.mapOperations (.write 0x7fffffff#64))
        ∧ ¬ tags.KeysAllowed [.write 0x7fffffff#64] := by
  have htag : (⟨4#32, 4#32, 1#32, 32#32⟩ : CacheTagArraySize).tag 0x7fffffff#64
      = impossibleKey := by decide +kernel
  constructor
  · refine ⟨_, rfl, ⟨0, .tail _ (.head _)⟩, fun h => ?_⟩
    exact h.1 _ rfl _ (.tail _ (.head _)) (.inl rfl)
  · refine ⟨_, rfl, ?_, fun h => ?_⟩
    · rw [← htag]
      exact ⟨_, List.mem_append_right _ (.head _)⟩
    exact h.1 _ rfl _ (List.mem_append_right _ (.head _)) (.inl htag)

end Exactness

end CacheTagArray

end MiptMips
