import MiptMips.Infra.InstrCache

/-!
# Cache tags

The tags of a set-associative cache. An address is cut to the bits of the address space; above the
offset in a line stand the number of the set and, above that, the tag. Each set has a map from its
tags to the ways that hold them, and a replacement order. Two more arrays have no geometry: one
always hits, and one grows.

The sizes are 32-bit numbers, and so are their products.
-/

namespace MiptMips

/-- The policies `create_cache_replacement` knows. -/
inductive CacheReplacement where
  | lru (lru : LRU)
  | pseudoLru (lru : PseudoLRU)

namespace CacheReplacement

def create (name : String) (ways : ℕ) : Except SimException CacheReplacement :=
  if name = "LRU" then .ok (.lru (.create ways))
  else if name = "pseudo-LRU" then (PseudoLRU.create ways).map .pseudoLru
  else .error .cacheReplacement

def touch : CacheReplacement → ℕ → CacheReplacement
  | lru l, way => lru (l.touch way)
  | pseudoLru l, way => pseudoLru (l.touch way)

def update : CacheReplacement → ℕ × CacheReplacement
  | lru l => (l.update.1, lru l.update.2)
  | pseudoLru l => (l.update.1, pseudoLru l.update.2)

end CacheReplacement

/-- What a tag array is constructed with. -/
structure CacheTagArraySize where
  sizeInBytes : BitVec 32
  ways : BitVec 32
  lineSize : BitVec 32
  addrSizeInBits : BitVec 32
  deriving DecidableEq

namespace CacheTagArraySize

variable (size : CacheTagArraySize)

/-- The checks of `CacheTagArraySizeCheck`. The product of the ways and the line size may wrap
around to zero; the last check divides by it all the same. -/
def check : Except SimException Unit :=
  if size.sizeInBytes = 0#32 then .error .cacheTagArrayInvalidSize
  else if size.ways = 0#32 then .error .cacheTagArrayInvalidSize
  else if size.lineSize = 0#32 then .error .cacheTagArrayInvalidSize
  else if size.addrSizeInBits = 0#32 then .error .cacheTagArrayInvalidSize
  else if 32#32 < size.addrSizeInBits then .error .cacheTagArrayInvalidSize
  else if size.sizeInBytes < size.ways * size.lineSize then .error .cacheTagArrayInvalidSize
  else if !PseudoLRU.isPowerOfTwo size.sizeInBytes.toNat then .error .cacheTagArrayInvalidSize
  else if !PseudoLRU.isPowerOfTwo size.lineSize.toNat then .error .cacheTagArrayInvalidSize
  else if size.lineSize * size.ways = 0#32 then .error .divisionByZero
  else if size.sizeInBytes % (size.lineSize * size.ways) ≠ 0#32 then
    .error .cacheTagArrayInvalidSize
  else .ok ()

def lineBits : ℕ := size.lineSize.ctz.toNat

def sets : BitVec 32 := size.sizeInBytes / (size.ways * size.lineSize)

def setBits : ℕ := size.sets.ctz.toNat + size.lineBits

def addrMask : Addr := bitmask 64 size.addrSizeInBits.toNat

def set (addr : Addr) : ℕ :=
  (((addr &&& size.addrMask) >>> size.lineBits) &&& (size.sets - 1#32).setWidth 64).toNat

def tag (addr : Addr) : Addr := (addr &&& size.addrMask) >>> size.setBits

end CacheTagArraySize

/-- The keys that the maps from tags to ways reserve. -/
def impossibleKey : Addr := 0x7fffffff#64

/-- One way of a set. -/
structure Tag where
  isValid : Bool := false
  tag : Addr := 0#64
  deriving DecidableEq

/-- The tables have an index for each set, and the tags one for each way of it. -/
structure SimpleCacheTagArray where
  size : CacheTagArraySize
  tags : ℕ → ℕ → Tag
  lookupHelper : ℕ → DenseHashMap Addr ℕ
  replacementModule : ℕ → CacheReplacement

namespace SimpleCacheTagArray

def create (size : CacheTagArraySize) (policy : String) :
    Except SimException SimpleCacheTagArray := do
  size.check
  let replacement ← CacheReplacement.create policy size.ways.toNat
  return {
    size := size
    tags := fun _ _ => {}
    lookupHelper := fun _ => .create impossibleKey (impossibleKey - 1#64)
    replacementModule := fun _ => replacement }

variable (tags : SimpleCacheTagArray)

def readNoTouch (addr : Addr) : Option ℕ :=
  (tags.lookupHelper (tags.size.set addr)).find (tags.size.tag addr)

def read (addr : Addr) : Option ℕ × SimpleCacheTagArray :=
  match tags.readNoTouch addr with
  | some way =>
    let numSet := tags.size.set addr
    (some way,
      { tags with
        replacementModule := fun s =>
          if s = numSet then (tags.replacementModule s).touch way else tags.replacementModule s })
  | none => (none, tags)

def write (addr : Addr) : ℕ × SimpleCacheTagArray :=
  let newTag := tags.size.tag addr
  let numSet := tags.size.set addr
  let (way, replacement) := (tags.replacementModule numSet).update
  let entry := tags.tags numSet way
  let helper := tags.lookupHelper numSet
  let helper := if entry.isValid then helper.erase entry.tag else helper
  let helper := helper.emplace newTag way
  (way,
    { tags with
      tags := fun s w => if s = numSet ∧ w = way then ⟨true, newTag⟩ else tags.tags s w
      lookupHelper := fun s => if s = numSet then helper else tags.lookupHelper s
      replacementModule := fun s =>
        if s = numSet then replacement else tags.replacementModule s })

end SimpleCacheTagArray

structure InfiniteCacheTagArray where
  tags : List Addr
  lookupHelper : DenseHashMap Addr ℕ

namespace InfiniteCacheTagArray

def create : InfiniteCacheTagArray := ⟨[], .create impossibleKey (impossibleKey - 1#64)⟩

variable (tags : InfiniteCacheTagArray)

def readNoTouch (addr : Addr) : Option ℕ := tags.lookupHelper.find addr

def write (addr : Addr) : ℕ × InfiniteCacheTagArray :=
  match tags.readNoTouch addr with
  | some way => (way, tags)
  | none =>
    let way := tags.tags.length
    (way, ⟨tags.tags ++ [addr], tags.lookupHelper.emplace addr way⟩)

end InfiniteCacheTagArray

/-- A tag array of any type. -/
inductive CacheTagArray where
  | alwaysHit
  | infinite (tags : InfiniteCacheTagArray)
  | simple (tags : SimpleCacheTagArray)

namespace CacheTagArray

def create (type : String) (size : CacheTagArraySize) : Except SimException CacheTagArray :=
  if type = "always_hit" then .ok .alwaysHit
  else if type = "infinite" then .ok (.infinite .create)
  else (SimpleCacheTagArray.create size type).map .simple

def set : CacheTagArray → Addr → ℕ
  | alwaysHit, _ => 0
  | infinite _, _ => 0
  | simple tags, addr => tags.size.set addr

def tag : CacheTagArray → Addr → Addr
  | alwaysHit, addr => addr
  | infinite _, addr => addr
  | simple tags, addr => tags.size.tag addr

/-- The way that holds an address, if any. -/
def readNoTouch : CacheTagArray → Addr → Option ℤ
  | alwaysHit, _ => some (-1)
  | infinite tags, addr => (tags.readNoTouch addr).map (↑)
  | simple tags, addr => (tags.readNoTouch addr).map (↑)

def read : CacheTagArray → Addr → Option ℤ × CacheTagArray
  | alwaysHit, _ => (some (-1), alwaysHit)
  | infinite tags, addr => ((tags.readNoTouch addr).map (↑), infinite tags)
  | simple tags, addr => ((tags.read addr).1.map (↑), simple (tags.read addr).2)

def write : CacheTagArray → Addr → ℤ × CacheTagArray
  | alwaysHit, _ => (-1, alwaysHit)
  | infinite tags, addr => ((tags.write addr).1, infinite (tags.write addr).2)
  | simple tags, addr => ((tags.write addr).1, simple (tags.write addr).2)

def lookup (tags : CacheTagArray) (addr : Addr) : Bool × CacheTagArray :=
  ((tags.read addr).1.isSome, (tags.read addr).2)

end CacheTagArray

end MiptMips
