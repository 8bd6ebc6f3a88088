import MiptMips.Infra.ReservedKeys
import MiptMips.Lib.Indexed

/-!
# Writing a line that is there

An array that grows looks a line up before it gives it a way. A set-associative one does not: a line
that is in another way than the victim's gets a second way, and the map keeps the first one. All is
well in a run just when no write does this.
-/

namespace MiptMips

open Machines

namespace CacheTagArray

section Model

/-- The tag that a way of a set holds, if it is valid. -/
def held : CacheTagArray → ℕ → ℕ → Option Addr
  | alwaysHit, _, _ => none
  | infinite tags, _, way => tags.tags[way]?
  | simple tags, s, way =>
    if (tags.tags s way).isValid then some (tags.tags s way).tag else none

/-- The tag is not reserved, and the line is not there or in the way of the victim. -/
def WriteAllowed : CacheTagArray → Addr → Prop
  | alwaysHit, _ => True
  | infinite _, addr => ¬ SimpleCacheTagArray.ReservedTag addr
  | simple tags, addr => ¬ SimpleCacheTagArray.ReservedTag (tags.size.tag addr)
    ∧ (tags.readNoTouch addr = none
      ∨ tags.readNoTouch addr = some (tags.replacementModule (tags.size.set addr)).update.1)

def AllowedRun : CacheTagArray → List TagAccess → Prop
  | _, [] => True
  | tags, a :: accesses =>
    (∀ addr, a = .write addr → tags.WriteAllowed addr) ∧ AllowedRun (tags.next a) accesses

end Model

section Start

variable {type : String} {size : CacheTagArraySize} {tags : CacheTagArray}

end Start

end CacheTagArray

namespace InfiniteCacheTagArray

open CacheTagArray

variable {tags : InfiniteCacheTagArray} {addr : Addr}

end InfiniteCacheTagArray

namespace SimpleCacheTagArray

open CacheTagArray

variable {tags : SimpleCacheTagArray} {addr : Addr}

end SimpleCacheTagArray

namespace CacheTagArray

section Run

variable {type : String} {size : CacheTagArraySize} {tags : CacheTagArray}

end Run

end CacheTagArray

end MiptMips
