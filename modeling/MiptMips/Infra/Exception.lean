import MiptMips.Infra.Macro

/-!
# Exceptions

What the simulators throw. `outOfRange` and `lengthError` are the standard library's, for a checked
array access and for an array that is too large; `divisionByZero` stands for an integer division
that has no result. The others are the simulator's own.
-/

namespace MiptMips

inductive SimException where
  | funcMemoryBadMapping
  | funcMemoryOutOfRange (addr mask : Addr)
  | storeToZero
  | outOfRange
  | lengthError
  | bearingLost
  | deadlock
  | cacheTagArrayInvalidSize
  | cacheReplacement
  | bpInvalidMode
  | divisionByZero
  | checkerMismatch
  deriving DecidableEq, Repr

end MiptMips
