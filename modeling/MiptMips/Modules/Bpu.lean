import MiptMips.Infra.CacheTagArray

/-!
# Branch prediction

A branch target buffer: a tag array over instruction addresses, and for each of its entries a
direction automaton and the last target. The address is cut to 32 bits, and an entry is never
invalidated: it predicts for whatever instruction is now at an address with its tag.
-/

namespace MiptMips

/-- A prediction, or what a retired jump teaches the predictor. -/
structure BPInterface where
  pc : Addr := NO_VAL32.setWidth 64
  isTaken : Bool := false
  target : Addr := NO_VAL32.setWidth 64
  isHit : Bool := true
  deriving DecidableEq

/-- What an entry of any prediction mode does. -/
class BPEntry (E : Type) where
  default : E
  isTaken : E → Addr → Addr → Bool
  update : E → Bool → E
  reset : E → E

section Modes

/-- `BPEntryAlwaysOneDirection`. -/
inductive BPEntryAlways (direction : Bool) where
  | mk

instance (direction : Bool) : BPEntry (BPEntryAlways direction) where
  default := .mk
  isTaken _ _ _ := direction
  update entry _ := entry
  reset entry := entry

inductive BPEntryBackwardJumps where
  | mk

instance : BPEntry BPEntryBackwardJumps where
  default := .mk
  isTaken _ PC target := target < PC
  update entry _ := entry
  reset entry := entry

structure BPEntryOneBit where
  state : Bool

instance : BPEntry BPEntryOneBit where
  default := ⟨false⟩
  isTaken entry _ _ := entry.state
  update _ isTaken := ⟨isTaken⟩
  reset _ := ⟨false⟩

inductive BPEntryTwoBit where
  | nt | wnt | wt | t
  deriving DecidableEq

namespace BPEntryTwoBit

def update : BPEntryTwoBit → Bool → BPEntryTwoBit
  | nt, true => wnt
  | wnt, true => wt
  | wt, true => t
  | t, true => t
  | nt, false => nt
  | wnt, false => nt
  | wt, false => wnt
  | t, false => wt

def isTaken : BPEntryTwoBit → Bool
  | wt | t => true
  | nt | wnt => false

end BPEntryTwoBit

instance : BPEntry BPEntryTwoBit where
  default := .wnt
  isTaken entry _ _ := entry.isTaken
  update entry isTaken := entry.update isTaken
  reset _ := .wnt

/-- A two-level predictor: an automaton for each pattern of the last `depth` directions. -/
structure BPEntryAdaptive (depth : ℕ) where
  stateTable : ℕ → BPEntryTwoBit
  currentPattern : ℕ

instance (depth : ℕ) : BPEntry (BPEntryAdaptive depth) where
  default := ⟨fun _ => .wnt, 0⟩
  isTaken entry _ _ := (entry.stateTable entry.currentPattern).isTaken
  update entry isTaken :=
    { stateTable := fun pattern =>
        if pattern = entry.currentPattern then (entry.stateTable pattern).update isTaken
        else entry.stateTable pattern
      currentPattern := 2 * entry.currentPattern % 2 ^ depth + if isTaken then 1 else 0 }
  reset _ := ⟨fun _ => .wnt, 0⟩

end Modes

/-- The predictor. Its tables have an index for each way and each set; an index out of their bounds
is undefined, and here they go on. -/
structure BP (E : Type) where
  directions : ℤ → ℕ → E
  targets : ℤ → ℕ → Addr
  tags : CacheTagArray

namespace BP

variable {E : Type} [BPEntry E]

variable (E) in
/-- The tables are sized by the entries of each way. -/
def create (lru : String) (sizeInEntries ways branchIpSizeInBits : BitVec 32) :
    Except SimException (BP E) :=
  if ways = 0#32 then .error .divisionByZero
  else
    match CacheTagArray.create lru ⟨sizeInEntries, ways, 4#32, branchIpSizeInBits⟩ with
    | .ok tags => .ok ⟨fun _ _ => BPEntry.default, fun _ _ => 0#64, tags⟩
    | .error .cacheTagArrayInvalidSize => .error .bpInvalidMode
    | .error e => .error e

variable (bp : BP E)

def isWayTaken (way : ℤ) (PC target : Addr) : Bool :=
  BPEntry.isTaken (bp.directions way (bp.tags.set PC)) PC target

def isTaken (PC : Addr) : Bool :=
  match bp.tags.readNoTouch PC with
  | some way => bp.isWayTaken way PC (bp.targets way (bp.tags.set PC))
  | none => false

def isHit (PC : Addr) : Bool := (bp.tags.readNoTouch PC).isSome

/-- The stored target, when the entry predicts taken. -/
def getTarget (PC : Addr) : Addr :=
  match bp.tags.readNoTouch PC with
  | some way =>
    let target := bp.targets way (bp.tags.set PC)
    if bp.isWayTaken way PC target then target else PC + 4#64
  | none => PC + 4#64

def getBpInfo (PC : Addr) : BPInterface :=
  if bp.isHit PC then ⟨PC, bp.isTaken PC, bp.getTarget PC, true⟩
  else ⟨PC, false, PC + 4#64, false⟩

/-- A missing entry is allocated and reset first. -/
def update (bpUpd : BPInterface) : BP E :=
  let set := bp.tags.set bpUpd.pc
  let (hit, tags) := bp.tags.read bpUpd.pc
  let (way, tags, entry) := match hit with
    | some way => (way, tags, bp.directions way set)
    | none =>
      let (way, tags) := tags.write bpUpd.pc
      (way, tags, BPEntry.reset (bp.directions way set))
  { directions := fun w s =>
      if w = way ∧ s = set then BPEntry.update entry bpUpd.isTaken else bp.directions w s
    targets := fun w s => if w = way ∧ s = set then bpUpd.target else bp.targets w s
    tags := tags }

end BP

/-- The modes that the factory knows. -/
inductive BPMode where
  | alwaysTaken | alwaysNotTaken | backwardJumps | saturatingOneBit | saturatingTwoBits
  | adaptiveTwoLevels
  deriving DecidableEq

namespace BPMode

def ofName : String → Option BPMode
  | "always_taken" => some alwaysTaken
  | "always_not_taken" => some alwaysNotTaken
  | "backward_jumps" => some backwardJumps
  | "saturating_one_bit" => some saturatingOneBit
  | "saturating_two_bits" => some saturatingTwoBits
  | "adaptive_two_levels" => some adaptiveTwoLevels
  | _ => none

def Entry : BPMode → Type
  | alwaysTaken => BPEntryAlways true
  | alwaysNotTaken => BPEntryAlways false
  | backwardJumps => BPEntryBackwardJumps
  | saturatingOneBit => BPEntryOneBit
  | saturatingTwoBits => BPEntryTwoBit
  | adaptiveTwoLevels => BPEntryAdaptive 2

instance : (mode : BPMode) → BPEntry mode.Entry
  | alwaysTaken => inferInstanceAs (BPEntry (BPEntryAlways true))
  | alwaysNotTaken => inferInstanceAs (BPEntry (BPEntryAlways false))
  | backwardJumps => inferInstanceAs (BPEntry BPEntryBackwardJumps)
  | saturatingOneBit => inferInstanceAs (BPEntry BPEntryOneBit)
  | saturatingTwoBits => inferInstanceAs (BPEntry BPEntryTwoBit)
  | adaptiveTwoLevels => inferInstanceAs (BPEntry (BPEntryAdaptive 2))

end BPMode

/-- A predictor of some mode. -/
structure BaseBP where
  mode : BPMode
  bp : BP mode.Entry

namespace BaseBP

def createBp (name lru : String) (sizeInEntries ways branchIpSizeInBits : BitVec 32) :
    Except SimException BaseBP :=
  match BPMode.ofName name with
  | some mode => (BP.create mode.Entry lru sizeInEntries ways branchIpSizeInBits).map (⟨mode, ·⟩)
  | none => .error .bpInvalidMode

/-- The addresses of the configured predictor have 32 bits. -/
def createConfiguredBp (bpMode bpLru : String) (bpSize bpWays : BitVec 32) :
    Except SimException BaseBP :=
  createBp bpMode bpLru bpSize bpWays 32#32

end BaseBP

namespace BP

section Shape

variable {E : Type} [BPEntry E] {bp : BP E} {PC : Addr}

@[simp]
theorem pc_getBpInfo : (bp.getBpInfo PC).pc = PC := by
  unfold getBpInfo
  split <;> rfl

/-- A prediction that is not taken goes on to the next instruction. -/
theorem target_of_not_taken (h : (bp.getBpInfo PC).isTaken = false) :
    (bp.getBpInfo PC).target = PC + 4#64 := by
  unfold getBpInfo isHit isTaken getTarget at *
  rcases hw : bp.tags.readNoTouch PC with _ | way
  · simp
  · simp only [hw, Option.isSome_some, if_true] at h ⊢
    simp [h]

/-- A prediction of taken comes from an entry. -/
theorem isHit_of_taken (h : (bp.getBpInfo PC).isTaken = true) : (bp.getBpInfo PC).isHit = true := by
  unfold getBpInfo at *
  split_ifs at h ⊢
  rfl

end Shape

end BP

end MiptMips
