import MiptMips.Infra.ReservedKeys
import MiptMips.Infra.WayBounds
import MiptMips.Modules.BpuHistory

/-!
# The construction of a predictor

The tables of a predictor have a row for each way, and an entry for the number of entries over the
ways in it. The tag array chooses the row and the entry. One that always hits has no way to give,
one that grows gives more and more of them, and a set-associative one computes its number of sets in
32 bits, so that with very many ways it may have more sets than a row has entries. The division by
the number of ways comes before anything is checked.
-/

namespace MiptMips

open Machines

/-- The exceptions of the simulators, not of the standard library or the processor. -/
def SimException.IsTyped : SimException → Prop
  | .outOfRange | .lengthError | .divisionByZero => False
  | _ => True

/-- A call of a predictor. -/
inductive BPOperation where
  | update (bpUpd : BPInterface)
  | isTaken (PC : Addr)
  | isHit (PC : Addr)
  | getTarget (PC : Addr)
  | getBpInfo (PC : Addr)

namespace BP

variable {E : Type} [BPEntry E]

section Model

variable (bp : BP E)

def next : BPOperation → BP E
  | .update bpUpd => bp.update bpUpd
  | _ => bp

/-- The row and the entry that a query uses. -/
def queryIndices (PC : Addr) : List (ℤ × ℕ) :=
  (bp.tags.readNoTouch PC).toList.map fun way => (way, bp.tags.set PC)

/-- The rows and entries of the tables that an operation uses. -/
def indices : BPOperation → List (ℤ × ℕ)
  | .update bpUpd =>
    let (hit, tags) := bp.tags.read bpUpd.pc
    [(hit.getD (tags.write bpUpd.pc).1, bp.tags.set bpUpd.pc)]
  | .isHit _ => []
  | .isTaken PC | .getTarget PC | .getBpInfo PC => bp.queryIndices PC

/-- The tables are sized by the configuration. -/
def InBounds (sizeInEntries ways : BitVec 32) (index : ℤ × ℕ) : Prop :=
  0 ≤ index.1 ∧ index.1 < ways.toNat ∧ index.2 < (sizeInEntries / ways).toNat

/-- No operation of a run uses the tables out of their bounds. -/
def SafeRun (sizeInEntries ways : BitVec 32) : BP E → List BPOperation → Prop
  | _, [] => True
  | bp, op :: ops => (∀ index ∈ bp.indices op, InBounds sizeInEntries ways index)
    ∧ SafeRun sizeInEntries ways (bp.next op) ops

end Model

section Simple

variable {sizeInEntries ways : BitVec 32} {size : CacheTagArraySize} {bp : BP E}

/-- The tags are set-associative, and give only ways that there are. -/
def Regular (size : CacheTagArraySize) (bp : BP E) : Prop :=
  ∃ tags, bp.tags = .simple tags ∧ tags.size = size ∧ tags.Bounded size.ways.toNat

theorem Regular.next (h : bp.Regular size) (hways : 0 < size.ways.toNat) (op : BPOperation) :
    (bp.next op).Regular size := by
  cases op with
  | update u =>
    rcases h with ⟨tags, htags, rfl, hbounded⟩
    rcases hway : tags.readNoTouch u.pc with _ | way
    · exact ⟨(tags.write u.pc).2, by rw [next, update_miss htags hway], rfl,
        hbounded.write hways u.pc⟩
    · exact ⟨(tags.read u.pc).2, by rw [next, update_hit htags hway],
        SimpleCacheTagArray.size_read _, hbounded.read u.pc⟩
  | isTaken | isHit | getTarget | getBpInfo => exact h

omit [BPEntry E] in
theorem Regular.queryIndices (h : bp.Regular size) (PC : Addr) :
    ∀ index ∈ bp.queryIndices PC, 0 ≤ index.1 ∧ index.1 < size.ways.toNat
      ∧ index.2 = size.set PC := by
  rcases h with ⟨tags, htags, rfl, hbounded⟩
  unfold BP.queryIndices
  rw [htags]
  rcases hway : tags.readNoTouch PC with _ | way
  · simp [CacheTagArray.readNoTouch, hway]
  · have hlt := hbounded.readNoTouch hway
    simpa [CacheTagArray.readNoTouch, hway, CacheTagArray.set] using hlt

omit [BPEntry E] in
/-- An operation uses a row that there is, and the entry of the set. -/
theorem Regular.indices (h : bp.Regular size) (hways : 0 < size.ways.toNat) (op : BPOperation) :
    ∀ index ∈ bp.indices op, 0 ≤ index.1 ∧ index.1 < size.ways.toNat
      ∧ ∃ PC, index.2 = size.set PC := by
  intro index hindex
  have hquery : ∀ PC, index ∈ bp.queryIndices PC → 0 ≤ index.1 ∧ index.1 < size.ways.toNat
      ∧ ∃ PC, index.2 = size.set PC := fun PC hmem =>
    let ⟨hpos, hlt, hset⟩ := h.queryIndices PC index hmem
    ⟨hpos, hlt, PC, hset⟩
  cases op with
  | update u =>
    rcases h with ⟨tags, htags, rfl, hbounded⟩
    simp only [BP.indices, htags, CacheTagArray.read, CacheTagArray.write, CacheTagArray.set,
      SimpleCacheTagArray.read_eq, List.mem_singleton] at hindex
    rcases hindex with rfl
    rcases hway : tags.readNoTouch u.pc with _ | way
    · have hlt := (hbounded.read u.pc).way_write hways u.pc
      exact ⟨by simp, by simpa using hlt, u.pc, rfl⟩
    · have hlt := hbounded.readNoTouch hway
      exact ⟨by simp, by simpa using hlt, u.pc, rfl⟩
  | isHit => cases hindex
  | isTaken PC | getTarget PC | getBpInfo PC => exact hquery PC hindex

theorem Regular.safeRun (hways : 0 < size.ways.toNat)
    (hset : ∀ PC, size.set PC < (sizeInEntries / size.ways).toNat) :
    ∀ {bp : BP E} {ops : List BPOperation}, bp.Regular size →
      SafeRun sizeInEntries size.ways bp ops
  | _, [], _ => trivial
  | bp, op :: ops, h => by
    refine ⟨fun index hindex => ?_, Regular.safeRun hways hset (h.next hways op)⟩
    rcases h.indices hways op index hindex with ⟨hpos, hlt, PC, hPC⟩
    exact ⟨hpos, hlt, by rw [hPC]; exact hset PC⟩

/-- All runs of a set-associative predictor are safe if the sets of all addresses have an entry. -/
theorem Regular.safeRun_iff (h : bp.Regular size) (hways : 0 < size.ways.toNat) :
    (∀ ops, SafeRun sizeInEntries size.ways bp ops)
      ↔ ∀ PC, size.set PC < (sizeInEntries / size.ways).toNat := by
  constructor
  · intro hsafe PC
    rcases h with ⟨tags, htags, rfl, -⟩
    have hupdate := (hsafe [.update { pc := PC }]).1 _ (.head _)
    have hin := hupdate.2.2
    rwa [htags] at hin
  · exact fun hset ops => Regular.safeRun hways hset h

end Simple

section Unbounded

variable {sizeInEntries ways : BitVec 32} {bp : BP E}

/-- The array that always hits gives way -1. -/
theorem not_safeRun_alwaysHit (h : bp.tags = .alwaysHit) :
    ¬ SafeRun sizeInEntries ways bp [.update {}] := by
  intro hsafe
  have hin := hsafe.1 _ (.head _)
  rw [h] at hin
  exact absurd hin.1 (by decide)

/-- An address above 32 bits. -/
def far (k : ℕ) : Addr := BitVec.ofNat 64 (2 ^ 32 + k)

theorem toNat_far {k : ℕ} (hk : k ≤ 2 ^ 32) : (far k).toNat = 2 ^ 32 + k := by
  rw [far, BitVec.toNat_ofNat, Nat.mod_eq_of_lt (by omega)]

/-- After `k` far addresses, the next one is not there. -/
def Grown (k : ℕ) (bp : BP E) : Prop :=
  ∃ tags, bp.tags = .infinite tags ∧ tags.tags.length = k
    ∧ ∀ addr way, tags.lookupHelper.find addr = some way → addr.toNat < 2 ^ 32 + k

/-- An array that grows gives the next address the next way. -/
theorem Grown.update {k : ℕ} (h : bp.Grown k) (hk : k < 2 ^ 32) :
    bp.indices (.update { pc := far k }) = [((k : ℤ), 0)]
      ∧ (bp.update { pc := far k }).Grown (k + 1) := by
  rcases h with ⟨tags, htags, rfl, hold⟩
  have hmiss : tags.readNoTouch (far tags.tags.length) = none := by
    rcases hway : tags.readNoTouch (far tags.tags.length) with _ | way
    · rfl
    · have hlt := hold _ _ hway
      rw [toNat_far hk.le] at hlt
      omega
  constructor
  · simp [indices, htags, CacheTagArray.read, CacheTagArray.write, CacheTagArray.set,
      InfiniteCacheTagArray.write, hmiss]
  · refine ⟨(tags.write (far tags.tags.length)).2, ?_, ?_, fun addr way hway => ?_⟩
    · unfold BP.update
      simp [htags, CacheTagArray.read, CacheTagArray.write, hmiss]
    · simp [InfiniteCacheTagArray.write, hmiss]
    · rw [InfiniteCacheTagArray.write, hmiss] at hway
      by_cases hkey : addr = far tags.tags.length
      · rw [hkey, toNat_far hk.le]
        omega
      · rw [DenseHashMap.find_emplace_ne hkey] at hway
        have hlt := hold _ _ hway
        omega

/-- It runs out of rows. -/
theorem Grown.not_safeRun : ∀ (left : ℕ) {k : ℕ} {bp : BP E}, bp.Grown k → k + left = ways.toNat →
    ¬ SafeRun sizeInEntries ways bp
      ((List.range' k (left + 1)).map fun i => .update { pc := far i })
  | 0, k, bp, h, hleft, hsafe => by
    have hlt := ways.isLt
    have hin := hsafe.1 ((k : ℤ), 0) (by rw [(h.update (by omega)).1]; exact .head _)
    have hrow := hin.2.1
    simp only at hrow
    omega
  | left + 1, k, bp, h, hleft, hsafe => by
    have hlt := ways.isLt
    rw [List.range'_succ, List.map_cons] at hsafe
    exact Grown.not_safeRun left (h.update (by omega)).2 (by omega) hsafe.2

end Unbounded

end BP

namespace BP

variable {E : Type} [BPEntry E] {bp : BP E} {lru : String} {sizeInEntries ways bits : BitVec 32}

section Spec

/-- The geometry of the tags: a line stands for one instruction. -/
def geometry (sizeInEntries ways bits : BitVec 32) : CacheTagArraySize :=
  ⟨sizeInEntries, ways, 4#32, bits⟩

/-- A construction throws an exception of the simulators, or all runs are safe. -/
structure CreatedSafe (sizeInEntries ways : BitVec 32) (created : Except SimException (BP E)) :
    Prop where
  error : ∀ e, created = .error e → e.IsTyped
  ok : ∀ bp, created = .ok bp → ∀ ops, SafeRun sizeInEntries ways bp ops

/-- The product of the number of ways and the granularity is not zero in 32 bits and, with LRU, the
sets that it leads to have their entries in the rows. -/
def Fits (lru : String) (sizeInEntries ways bits : BitVec 32) : Prop :=
  4#32 * ways ≠ 0#32 ∧ (lru = "LRU" → sizeInEntries % (4#32 * ways) = 0#32 →
    min (sizeInEntries / (4#32 * ways)).toNat (2 ^ (bits.toNat - 2))
      ≤ (sizeInEntries / ways).toNat)

/-- There are ways, the policy is one of a cache, and what passes the checks of a cache fits. -/
def SafeConfig (lru : String) (sizeInEntries ways bits : BitVec 32) : Prop :=
  ways ≠ 0#32 ∧ lru ≠ "always_hit" ∧ lru ≠ "infinite"
    ∧ (PseudoLRU.isPowerOfTwo sizeInEntries.toNat = true → 0 < bits.toNat → bits.toNat ≤ 32 →
      Fits lru sizeInEntries ways bits)

end Spec

section Create

theorem not_createdSafe_zero :
    ¬ CreatedSafe sizeInEntries ways (create E lru sizeInEntries 0#32 bits) :=
  fun h => h.error .divisionByZero rfl

theorem not_createdSafe_alwaysHit (hways : ways ≠ 0#32) :
    ¬ CreatedSafe sizeInEntries ways (create E "always_hit" sizeInEntries ways bits) := by
  intro h
  have hok : create E "always_hit" sizeInEntries ways bits
      = .ok ⟨fun _ _ => BPEntry.default, fun _ _ => 0#64, .alwaysHit⟩ := if_neg hways
  exact not_safeRun_alwaysHit rfl (h.ok _ hok _)

theorem not_createdSafe_infinite (hways : ways ≠ 0#32) :
    ¬ CreatedSafe sizeInEntries ways (create E "infinite" sizeInEntries ways bits) := by
  intro h
  have hok : create E "infinite" sizeInEntries ways bits
      = .ok ⟨fun _ _ => BPEntry.default, fun _ _ => 0#64, .infinite .create⟩ := if_neg hways
  have hgrown : Grown 0 (⟨fun _ _ => BPEntry.default, fun _ _ => 0#64, .infinite .create⟩ : BP E) :=
    ⟨.create, rfl, rfl, fun addr way hway => by
      rw [InfiniteCacheTagArray.create, DenseHashMap.find_create] at hway
      cases hway⟩
  exact hgrown.not_safeRun ways.toNat (Nat.zero_add _) (h.ok _ hok _)

/-- A set-associative predictor: a size that its tags refuse is an invalid mode. -/
theorem create_eq (hways : ways ≠ 0#32) (hhit : lru ≠ "always_hit") (hinfinite : lru ≠ "infinite") :
    create E lru sizeInEntries ways bits
      = match SimpleCacheTagArray.create (geometry sizeInEntries ways bits) lru with
        | .ok tags => .ok ⟨fun _ _ => BPEntry.default, fun _ _ => 0#64, .simple tags⟩
        | .error .cacheTagArrayInvalidSize => .error .bpInvalidMode
        | .error e => .error e := by
  rw [create, if_neg hways, CacheTagArray.create, if_neg hhit, if_neg hinfinite, geometry]
  rcases SimpleCacheTagArray.create ⟨sizeInEntries, ways, 4#32, bits⟩ lru with e | tags
  · cases e <;> rfl
  · rfl

/-- A set-associative array is refused with an exception of the simulators, but for a division. -/
theorem error_of_create {size : CacheTagArraySize} {e : SimException} (hways : size.ways ≠ 0#32)
    (h : SimpleCacheTagArray.create size lru = .error e) :
    e = .divisionByZero ∧ size.check = .error .divisionByZero
      ∨ (e = .cacheTagArrayInvalidSize ∨ e = .cacheReplacement)
        ∧ size.check ≠ .error .divisionByZero := by
  unfold SimpleCacheTagArray.create at h
  rcases hcheck : size.check with e' | u
  · rw [hcheck] at h
    cases h
    rcases CacheTagArraySize.error_of_check hcheck with rfl | rfl <;> simp
  · have hpos : size.ways.toNat ≠ 0 := fun h0 => hways (BitVec.eq_of_toNat_eq h0)
    have hr : CacheReplacement.create lru size.ways.toNat = .error e := by
      rw [hcheck] at h
      rcases hr : CacheReplacement.create lru size.ways.toNat with e' | r <;> rw [hr] at h <;> cases h
      rfl
    unfold CacheReplacement.create PseudoLRU.create at hr
    rw [if_neg hpos] at hr
    split_ifs at hr <;> cases hr <;> simp

/-- The array of a set-associative predictor: what is left is that its sets have their entries. -/
theorem createdSafe_iff (hways : ways ≠ 0#32) (hhit : lru ≠ "always_hit")
    (hinfinite : lru ≠ "infinite") :
    CreatedSafe sizeInEntries ways (create E lru sizeInEntries ways bits)
      ↔ (geometry sizeInEntries ways bits).check ≠ .error .divisionByZero
        ∧ ∀ tags, SimpleCacheTagArray.create (geometry sizeInEntries ways bits) lru = .ok tags →
          ∀ PC, (geometry sizeInEntries ways bits).set PC < (sizeInEntries / ways).toNat := by
  have hpos : 0 < ways.toNat := Nat.pos_of_ne_zero fun h0 => hways (BitVec.eq_of_toNat_eq h0)
  rw [create_eq hways hhit hinfinite]
  rcases hcreate : SimpleCacheTagArray.create (geometry sizeInEntries ways bits) lru with e | tags
  · rcases error_of_create hways hcreate with ⟨rfl, hcheck⟩ | ⟨he, hcheck⟩
    · exact iff_of_false (fun h => h.error _ rfl) fun h => h.1 hcheck
    · refine iff_of_true ?_ ⟨hcheck, fun _ h => nomatch h⟩
      rcases he with rfl | rfl
      · exact ⟨fun e h => by cases h; trivial, fun bp h => nomatch h⟩
      · exact ⟨fun e h => by cases h; trivial, fun bp h => nomatch h⟩
  · rcases SimpleCacheTagArray.create_cases hcreate with ⟨hcheck, r, -, htags⟩
    have hregular : Regular (geometry sizeInEntries ways bits)
        (⟨fun _ _ => BPEntry.default, fun _ _ => 0#64, .simple tags⟩ : BP E) :=
      ⟨tags, rfl, by rw [htags], SimpleCacheTagArray.bounded_create hcreate⟩
    have hsafe : (∀ ops, SafeRun sizeInEntries ways _ ops) ↔ _ := hregular.safeRun_iff hpos
    constructor
    · intro h
      refine ⟨by rw [hcheck]; exact nofun, fun _ _ => hsafe.1 (h.ok _ rfl)⟩
    · rintro ⟨-, hset⟩
      refine ⟨fun e he => (nomatch he), fun bp hbp => ?_⟩
      cases hbp
      exact hsafe.2 (hset tags rfl)

end Create

section Fits

theorem checked_geometry (hways : ways ≠ 0#32)
    (hpower : PseudoLRU.isPowerOfTwo sizeInEntries.toNat = true) (hpos : 0 < bits.toNat)
    (hle : bits.toNat ≤ 32) : (geometry sizeInEntries ways bits).Checked :=
  ⟨hways, hpos, hle, hpower, show PseudoLRU.isPowerOfTwo (4#32).toNat = true by decide⟩

theorem check_geometry (h : (geometry sizeInEntries ways bits).Checked) :
    (geometry sizeInEntries ways bits).check
      = if 4#32 * ways = 0#32 then .error .divisionByZero
        else if sizeInEntries % (4#32 * ways) = 0#32 then .ok ()
        else .error .cacheTagArrayInvalidSize := h.check_eq

theorem set_lt_iff (h : (geometry sizeInEntries ways bits).check = .ok ()) :
    (∀ PC, (geometry sizeInEntries ways bits).set PC < (sizeInEntries / ways).toNat)
      ↔ min (sizeInEntries / (4#32 * ways)).toNat (2 ^ (bits.toNat - 2))
        ≤ (sizeInEntries / ways).toNat := by
  rcases CacheTagArraySize.regular_of_check h with ⟨lineBits, indexBits, hregular⟩
  have hset := hregular.set_lt_iff (n := (sizeInEntries / ways).toNat) rfl
  rw [hset, CacheTagArraySize.sets, BitVec.mul_comm]
  rfl

/-- Four times a power of two that is not zero in 32 bits has not wrapped around. -/
theorem toNat_mul_of_isPowerOfTwo (hpower : PseudoLRU.isPowerOfTwo ways.toNat = true)
    (hzero : 4#32 * ways ≠ 0#32) : (4#32 * ways).toNat = 4 * ways.toNat := by
  rcases PseudoLRU.isPowerOfTwo_iff.1 hpower with ⟨k, hk⟩
  have hproduct : (4#32 * ways).toNat = 4 * 2 ^ k % 2 ^ 32 := by
    rw [BitVec.toNat_mul, hk]
    rfl
  rw [hproduct, hk]
  refine Nat.mod_eq_of_lt ?_
  by_contra hge
  refine hzero (BitVec.eq_of_toNat_eq ?_)
  have hsplit : 30 ≤ k := by
    by_contra hlt
    have hle : 2 ^ k ≤ 2 ^ 29 := Nat.pow_le_pow_right (by decide) (by omega)
    omega
  rw [hproduct, ← Nat.add_sub_of_le hsplit, Nat.pow_add, ← Nat.mul_assoc]
  exact Nat.mul_mod_right _ _

theorem min_le_of_toNat_mul (hproduct : (4#32 * ways).toNat = 4 * ways.toNat)
    (hways : ways ≠ 0#32) (lines : ℕ) :
    min (sizeInEntries / (4#32 * ways)).toNat lines ≤ (sizeInEntries / ways).toNat := by
  have hpos : 0 < ways.toNat := Nat.pos_of_ne_zero fun h0 => hways (BitVec.eq_of_toNat_eq h0)
  refine Nat.le_trans (Nat.min_le_left _ _) ?_
  rw [BitVec.toNat_udiv, BitVec.toNat_udiv, hproduct]
  exact Nat.div_le_div_left (by omega) hpos

theorem fits_of_sets (hways : ways ≠ 0#32)
    (hcheck : (geometry sizeInEntries ways bits).check ≠ .error .divisionByZero)
    (hsets : ∀ tags, SimpleCacheTagArray.create (geometry sizeInEntries ways bits) lru = .ok tags →
      ∀ PC, (geometry sizeInEntries ways bits).set PC < (sizeInEntries / ways).toNat)
    (hpower : PseudoLRU.isPowerOfTwo sizeInEntries.toNat = true) (hpos : 0 < bits.toNat)
    (hle : bits.toNat ≤ 32) : Fits lru sizeInEntries ways bits := by
  have heq := check_geometry (checked_geometry hways hpower hpos hle)
  have hproduct : 4#32 * ways ≠ 0#32 := by
    intro hzero
    exact hcheck (by rw [heq, if_pos hzero])
  refine ⟨hproduct, fun hlru hmod => ?_⟩
  have hok : (geometry sizeInEntries ways bits).check = .ok () := by
    rw [heq, if_neg hproduct, if_pos hmod]
  have hcreate : ∃ tags, SimpleCacheTagArray.create (geometry sizeInEntries ways bits) lru
      = .ok tags := by
    rw [SimpleCacheTagArray.create, hok, hlru]
    exact ⟨_, rfl⟩
  rcases hcreate with ⟨tags, htags⟩
  rw [← set_lt_iff hok]
  exact hsets tags htags

theorem sets_of_fits (hways : ways ≠ 0#32)
    (hfits : PseudoLRU.isPowerOfTwo sizeInEntries.toNat = true → 0 < bits.toNat → bits.toNat ≤ 32 →
      Fits lru sizeInEntries ways bits) :
    (geometry sizeInEntries ways bits).check ≠ .error .divisionByZero
      ∧ ∀ tags, SimpleCacheTagArray.create (geometry sizeInEntries ways bits) lru = .ok tags →
        ∀ PC, (geometry sizeInEntries ways bits).set PC < (sizeInEntries / ways).toNat := by
  have hchecked : (geometry sizeInEntries ways bits).check ≠ .error .cacheTagArrayInvalidSize →
      (geometry sizeInEntries ways bits).Checked ∧ Fits lru sizeInEntries ways bits := fun hne =>
    let h := CacheTagArraySize.checked_of_ne hne
    ⟨h, hfits h.sizeInBytes h.addrPos h.addrLe⟩
  constructor
  · intro hzero
    rcases hchecked (by rw [hzero]; exact nofun) with ⟨h, hproduct, -⟩
    rw [check_geometry h, if_neg hproduct] at hzero
    split_ifs at hzero
    cases hzero
  · intro tags htags
    rcases SimpleCacheTagArray.create_cases htags with ⟨hok, r, hr, -⟩
    rcases hchecked (by rw [hok]; exact nofun) with ⟨h, hproduct, hlru⟩
    rw [set_lt_iff hok]
    rcases (CacheReplacement.create_cases hr).2 with hpolicy | ⟨-, hpower⟩
    · refine hlru hpolicy ?_
      have heq := check_geometry h
      rw [hok, if_neg hproduct] at heq
      split_ifs at heq with hmod
      exact hmod
    · exact min_le_of_toNat_mul (toNat_mul_of_isPowerOfTwo hpower hproduct) hways _

end Fits

theorem createdSafe_iff_safeConfig :
    CreatedSafe sizeInEntries ways (create E lru sizeInEntries ways bits)
      ↔ SafeConfig lru sizeInEntries ways bits := by
  by_cases hways : ways = 0#32
  · subst hways
    exact iff_of_false not_createdSafe_zero fun h => h.1 rfl
  · by_cases hhit : lru = "always_hit"
    · subst hhit
      exact iff_of_false (not_createdSafe_alwaysHit hways) fun h => h.2.1 rfl
    · by_cases hinfinite : lru = "infinite"
      · subst hinfinite
        exact iff_of_false (not_createdSafe_infinite hways) fun h => h.2.2.1 rfl
      · rw [createdSafe_iff hways hhit hinfinite]
        constructor
        · rintro ⟨hcheck, hsets⟩
          exact ⟨hways, hhit, hinfinite, fits_of_sets hways hcheck hsets⟩
        · rintro ⟨-, -, -, hfits⟩
          exact sets_of_fits hways hfits

end BP

namespace BaseBP

variable {name lru : String} {sizeInEntries ways bits : BitVec 32}

/-- The construction throws an exception of the simulators, or the predictor uses its tables within
their bounds in all runs. -/
structure ConstructionSafe (name lru : String) (sizeInEntries ways bits : BitVec 32) : Prop where
  error : ∀ e, createBp name lru sizeInEntries ways bits = .error e → e.IsTyped
  ok : ∀ base, createBp name lru sizeInEntries ways bits = .ok base →
    ∀ ops, base.bp.SafeRun sizeInEntries ways ops

theorem constructionSafe_of_mode {mode : BPMode} (h : BPMode.ofName name = some mode) :
    ConstructionSafe name lru sizeInEntries ways bits
      ↔ BP.CreatedSafe sizeInEntries ways
        (BP.create mode.Entry lru sizeInEntries ways bits) := by
  have hcreate : createBp name lru sizeInEntries ways bits
      = (BP.create mode.Entry lru sizeInEntries ways bits).map (⟨mode, ·⟩) := by
    rw [createBp, h]
  rcases hbp : BP.create mode.Entry lru sizeInEntries ways bits with e | bp <;>
    rw [hbp] at hcreate
  · constructor
    · exact fun hsafe => ⟨fun e' he => by cases he; exact hsafe.error e hcreate,
        fun bp hok => (nomatch hok)⟩
    · intro hsafe
      refine ⟨fun e' he => ?_, fun base hok => ?_⟩
      · rw [hcreate] at he
        cases he
        exact hsafe.error e rfl
      · rw [hcreate] at hok
        cases hok
  · constructor
    · exact fun hsafe => ⟨fun e he => (nomatch he),
        fun bp' hok => by cases hok; exact hsafe.ok ⟨mode, bp⟩ hcreate⟩
    · intro hsafe
      refine ⟨fun e he => ?_, fun base hok => ?_⟩
      · rw [hcreate] at he
        cases he
      · rw [hcreate] at hok
        cases hok
        exact hsafe.ok bp rfl

/-- An unknown mode is refused; otherwise the construction is safe for the safe configurations. -/
theorem constructionSafe_iff (name lru : String) (sizeInEntries ways bits : BitVec 32) :
    ConstructionSafe name lru sizeInEntries ways bits
      ↔ BPMode.ofName name = none ∨ BP.SafeConfig lru sizeInEntries ways bits := by
  rcases hmode : BPMode.ofName name with _ | mode
  · have hcreate : createBp name lru sizeInEntries ways bits = .error .bpInvalidMode := by
      rw [createBp, hmode]
    refine iff_of_true ⟨fun e he => ?_, fun base hok => ?_⟩ (.inl rfl)
    · rw [hcreate] at he
      cases he
      trivial
    · rw [hcreate] at hok
      cases hok
  · rw [constructionSafe_of_mode hmode, BP.createdSafe_iff_safeConfig]
    simp

/-- No ways: the division throws nothing. And a predictor that always hits has no row to use. -/
theorem not_constructionSafe :
    ¬ ConstructionSafe "saturating_two_bits" "LRU" 128#32 0#32 32#32
      ∧ ¬ ConstructionSafe "saturating_two_bits" "always_hit" 128#32 16#32 32#32 := by
  constructor
  · exact fun h => h.error .divisionByZero rfl
  · exact fun h => BP.not_safeRun_alwaysHit rfl (h.ok ⟨.saturatingTwoBits, _⟩ rfl _)

end BaseBP

end MiptMips
