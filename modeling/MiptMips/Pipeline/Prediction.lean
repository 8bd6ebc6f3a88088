import MiptMips.Modules.Backend
import MiptMips.Modules.Decode
import MiptMips.Pipeline.Straight

/-!
# Prediction checks

Decode checks a prediction by the decoded instruction, and Branch checks what is left of it by the
outcome. Together they accept a prediction for a jump only when it is right. An instruction that is
no jump never gets to Branch, and Decode accepts whatever is predicted for it: that is right unless
the branch target buffer still has a taken entry for its address, which an older instruction there,
or one at the same address in the lower 32 bits, left behind (`checks_sound_iff`).
-/

namespace MiptMips

variable {w : ℕ} {E : Type} [BPEntry E]

section Checks

/-- Branch does not object, or is not asked. -/
def branchAccepts (instr : FuncInstr w) (info : BPInterface) : Prop :=
  instr.isJump = false ∨ Branch.isMisprediction instr.execute info = false

/-- A prediction that both checks accept is right, and so is the target of Decode's redirect when
only Decode rejects it. -/
structure ChecksSound (instr : FuncInstr w) (info : BPInterface) : Prop where
  accepted : Decode.isMisprediction instr info = false → branchAccepts instr info →
    info.target = instr.execute.newPC
  redirected : Decode.isMisprediction instr info = true → branchAccepts instr info →
    instr.target = instr.execute.newPC

/-- The buffer does not send the address elsewhere: it has no entry for it, or one that is not
taken, or one whose target is the next word. -/
def BP.GoesOn (bp : BP E) (PC : Addr) : Prop :=
  ∀ way, bp.tags.readNoTouch PC = some way →
    bp.isWayTaken way PC (bp.targets way (bp.tags.set PC)) = true →
    bp.targets way (bp.tags.set PC) = PC + 4#64

theorem BP.goesOn_iff {bp : BP E} {PC : Addr} :
    bp.GoesOn PC ↔ (bp.getBpInfo PC).target = PC + 4#64 := by
  unfold GoesOn getBpInfo isHit getTarget
  rcases bp.tags.readNoTouch PC with _ | way
  · simp
  · simp only [Option.some.injEq, forall_eq', Option.isSome_some, if_true]
    split_ifs with ht <;> simp [ht]

variable {instr : FuncInstr w} {info : BPInterface}

@[simp]
theorem isDirectJump_execute : instr.execute.isDirectJump = instr.isDirectJump := by
  obtain ⟨_, _, _, _, _, _, _, h⟩ := executed_run (f := instr) instr.executor
  simp [FuncInstr.execute, FuncInstr.isDirectJump, h]

@[simp]
theorem isIndirectJump_execute : instr.execute.isIndirectJump = instr.isIndirectJump := by
  obtain ⟨_, _, _, _, _, _, _, h⟩ := executed_run (f := instr) instr.executor
  simp [FuncInstr.execute, FuncInstr.isIndirectJump, h]

@[simp]
theorem isCommonBranch_execute : instr.execute.isCommonBranch = instr.isCommonBranch := by
  obtain ⟨_, _, _, _, _, _, _, h⟩ := executed_run (f := instr) instr.executor
  simp [FuncInstr.execute, FuncInstr.isCommonBranch, h]

@[simp]
theorem isLikelyBranch_execute : instr.execute.isLikelyBranch = instr.isLikelyBranch := by
  obtain ⟨_, _, _, _, _, _, _, h⟩ := executed_run (f := instr) instr.executor
  simp [FuncInstr.execute, FuncInstr.isLikelyBranch, h]

/-- A taken prediction that Branch accepts is right. -/
theorem target_of_taken (ht : info.isTaken = true)
    (h : Branch.isMisprediction instr.execute info = false) :
    info.target = instr.execute.newPC := by
  unfold Branch.isMisprediction at h
  split_ifs at h
  simpa [ht] using h

/-- When Branch accepts a prediction from the buffer, the direction is right. -/
theorem isTaken_of_hit (hh : info.isHit = true)
    (h : Branch.isMisprediction instr.execute info = false) :
    instr.execute.isTaken = info.isTaken := by
  unfold Branch.isMisprediction at h
  split_ifs at h with _ hd
  simp only [hh, Bool.true_and, bne_iff_ne, ne_eq, not_not] at hd
  exact hd.symm

/-- What Branch accepts although it was not in the buffer. -/
theorem of_miss (hh : info.isHit = false)
    (h : Branch.isMisprediction instr.execute info = false) :
    instr.isIndirectJump = false
      ∧ (instr.isCommonBranch = true → instr.execute.isTaken = false)
      ∧ (instr.isLikelyBranch = true → instr.execute.isTaken = true) := by
  unfold Branch.isMisprediction at h
  split_ifs at h with hm
  simp only [hh, Bool.not_false, isCommonBranch_execute, isLikelyBranch_execute,
    isIndirectJump_execute, Bool.true_and, Bool.or_eq_true, Bool.and_eq_true, Bool.not_eq_true',
    not_or, not_and, Bool.not_eq_true, Bool.not_eq_false] at hm
  exact ⟨hm.2, hm.1.1, hm.1.2⟩

end Checks

section Sound

variable {instr : FuncInstr w} {info : BPInterface}

/-- What a prediction is made of: without an entry it is not taken, and not taken it goes on. -/
structure BPInterface.Shaped (info : BPInterface) (PC : Addr) : Prop where
  goesOn : info.isTaken = false → info.target = PC + 4#64
  hit : info.isTaken = true → info.isHit = true

theorem BP.shaped_getBpInfo (bp : BP E) (PC : Addr) : (bp.getBpInfo PC).Shaped PC :=
  ⟨BP.target_of_not_taken, BP.isHit_of_taken⟩

/-- Decode does not look at instructions that are no jumps. -/
theorem decode_accepts_other (h : instr.isJump = false) :
    Decode.isMisprediction instr info = false := by
  simp only [FuncInstr.isJump, Bool.or_eq_false_iff] at h
  obtain ⟨⟨hd, hb⟩, hi⟩ := h
  have hl : instr.isLikelyBranch = false := by
    simp only [FuncInstr.isBranch, Bool.or_eq_false_iff] at hb
    exact hb.2
  simp [Decode.isMisprediction, hd, hb, hi, hl]

/-- The prediction of a jump that both stages accept is right. -/
theorem accepted_jump (hi : StraightDecoded instr) (hs : info.Shaped instr.PC)
    (hd : Decode.isMisprediction instr info = false)
    (hb : Branch.isMisprediction instr.execute info = false) (hj : instr.isJump = true) :
    info.target = instr.execute.newPC := by
  rcases ht : info.isTaken with _ | _
  · -- the prediction goes on, and the jump is not taken either
    rw [hs.goesOn ht]
    refine (hi.notTaken ?_).symm
    have hnt : instr.execute.isTaken = false := by
      rcases hh : info.isHit with _ | _
      · obtain ⟨hind, hcom, -⟩ := of_miss hh hb
        simp only [Decode.isMisprediction, ht, hh, hind, Bool.not_false, Bool.and_true,
          Bool.or_false] at hd
        split_ifs at hd with hdir hlik
        simp only [Bool.not_eq_true] at hdir hlik
        have hc : instr.isCommonBranch = true := by
          simpa [FuncInstr.isJump, FuncInstr.isBranch, hdir, hlik, hind] using hj
        exact hcom hc
      · rw [isTaken_of_hit hh hb, ht]
    simp only [FuncInstr.isTaken, Bool.or_eq_false_iff] at hnt
    exact hnt.2
  · exact target_of_taken ht hb

/-- When only Decode rejects the prediction of a jump, its redirect is right. -/
theorem redirected_jump (hi : StraightDecoded instr) (hs : info.Shaped instr.PC)
    (hd : Decode.isMisprediction instr info = true)
    (hb : Branch.isMisprediction instr.execute info = false) (hj : instr.isJump = true) :
    instr.target = instr.execute.newPC := by
  rcases hdir : instr.isDirectJump with _ | _
  · rcases hind : instr.isIndirectJump with _ | _
    · -- a branch, which goes to its target when it is taken
      have hbr : instr.isBranch = true := by
        simpa [FuncInstr.isJump, hdir, hind] using hj
      refine (hi.newPC_branch hbr ?_).symm
      have hto : instr.execute.isTaken = instr.execute.isTakenBranch := by
        simp [FuncInstr.isTaken, hdir, hind]
      rw [← hto]
      rcases hh : info.isHit with _ | _
      · obtain ⟨-, -, hlik⟩ := of_miss hh hb
        have ht : info.isTaken = false := by
          by_contra ht
          simp [hs.hit (by simpa using ht)] at hh
        simp only [Decode.isMisprediction, hdir, hind, ht, Bool.or_self, Bool.false_eq_true,
          if_false, hh, Bool.not_false, Bool.and_true, Bool.and_false] at hd
        exact hlik (by simpa using hd)
      · simp only [Decode.isMisprediction, hdir, hind, hh, Bool.or_self, Bool.false_and,
          Bool.false_eq_true, if_false, Bool.not_true, Bool.and_false, Bool.and_eq_true] at hd
        rw [isTaken_of_hit hh hb]
        exact hd.2
    · -- an indirect jump that is not predicted taken is rejected by Branch too
      rcases hh : info.isHit with _ | _
      · obtain ⟨hno, -⟩ := of_miss hh hb
        simp [hno] at hind
      · have htk : info.isTaken = true := by
          rw [← isTaken_of_hit hh hb]
          simp [FuncInstr.isTaken, hind]
        have hbr : instr.isBranch = false := by
          simp only [FuncInstr.isIndirectJump, beq_iff_eq] at hind
          simp [FuncInstr.isBranch, FuncInstr.isCommonBranch, FuncInstr.isLikelyBranch, hind]
        have hl : instr.isLikelyBranch = false := by
          simp only [FuncInstr.isBranch, Bool.or_eq_false_iff] at hbr
          exact hbr.2
        simp [Decode.isMisprediction, htk, hdir, hbr, hl] at hd
  · exact (hi.newPC_directJump hdir).symm

end Sound

section Result

/-- The checks are sound exactly for the jumps, and for the other instructions whose address the
buffer does not send elsewhere. -/
theorem checks_sound_iff {instr : FuncInstr w} (h : Straight instr) (vSrc0 vSrc1 : BitVec w)
    (id : BitVec 64) (bp : BP E) :
    ChecksSound { instr with vSrc0 := vSrc0, vSrc1 := vSrc1, sequenceId := id }
        (bp.getBpInfo instr.PC)
      ↔ instr.isJump = true ∨ bp.GoesOn instr.PC := by
  have hi := h.decoded.withSources vSrc0 vSrc1 id
  have hs := bp.shaped_getBpInfo instr.PC
  have hjump : FuncInstr.isJump { instr with vSrc0 := vSrc0, vSrc1 := vSrc1, sequenceId := id }
      = instr.isJump := rfl
  rcases hj : instr.isJump with _ | _
  · rw [hj] at hjump
    have hn := hi.newPC_other hjump
    have hd : Decode.isMisprediction _ (bp.getBpInfo instr.PC) = false :=
      decode_accepts_other hjump
    constructor
    · intro hc
      right
      rw [BP.goesOn_iff, hc.accepted hd (.inl hjump), hn]
    · rintro (hf | hg)
      · simp at hf
      · rw [BP.goesOn_iff] at hg
        refine ⟨fun _ _ => by rw [hg, hn], fun hr => ?_⟩
        simp [hd] at hr
  · rw [hj] at hjump
    simp only [true_or, iff_true]
    refine ⟨fun hd hb => ?_, fun hd hb => ?_⟩
    · rcases hb with hf | hb
      · simp [hjump] at hf
      · exact accepted_jump hi hs hd hb hjump
    · rcases hb with hf | hb
      · simp [hjump] at hf
      · exact redirected_jump hi hs hd hb hjump

/-- The configured buffer, after an instruction at the address 16 jumped to 64. -/
def trainedBp (bp : BP BPEntryTwoBit) : BP BPEntryTwoBit := bp.update ⟨16#64, true, 64#64, true⟩

/-- `j 0x80` at the address 16 is checked soundly. -/
theorem checks_sound_iff_jump : ∃ bp,
    BP.create BPEntryTwoBit "pseudo-LRU" 128#32 16#32 32#32 = .ok bp
      ∧ ChecksSound
        { Mips.createInstr .mars .little 0x08000020#32 16#64 32 with
          vSrc0 := 0#32, vSrc1 := 0#32, sequenceId := 0#64 }
        ((trainedBp bp).getBpInfo 16#64) := by
  refine ⟨_, rfl, ?_⟩
  exact (checks_sound_iff (.mars .mars .little 0x08000020#32 16#64 (.inl rfl)) _ _ _ _).2 (.inl rfl)

/-- `addu $zero, $zero, $zero` is there now; the prediction to go on at 64 is accepted. -/
theorem stale_prediction_accepted : ∃ bp,
    BP.create BPEntryTwoBit "pseudo-LRU" 128#32 16#32 32#32 = .ok bp
      ∧ Straight (Mips.createInstr .mars .little 0x00000021#32 16#64 32)
      ∧ ¬ ChecksSound (Mips.createInstr .mars .little 0x00000021#32 16#64 32)
        ((trainedBp bp).getBpInfo 16#64) := by
  refine ⟨_, rfl, .mars _ _ _ _ (.inl rfl), fun h => ?_⟩
  exact absurd (h.accepted (by decide) (.inl (by decide))) (by decide +kernel)

end Result

end MiptMips
