import Mathlib.Data.Nat.Notation
import Mathlib.Data.List.Sort

/-!
# One port for jobs of different lengths

In each tick at most one job starts. A job of latency `l` that starts in tick `d` is done in tick
`d + 1 + l`, unless a flush comes in between. A countdown keeps how long the last job still has to
go, and a job may start only when it would not be done before that. Then the jobs that no flush
hits are done one at a time and in their order.
-/

namespace Machines

structure Schedule where
  length : ℕ
  /-- The latency of the job that starts in a tick. -/
  started : ℕ → Option ℕ
  flush : ℕ → Bool
  left : ℕ → ℕ
  pos : ∀ {d l}, d < length → started d = some l → 0 < l
  flushed : ∀ {c}, c < length → flush (c + 1) = true → left (c + 1) = 0
  restarted : ∀ {c l}, c < length → flush (c + 1) = false → started c = some l → left (c + 1) = l
  counted : ∀ {c}, c < length → flush (c + 1) = false → started c = none →
    left (c + 1) = left c - 1
  admitted : ∀ {c l}, c < length → started c = some l → left c ≤ l ∨ left c ≤ 1

namespace Schedule

variable (schedule : Schedule)

def doneAt (d l : ℕ) : ℕ := d + 1 + l

/-- No flush has hit the job by tick `c`. -/
def Alive (d l c : ℕ) : Prop := ∀ v, d < v → v ≤ c → v < doneAt d l → schedule.flush v = false

variable {schedule} {c c' d d' l l' : ℕ}

theorem Alive.mono (h : schedule.Alive d l c) (hc : c' ≤ c) : schedule.Alive d l c' :=
  fun v hv hv' => h v hv (by omega)

/-- The countdown bounds the end of all jobs that are alive. -/
theorem doneAt_le (hd : schedule.started d = some l) :
    ∀ {c}, c ≤ schedule.length → d < c → schedule.Alive d l c → doneAt d l ≤ c + schedule.left c
  | 0, _, hdc, _ => by omega
  | c + 1, hc, hdc, ha => by
    have hlt : c < schedule.length := by omega
    rcases hf : schedule.flush (c + 1) with _ | _
    · rcases Nat.lt_or_ge d c with hdc' | hdc'
      · have ih := doneAt_le hd (Nat.le_of_lt hlt) hdc' (ha.mono (Nat.le_succ c))
        rcases hs : schedule.started c with _ | l'
        · have := schedule.counted hlt hf hs
          omega
        · have := schedule.restarted hlt hf hs
          have := schedule.pos hlt hs
          have := schedule.admitted hlt hs
          omega
      · obtain rfl : d = c := by omega
        rw [schedule.restarted hlt hf hd]
        exact Nat.le_refl _
    · rcases Nat.lt_or_ge (c + 1) (doneAt d l) with hlt' | hge
      · rw [ha (c + 1) (by omega) (Nat.le_refl _) hlt'] at hf
        cases hf
      · omega

/-- Jobs are done in their order. -/
theorem doneAt_lt (hd : schedule.started d = some l) (hd' : schedule.started d' = some l')
    (hlt : d < d') (hn : d' < schedule.length) (ha : schedule.Alive d l d') :
    doneAt d l < doneAt d' l' := by
  have hle := doneAt_le hd (Nat.le_of_lt hn) hlt ha
  have := schedule.pos hn hd'
  have := schedule.admitted hn hd'
  unfold doneAt at hle ⊢
  omega

/-- At most one job is done in a tick. -/
theorem eq_of_doneAt_eq (hd : schedule.started d = some l) (hd' : schedule.started d' = some l')
    (hn : d < schedule.length) (hn' : d' < schedule.length) (ha : schedule.Alive d l d')
    (ha' : schedule.Alive d' l' d) (h : doneAt d l = doneAt d' l') : d = d' := by
  rcases Nat.lt_trichotomy d d' with hlt | heq | hgt
  · have := doneAt_lt hd hd' hlt hn' ha
    omega
  · exact heq
  · have := doneAt_lt hd' hd hgt hn ha'
    omega

section Done

variable (schedule) (n : ℕ)

/-- By tick `n` the job that starts in tick `d` is done. -/
def DoneBy (d : ℕ) : Prop := ∃ l ∈ schedule.started d, doneAt d l ≤ n ∧ schedule.Alive d l n

/-- The job that starts in tick `d` is done in tick `n`. -/
def DoneIn (d : ℕ) : Prop := ∃ l ∈ schedule.started d, doneAt d l = n ∧ schedule.Alive d l n

instance (d l c : ℕ) : Decidable (schedule.Alive d l c) :=
  decidable_of_iff (∀ v < c + 1, d < v → v < doneAt d l → schedule.flush v = false)
    ⟨fun h v hd hc => h v (Nat.lt_succ_of_le hc) hd,
      fun h v hc hd => h v hd (Nat.le_of_lt_succ hc)⟩

instance : DecidablePred (schedule.DoneBy n) := fun _ => inferInstanceAs (Decidable (∃ _ ∈ _, _))

instance : DecidablePred (schedule.DoneIn n) := fun _ => inferInstanceAs (Decidable (∃ _ ∈ _, _))

/-- The jobs that are done by tick `n`, in the order of their starts. -/
def doneBy : List ℕ := (List.range n).filter (schedule.DoneBy n)

def doneIn : List ℕ := (List.range n).filter (schedule.DoneIn n)

variable {schedule n}

theorem mem_doneBy : d ∈ schedule.doneBy n ↔ schedule.DoneBy n d := by
  simp only [doneBy, List.mem_filter, List.mem_range, decide_eq_true_eq, and_iff_right_iff_imp]
  rintro ⟨l, -, hl, -⟩
  unfold doneAt at hl
  omega

theorem mem_doneIn : d ∈ schedule.doneIn n ↔ schedule.DoneIn n d := by
  simp only [doneIn, List.mem_filter, List.mem_range, decide_eq_true_eq, and_iff_right_iff_imp]
  rintro ⟨l, -, hl, -⟩
  unfold doneAt at hl
  omega

theorem doneBy_succ_iff :
    schedule.DoneBy (n + 1) d ↔ schedule.DoneBy n d ∨ schedule.DoneIn (n + 1) d := by
  constructor
  · rintro ⟨l, hl, hd, ha⟩
    rcases Nat.lt_or_eq_of_le hd with hd | hd
    · exact .inl ⟨l, hl, Nat.le_of_lt_succ hd, ha.mono (Nat.le_succ n)⟩
    · exact .inr ⟨l, hl, hd, ha⟩
  · rintro (⟨l, hl, hd, ha⟩ | ⟨l, hl, hd, ha⟩)
    · exact ⟨l, hl, Nat.le_succ_of_le hd, fun v hv _ hlt => ha v hv (by omega) hlt⟩
    · exact ⟨l, hl, Nat.le_of_eq hd, ha⟩

/-- Who is done by now started before those that are done next. -/
theorem lt_of_doneIn (hn : n < schedule.length) (h : schedule.DoneBy n d)
    (h' : schedule.DoneIn (n + 1) d') : d < d' := by
  obtain ⟨l, hl, hd, -⟩ := h
  obtain ⟨l', hl', hd', ha'⟩ := h'
  have hdn : d < n := by unfold doneAt at hd; omega
  rcases Nat.lt_trichotomy d d' with hlt | rfl | hgt
  · exact hlt
  · obtain rfl : l = l' := Option.some.inj (hl.symm.trans hl')
    omega
  · have := doneAt_lt hl' hl hgt (by omega) (ha'.mono (by omega))
    omega

theorem pairwise_range_filter (p : ℕ → Prop) [DecidablePred p] (n : ℕ) :
    ((List.range n).filter p).Pairwise (· < ·) :=
  List.Pairwise.filter _ List.pairwise_lt_range

/-- The jobs done by the next tick are those done by now and then those done in it. -/
theorem doneBy_succ (hn : n < schedule.length) :
    schedule.doneBy (n + 1) = schedule.doneBy n ++ schedule.doneIn (n + 1) := by
  refine List.Pairwise.eq_of_mem_iff (r := (· < ·)) (pairwise_range_filter _ _) ?_ fun d => ?_
  · refine List.pairwise_append.2 ⟨pairwise_range_filter _ _, pairwise_range_filter _ _, ?_⟩
    exact fun d hd d' hd' => lt_of_doneIn hn (mem_doneBy.1 hd) (mem_doneIn.1 hd')
  · rw [List.mem_append, mem_doneBy, mem_doneBy, mem_doneIn, doneBy_succ_iff]

/-- At most one job is done in a tick. -/
theorem doneIn_unique (hn : n ≤ schedule.length) (h : schedule.DoneIn n d)
    (h' : schedule.DoneIn n d') : d = d' := by
  obtain ⟨l, hl, hd, ha⟩ := h
  obtain ⟨l', hl', hd', ha'⟩ := h'
  have := hd
  have := hd'
  unfold doneAt at *
  exact eq_of_doneAt_eq hl hl' (by omega) (by omega) (ha.mono (by omega)) (ha'.mono (by omega))
    (by unfold doneAt; omega)

theorem doneIn_eq (hn : n ≤ schedule.length) (h : schedule.DoneIn n d) :
    schedule.doneIn n = [d] := by
  refine List.Pairwise.eq_of_mem_iff (r := (· < ·)) (pairwise_range_filter _ _)
    (List.pairwise_singleton _ _) fun d' => ?_
  rw [mem_doneIn, List.mem_singleton]
  exact ⟨fun h' => doneIn_unique hn h' h, fun h' => h' ▸ h⟩

theorem doneIn_eq_nil (h : ∀ d, ¬ schedule.DoneIn n d) : schedule.doneIn n = [] :=
  List.eq_nil_iff_forall_not_mem.2 fun d hd => h d (mem_doneIn.1 hd)

end Done

end Schedule

end Machines
