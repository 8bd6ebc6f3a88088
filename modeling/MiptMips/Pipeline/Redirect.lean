import MiptMips.Memory.PlainMemory
import MiptMips.Mips.Instr
import MiptMips.Pipeline.FetchCycle

/-!
# Redirects during a miss

While Fetch waits for a line it keeps one target on the port of the predicted target. Of the
redirects that arrive together it keeps those of Branch and Decode before an external one, and an
external one only when nothing was kept before, whereas the direct path takes an external one first
and a later redirect before an earlier one. And when Decode signals a stall in the cycle in which
the wait is over, the kept target is passed over for the address that missed. The target at which
Fetch goes on is the right one exactly when neither makes a difference (`resume_iff`).
-/

namespace MiptMips

open Machines

variable {w : ℕ} {E M : Type} [BPEntry E] [FuncMemory M]

namespace Fetch

section Runs

variable (isa : ISA w)

/-- Cycles of Fetch, each with what it reads from the other modules and the memory it sees. -/
def run : Fetch w E × FetchOut w → List (FetchIn × M) → Fetch w E × FetchOut w
  | s, [] => s
  | s, (input, mem) :: inputs =>
    let (out, fetch) := s.1.clock input s.2 isa mem
    run (fetch, out) inputs

variable (M) in
/-- What Fetch gets into, from empty ports and a tag array and a predictor in any state. -/
inductive Reachable : Fetch w E × FetchOut w → Prop
  | create (config : FetchConfig) (bp : BP E) (tags : CacheTagArray) (endian : Endian)
    (capacity : ℕ) :
    Reachable ({ config, bp, tags, memory := .create w endian capacity }, {})
  | clock {fetch : Fetch w E} {ports : FetchOut w} (input : FetchIn) (mem : M) :
    Reachable (fetch, ports) →
    Reachable ((fetch.clock input ports isa mem).2, (fetch.clock input ports isa mem).1)

variable {isa} {s : Fetch w E × FetchOut w}

/-- Fetch is idle or waits for a line, and its instruction memory is coherent. -/
theorem Reachable.states (h : Reachable M isa s) :
    s.1.memory.Coherent isa ∧ (Idle s.1 s.2 ∨ ∃ n target, Missing n target s.1 s.2) := by
  induction h with
  | create config bp tags endian capacity =>
    exact ⟨InstrMemoryCached.coherent_create isa endian capacity, .inl ⟨rfl, rfl, fun _ => rfl⟩⟩
  | @clock fetch ports input mem _ ih =>
    obtain ⟨hc, hi | ⟨n, target, hm⟩⟩ := ih
    · rcases ht : selectTarget input ports with _ | target
      · obtain ⟨-, hi', hmem⟩ := hi.clock_bubble input isa mem ht
        exact ⟨by rw [hmem]; exact hc, .inl hi'⟩
      · rcases hi.clock_target input isa mem hc ht with ⟨-, hm', hmem⟩ | ⟨-, hi', hc', -⟩
        · exact ⟨by rw [hmem]; exact hc, .inr ⟨_, _, hm'⟩⟩
        · exact ⟨hc', .inl hi'⟩
    · have hmem := (fetch.clock_of_miss input isa mem hm.hitOrMiss).2.2
      refine ⟨by rw [hmem]; exact hc, ?_⟩
      cases n with
      | zero => exact .inl (hm.clock_zero input isa mem).2
      | succ n => exact .inr ⟨n, target, (hm.clock_succ input isa mem).2⟩

end Runs

section Saved

/-- The redirect that the direct path takes of those that arrive in one cycle. -/
def redirect (input : FetchIn) : Option Target :=
  input.externalTarget.or (input.flushTarget.or input.flushTargetFromDecode)

/-- The redirects of Branch and Decode. -/
def internalRedirect (input : FetchIn) : Option Target :=
  input.flushTarget.or input.flushTargetFromDecode

/-- The target to go on at after a miss: the last redirect, or the address that missed. -/
def expected (missed : Target) : List FetchIn → Target
  | [] => missed
  | input :: inputs => expected ((redirect input).getD missed) inputs

/-- What Fetch has kept at the end of a miss. -/
def saved : Option Target → List FetchIn → Option Target
  | kept, [] => kept
  | kept, input :: inputs =>
    saved ((internalRedirect input).or (kept.or input.externalTarget)) inputs

def lastRedirect (inputs : List FetchIn) : Option FetchIn :=
  inputs.reverse.find? fun input => (redirect input).isSome

def lastInternal (inputs : List FetchIn) : Option Target :=
  inputs.reverse.findSome? internalRedirect

def firstExternal (inputs : List FetchIn) : Option Target :=
  inputs.findSome? FetchIn.externalTarget

theorem selectTarget_eq (input : FetchIn) (ports : FetchOut w) : selectTarget input ports
    = (redirect input).or ((if input.stall then none else ports.target).or ports.holdPC) := by
  unfold selectTarget redirect
  rw [Option.or_assoc, Option.or_assoc]

theorem saveFlush_eq (input : FetchIn) (ports : FetchOut w) :
    saveFlush input ports = (internalRedirect input).or (ports.target.or input.externalTarget) := by
  unfold saveFlush internalRedirect
  rw [Option.or_assoc]

/-- A whole miss. -/
theorem Missing.run (isa : ISA w) {target : Target} :
    ∀ (inputs : List (FetchIn × M)) {n : ℕ} {fetch : Fetch w E} {ports : FetchOut w},
      Missing n target fetch ports → inputs.length = n + 1 →
      (Fetch.run isa (fetch, ports) inputs).2
        = { target := saved ports.target (inputs.map Prod.fst), holdPC := some target }
  | [], n, _, _, _, hl => by simp at hl
  | (input, mem) :: inputs, n, fetch, ports, h, hl => by
    rcases n with _ | n
    · obtain rfl : inputs = [] := by simpa using hl
      obtain ⟨ho, -⟩ := h.clock_zero input isa mem
      simp only [Fetch.run, ho, List.map_cons, List.map_nil, saved, saveFlush_eq]
    · obtain ⟨ho, hm⟩ := h.clock_succ input isa mem
      have hlen : inputs.length = n + 1 := by simpa using hl
      have := Missing.run isa inputs hm hlen
      simp only [Fetch.run, List.map_cons, saved]
      rw [this, ho, saveFlush_eq]

end Saved

section Condition

/-- The redirects of a miss do not overtake a trap that arrives last: those of Branch and Decode,
and otherwise an earlier trap, go to where the trap goes. -/
structure TrapKept (inputs : List FetchIn) : Prop where
  internal : ∀ input external target, lastRedirect inputs = some input →
    input.externalTarget = some external → lastInternal inputs = some target → target = external
  external : ∀ input external target, lastRedirect inputs = some input →
    input.externalTarget = some external → lastInternal inputs = none →
    firstExternal inputs = some target → target = external

/-- The miss makes no difference. Unless a redirect arrives in the very cycle in which Fetch goes
on, Decode must not signal a stall then when there was a redirect to elsewhere, and no redirect
may overtake a trap that arrives last. -/
def RedirectKept (missed : Target) (inputs : List FetchIn) (last : FetchIn) : Prop :=
  redirect last = none →
    if last.stall then ∀ input target, lastRedirect inputs = some input →
      redirect input = some target → target = missed
    else TrapKept inputs

theorem saved_eq : ∀ (inputs : List FetchIn) (kept : Option Target),
    saved kept inputs = (lastInternal inputs).or (kept.or (firstExternal inputs))
  | [], kept => by simp [saved, lastInternal, firstExternal]
  | input :: inputs, kept => by
    rw [saved, saved_eq inputs]
    simp only [lastInternal, firstExternal, List.reverse_cons, List.findSome?_append,
      List.findSome?_cons, List.findSome?_nil, Option.or_assoc]
    rcases internalRedirect input with _ | t <;> rcases kept with _ | k <;>
      rcases input.externalTarget with _ | e <;> simp

theorem expected_eq (missed : Target) : ∀ inputs : List FetchIn,
    expected missed inputs = ((lastRedirect inputs).bind redirect).getD missed := by
  intro inputs
  induction inputs generalizing missed with
  | nil => rfl
  | cons input inputs ih =>
    rw [expected, ih]
    simp only [lastRedirect, List.reverse_cons, List.find?_append]
    rcases h : inputs.reverse.find? (fun input => (redirect input).isSome) with _ | last
    · rcases hr : redirect input with _ | t <;> simp [hr]
    · have := List.find?_some h
      rcases hr : redirect last with _ | t
      · simp [hr] at this
      · simp [hr]

theorem expected_append (missed : Target) (last : FetchIn) : ∀ inputs : List FetchIn,
    expected missed (inputs ++ [last]) = (redirect last).getD (expected missed inputs) := by
  intro inputs
  induction inputs generalizing missed with
  | nil => rfl
  | cons input inputs ih => exact ih _

variable {inputs : List FetchIn} {input : FetchIn}

theorem lastRedirect_split (h : lastRedirect inputs = some input) :
    (redirect input).isSome ∧ ∃ before after, inputs = before ++ input :: after
      ∧ ∀ i ∈ after, redirect i = none := by
  obtain ⟨hr, as, bs, hl, hn⟩ := List.find?_eq_some_iff_append.1 h
  refine ⟨hr, bs.reverse, as.reverse, ?_, fun i hi => ?_⟩
  · have := congrArg List.reverse hl
    simpa using this
  · simpa using hn i (List.mem_reverse.1 hi)

theorem internalRedirect_eq_none (h : redirect input = none) : internalRedirect input = none := by
  rcases hi : input.externalTarget with _ | e
  · simpa [redirect, internalRedirect, hi] using h
  · simp [redirect, hi] at h

theorem externalTarget_eq_none (h : redirect input = none) : input.externalTarget = none := by
  rcases hi : input.externalTarget with _ | e
  · rfl
  · simp [redirect, hi] at h

/-- Without redirects nothing is kept. -/
theorem saved_eq_none (h : lastRedirect inputs = none) : saved none inputs = none := by
  have hn : ∀ i ∈ inputs, redirect i = none := by
    simpa [lastRedirect] using h
  have hint : lastInternal inputs = none := by
    simpa [lastInternal] using fun i hi => internalRedirect_eq_none (hn i hi)
  have hext : firstExternal inputs = none := by
    simpa [firstExternal] using fun i hi => externalTarget_eq_none (hn i hi)
  rw [saved_eq, hint, hext]
  rfl

/-- A last redirect that is no trap is kept. -/
theorem saved_of_internal (h : lastRedirect inputs = some input)
    (he : input.externalTarget = none) : saved none inputs = redirect input := by
  obtain ⟨hr, before, after, rfl, hn⟩ := lastRedirect_split h
  have hafter : after.reverse.findSome? internalRedirect = none := by
    simpa using fun i hi => internalRedirect_eq_none (hn i hi)
  have hi : redirect input = internalRedirect input := by simp [redirect, internalRedirect, he]
  rw [saved_eq, lastInternal, List.reverse_append, List.reverse_cons, List.append_assoc,
    List.findSome?_append, hafter, hi]
  rw [hi] at hr
  obtain ⟨t, ht⟩ := Option.isSome_iff_exists.1 hr
  simp [ht]

/-- A last redirect that is a trap is kept exactly when no other target overtakes it. -/
theorem saved_of_external {external : Target} (h : lastRedirect inputs = some input)
    (he : input.externalTarget = some external) :
    saved none inputs = some external ↔ TrapKept inputs := by
  obtain ⟨-, before, after, hsplit, -⟩ := lastRedirect_split h
  rw [saved_eq]
  constructor
  · intro hs
    refine ⟨fun i e t hi hie ht => ?_, fun i e t hi hie hnone ht => ?_⟩
    all_goals
      obtain rfl : input = i := by simpa [h] using hi
      obtain rfl : external = e := by simpa [he] using hie
    · simpa [ht] using hs
    · simpa [hnone, ht] using hs
  · intro hk
    rcases hint : lastInternal inputs with _ | t
    · rcases hext : firstExternal inputs with _ | t
      · have hn : ∀ i ∈ inputs, i.externalTarget = none := by
          simpa [firstExternal] using hext
        simp [hn input (by simp [hsplit])] at he
      · simp [hk.external input external t h he hint hext]
    · simp [hk.internal input external t h he hint]

/-- Fetch keeps the last redirect exactly when no other one overtakes it. -/
theorem saved_iff : saved none inputs = (lastRedirect inputs).bind redirect ↔ TrapKept inputs := by
  rcases hl : lastRedirect inputs with _ | input
  · rw [saved_eq_none hl]
    simp only [Option.bind_none, true_iff]
    exact ⟨fun i _ _ hi => by simp [hl] at hi, fun i _ _ hi => by simp [hl] at hi⟩
  · rcases he : input.externalTarget with _ | e
    · rw [saved_of_internal hl he]
      simp only [Option.bind_some, true_iff]
      refine ⟨fun j e _ hj hje => ?_, fun j e _ hj hje => ?_⟩
      all_goals
        obtain rfl : input = j := by simpa [hl] using hj
        simp [he] at hje
    · have hre : redirect input = some e := by simp [redirect, he]
      rw [Option.bind_some, hre]
      exact saved_of_external hl he

/-- There is something kept when there was a redirect. -/
theorem saved_isSome (h : lastRedirect inputs = some input) : (saved none inputs).isSome := by
  rcases he : input.externalTarget with _ | e
  · rw [saved_of_internal h he]
    exact (lastRedirect_split h).1
  · obtain ⟨-, before, after, hsplit, -⟩ := lastRedirect_split h
    rcases hs : saved none inputs with _ | t
    · rw [saved_eq] at hs
      simp only [Option.none_or, Option.or_eq_none_iff] at hs
      have hn : ∀ i ∈ inputs, i.externalTarget = none := by
        simpa [firstExternal] using hs.2
      simp [hn input (by simp [hsplit])] at he
    · rfl

end Condition

section Result

/-- What the ports give in the cycle after a miss. -/
theorem resume_of_kept (missed : Target) (inputs : List FetchIn) (last : FetchIn) :
    (redirect last).or ((if last.stall then none else saved none inputs).or (some missed))
        = some (expected missed (inputs ++ [last]))
      ↔ RedirectKept missed inputs last := by
  unfold RedirectKept
  rw [expected_append, expected_eq]
  rcases hr : redirect last with _ | t
  · simp only [Option.none_or, Option.getD_none, true_implies]
    split_ifs with hstall
    · -- the address that missed is taken
      rw [Option.none_or, Option.some.injEq]
      rcases hl : lastRedirect inputs with _ | input
      · simp
      · obtain ⟨t, ht⟩ := Option.isSome_iff_exists.1 (lastRedirect_split hl).1
        simp only [ht, Option.bind_some, Option.getD_some]
        constructor
        · rintro rfl j u hj hu
          obtain rfl : input = j := by simpa using hj
          simpa [ht] using hu.symm
        · intro hk
          exact (hk input t rfl ht).symm
    · -- what was kept is taken
      rw [← saved_iff]
      rcases hl : lastRedirect inputs with _ | input
      · simp [saved_eq_none hl]
      · obtain ⟨t, ht⟩ := Option.isSome_iff_exists.1 (lastRedirect_split hl).1
        obtain ⟨k, hk⟩ := Option.isSome_iff_exists.1 (saved_isSome hl)
        simp [ht, hk]
  · simp

/-- After a miss Fetch goes on at the target that the direct path would have come to exactly when
no redirect overtakes a trap and no stall hides a redirect. -/
theorem resume_iff {isa : ISA w} {fetch : Fetch w E} {ports : FetchOut w}
    (h : Reachable M isa (fetch, ports)) (hidle : ports.hitOrMiss = false) (input : FetchIn)
    (mem : M) {missed : Target} (ht : selectTarget input ports = some missed)
    (hmiss : (fetch.clock input ports isa mem).1.hitOrMiss = true) (inputs : List (FetchIn × M))
    (hlen : inputs.length = longLatency) (last : FetchIn) :
    let s := run isa ((fetch.clock input ports isa mem).2, (fetch.clock input ports isa mem).1) inputs
    s.2.hitOrMiss = false
      ∧ (selectTarget last s.2 = some (expected missed (inputs.map Prod.fst ++ [last]))
        ↔ RedirectKept missed (inputs.map Prod.fst) last) := by
  have hstates := h.states
  dsimp only at hstates
  obtain ⟨hc, hi | ⟨n, t, hm⟩⟩ := hstates
  · rcases hi.clock_target input isa mem hc ht with ⟨ho, hm, -⟩ | ⟨ho, -⟩
    · have hrun := Missing.run isa inputs hm hlen
      dsimp only
      rw [hrun, ho]
      exact ⟨rfl, by rw [selectTarget_eq]; exact resume_of_kept missed _ last⟩
    · simp [ho] at hmiss
  · simp [hm.hitOrMiss] at hidle

end Result

section Example

/-- Sixteen bytes of zeroes. -/
def zeroMemory : PlainMemory where
  addrBits := 4
  arena := List.replicate 16 0#8
  host _ := 0#8
  bits_lt := PlainMemory.four_bits_lt
  length_arena := rfl

/-- A Fetch with nothing in its cache and nothing in its predictor. -/
def coldFetch : Fetch 32 BPEntryTwoBit where
  config := ⟨.wrongPath, 32#32, 64#32⟩
  bp := ⟨fun _ _ => .wnt, fun _ _ => 0#64, .infinite .create⟩
  tags := .infinite .create
  memory := .create 32 .little 8192

theorem reachable_coldFetch : Reachable PlainMemory (Mips.isa .mars) (coldFetch, {}) :=
  .create _ _ _ _ _

/-- The target that Fetch starts from. -/
def startInput : FetchIn := { externalTarget := some ⟨0x100#64, 0#64⟩ }

/-- A cycle in which nothing arrives. -/
def quiet : FetchIn := {}

/-- The cycles of its miss: first those given, then quiet ones. -/
def missInputs (inputs : List FetchIn) : List (FetchIn × PlainMemory) :=
  (inputs ++ List.replicate (longLatency - inputs.length) quiet).map (·, zeroMemory)

def afterMiss (inputs : List FetchIn) : Fetch 32 BPEntryTwoBit × FetchOut 32 :=
  run (Mips.isa .mars)
    ((coldFetch.clock startInput {} (Mips.isa .mars) zeroMemory).2,
      (coldFetch.clock startInput {} (Mips.isa .mars) zeroMemory).1) (missInputs inputs)

def trapInput : FetchIn := { externalTarget := some ⟨0x300#64, 2#64⟩ }

def flushInput : FetchIn := { flushTarget := some ⟨0x200#64, 1#64⟩ }

/-- A trap that arrives alone is not dropped. -/
theorem resume_iff_trap :
    selectTarget quiet (afterMiss [trapInput]).2 = some ⟨0x300#64, 2#64⟩ := by
  have hl : lastRedirect ((missInputs [trapInput]).map Prod.fst) = some trapInput := rfl
  have hi : lastInternal ((missInputs [trapInput]).map Prod.fst) = none := rfl
  have he : firstExternal ((missInputs [trapInput]).map Prod.fst) = some ⟨0x300#64, 2#64⟩ := rfl
  have h := (resume_iff reachable_coldFetch rfl startInput zeroMemory rfl rfl
    (missInputs [trapInput]) rfl quiet).2.2
  refine h fun _ => ⟨fun i e t _ _ ht => ?_, fun i e t hi he' _ ht => ?_⟩
  · rw [hi] at ht
    cases ht
  · rw [hl] at hi
    rw [he] at ht
    cases hi
    cases he'
    cases ht
    rfl

/-- A trap that arrives one cycle after a flush from Branch is dropped. -/
theorem trap_dropped :
    Reachable PlainMemory (Mips.isa .mars) (coldFetch, {})
      ∧ (coldFetch.clock startInput {} (Mips.isa .mars) zeroMemory).1.hitOrMiss = true
      ∧ (afterMiss [flushInput, trapInput]).2.hitOrMiss = false
      ∧ selectTarget quiet (afterMiss [flushInput, trapInput]).2
        ≠ some (expected ⟨0x100#64, 0#64⟩
          ((missInputs [flushInput, trapInput]).map Prod.fst ++ [quiet])) :=
  ⟨reachable_coldFetch, rfl, rfl, by decide⟩

end Example

end Fetch

end MiptMips
