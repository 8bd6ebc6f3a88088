import Mathlib.Data.List.Basic

/-!
# Steps that may fail

A step takes a state to an output and a next state, or throws. A run is a chain of steps that did
not throw; it is a relation between its first state, its outputs and its last state. What every
step keeps, every run keeps, and a step that is followed by another machine's step gives runs that
are followed by its runs. Where a step does not fix the next state, a run is a path of a relation.
-/

namespace Machines

variable {S T O P : Type*} {ε : Type*}

/-- A computation that binds does not throw when both of its parts do not. -/
theorem bind_eq_ok {α β : Type} {x : Except ε α} {f : α → Except ε β} {b : β} :
    x >>= f = .ok b ↔ ∃ a, x = .ok a ∧ f a = .ok b := by
  cases x with
  | error e =>
    constructor
    · intro h
      cases h
    · rintro ⟨_, h, -⟩
      cases h
  | ok a =>
    constructor
    · exact fun h => ⟨a, rfl, h⟩
    · rintro ⟨_, h, hf⟩
      cases h
      exact hf

/-- A computation that binds throws an error only when one of its parts does. -/
theorem bind_ne_error {α β : Type} {x : Except ε α} {f : α → Except ε β} {e : ε}
    (hx : x ≠ .error e) (hf : ∀ a, x = .ok a → f a ≠ .error e) : x >>= f ≠ .error e := by
  rcases x with e' | a
  · exact fun h => hx (Except.error.inj h ▸ rfl)
  · exact hf a rfl

/-- A fold whose steps are followed by those of another one, is followed by it. -/
theorem foldlM_map {S T O : Type} {ε : Type} {step : S → O → Except ε S}
    {step' : T → O → Except ε T} (f : S → T)
    (hstep : ∀ s o t, step s o = .ok t → step' (f s) o = .ok (f t)) : ∀ {os : List O} {s t : S},
    os.foldlM step s = .ok t → os.foldlM step' (f s) = .ok (f t)
  | [], _, _, h => by
    cases h
    rfl
  | _ :: _, _, _, h => by
    rw [List.foldlM_cons] at h ⊢
    obtain ⟨_, hfirst, hrest⟩ := bind_eq_ok.1 h
    exact bind_eq_ok.2 ⟨_, hstep _ _ _ hfirst, foldlM_map f hstep hrest⟩

/-- `Steps step s os t`: from `s` the steps give the outputs `os` and end in `t`. -/
inductive Steps (step : S → Except ε (O × S)) : S → List O → S → Prop
  | nil (s : S) : Steps step s [] s
  | cons {s t u : S} {o : O} {os : List O} :
    step s = .ok (o, t) → Steps step t os u → Steps step s (o :: os) u

namespace Steps

variable {step : S → Except ε (O × S)} {step' : T → Except ε (P × T)}

theorem append {s t u : S} {os ps : List O} (h : Steps step s os t) (h' : Steps step t ps u) :
    Steps step s (os ++ ps) u := by
  induction h with
  | nil => exact h'
  | cons hs _ ih => exact .cons hs (ih h')

/-- Of two runs from one state the longer one goes on from where the shorter one ends. -/
theorem extends_of_le {s t u : S} {os ps : List O} (h : Steps step s os t)
    (h' : Steps step s ps u) (hle : os.length ≤ ps.length) :
    ∃ qs, ps = os ++ qs ∧ Steps step t qs u := by
  induction h generalizing ps with
  | nil => exact ⟨ps, rfl, h'⟩
  | @cons s v t o os hs _ ih =>
    cases h' with
    | nil => simp at hle
    | cons hs' hr =>
      rw [hs] at hs'
      cases hs'
      obtain ⟨qs, rfl, hq⟩ := ih hr (by simpa using hle)
      exact ⟨qs, rfl, hq⟩

/-- When every step is followed by one with the same output, so is every run. -/
theorem follows {step' : T → Except ε (O × T)} {R : S → T → Prop}
    (h : ∀ {s o s' t}, R s t → step s = .ok (o, s') → ∃ t', step' t = .ok (o, t') ∧ R s' t')
    {s s' : S} {t : T} {os : List O} (hr : Steps step s os s') (hR : R s t) :
    ∃ t', Steps step' t os t' ∧ R s' t' := by
  induction hr generalizing t with
  | nil => exact ⟨t, .nil t, hR⟩
  | cons hs _ ih =>
    obtain ⟨u, hu, hR'⟩ := h hR hs
    obtain ⟨t', ht, hR''⟩ := ih hR'
    exact ⟨t', .cons hu ht, hR''⟩

/-- The states that a run goes through. -/
theorem states {s t : S} {os : List O} (h : Steps step s os t) : ∃ state : ℕ → S,
    state 0 = s ∧ state os.length = t
      ∧ ∀ c (hc : c < os.length), step (state c) = .ok (os[c], state (c + 1)) := by
  induction h with
  | nil s => exact ⟨fun _ => s, rfl, rfl, fun c hc => absurd hc (by simp)⟩
  | @cons s t u o os hs _ ih =>
    obtain ⟨state, h₀, hlast, hstep⟩ := ih
    refine ⟨fun c => if c = 0 then s else state (c - 1), rfl, hlast, fun c hc => ?_⟩
    rcases c with _ | c
    · simpa [h₀] using hs
    · simpa using hstep c (by simpa using hc)

/-- When every allowed step is followed by a step of another machine, a run is followed by a run as
long as its steps are allowed, in the states that both machines have come to. -/
theorem simulates {R : S → T → Prop} {Q : O → P → Prop} {Allowed : S → O → T → Prop}
    (h : ∀ {s o s' t}, R s t → step s = .ok (o, s') → Allowed s o t →
      ∃ p t', step' t = .ok (p, t') ∧ Q o p ∧ R s' t')
    {s s' : S} {t : T} {os : List O} (hr : Steps step s os s') (hR : R s t)
    (hall : ∀ {pre o post u ps v}, os = pre ++ o :: post → Steps step s pre u →
      Steps step' t ps v → ps.length = pre.length → Allowed u o v) :
    ∃ ps t', Steps step' t ps t' ∧ List.Forall₂ Q os ps ∧ R s' t' := by
  induction hr generalizing t with
  | nil s => exact ⟨[], t, .nil t, .nil, hR⟩
  | @cons s u s' o os hs _ ih =>
    obtain ⟨p, v, hv, hq, hR'⟩ := h hR hs (hall rfl (.nil s) (.nil t) rfl)
    obtain ⟨ps, t', hps, hqs, hR''⟩ := ih hR' fun {pre _ _ _ ps _} he hx hy hl =>
      hall (congrArg (o :: ·) he) (.cons hs hx) (.cons hv hy) (by simpa using hl)
    exact ⟨p :: ps, t', .cons hv hps, .cons hq hqs, hR''⟩

end Steps

/-- `Path R s os t`: from `s` each of the labels leads on to a related state, and the last one to
`t`. -/
inductive Path (R : O → S → S → Prop) : S → List O → S → Prop
  | nil (s : S) : Path R s [] s
  | cons {s t u : S} {o : O} {os : List O} : R o s t → Path R t os u → Path R s (o :: os) u

namespace Path

variable {R : O → S → S → Prop} {P : S → Prop} {s t : S} {o : O} {os ps : List O}

theorem exists_of_append (h : Path R s (os ++ ps) t) : ∃ u, Path R s os u ∧ Path R u ps t := by
  induction os generalizing s with
  | nil => exact ⟨s, .nil s, h⟩
  | cons o os ih =>
    cases h with
    | cons hstep hrest =>
      obtain ⟨u, hu, ht⟩ := ih hrest
      exact ⟨u, .cons hstep hu, ht⟩

theorem mono {R' : O → S → S → Prop} (h : Path R s os t) (hR : ∀ o s t, R o s t → R' o s t) :
    Path R' s os t := by
  induction h with
  | nil s => exact .nil s
  | cons hstep _ ih => exact .cons (hR _ _ _ hstep) ih

theorem invariant (h : Path R s os t) (hk : ∀ o ∈ os, ∀ s t, R o s t → P s → P t) (hs : P s) :
    P t := by
  induction h with
  | nil => exact hs
  | cons hstep _ ih =>
    exact ih (fun o ho => hk o (List.mem_cons_of_mem _ ho)) (hk _ List.mem_cons_self _ _ hstep hs)

/-- What one label brings about and the later ones keep holds at the end. -/
theorem establishes (h : Path R s (os ++ o :: ps) t) (hset : ∀ s t, R o s t → P t)
    (hk : ∀ p ∈ ps, ∀ s t, R p s t → P s → P t) : P t := by
  obtain ⟨u, -, h⟩ := h.exists_of_append
  cases h with
  | cons hstep hrest => exact hrest.invariant hk (hset _ _ hstep)

theorem of_foldlM {S T O ε : Type} {R : O → S → S → Prop} {step : T → O → Except ε T} (f : T → S)
    (hstep : ∀ x o y, step x o = .ok y → R o (f x) (f y)) : ∀ {os : List O} {x y : T},
    os.foldlM step x = .ok y → Path R (f x) os (f y)
  | [], _, _, h => by
    cases h
    exact .nil _
  | _ :: _, _, _, h => by
    rw [List.foldlM_cons] at h
    obtain ⟨_, hfirst, hrest⟩ := bind_eq_ok.1 h
    exact .cons (hstep _ _ _ hfirst) (of_foldlM f hstep hrest)

end Path

end Machines
