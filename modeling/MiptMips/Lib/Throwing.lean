import Mathlib.Data.List.Basic

/-!
# Computations that keep their state when they throw

A computation changes a state and may throw, and what it has changed until then stays changed. A
property of the state is kept by a computation when it is kept whether or not it throws, so that
no exception half way can break it.
-/

namespace Machines

universe u

abbrev Throwing (ε S : Type u) (α : Type u) := ExceptT ε (StateM S) α

namespace Throwing

variable {ε S α β : Type u}

/-- The state that a computation leaves. -/
def exec (x : Throwing ε S α) (s : S) : S := (x.run.run s).2

/-- Kept, also by an exception. -/
def Keeps (P : S → Prop) (x : Throwing ε S α) : Prop := ∀ s, P s → P (exec x s)

variable {P : S → Prop}

theorem keeps_pure (a : α) : Keeps P (pure a : Throwing ε S α) := fun _ h => h

theorem keeps_throw (e : ε) : Keeps P (throw e : Throwing ε S α) := fun _ h => h

/-- What is run after a computation that throws is not run. -/
theorem run_bind (x : Throwing ε S α) (f : α → Throwing ε S β) (s : S) :
    (x >>= f).run.run s = match x.run.run s with
      | (.ok a, t) => (f a).run.run t
      | (.error e, t) => (.error e, t) := by
  rcases hr : x.run.run s with ⟨_ | a, t⟩
  · show (ExceptT.bindCont f (x.run.run s).1).run (x.run.run s).2 = _
    rw [hr]
    rfl
  · show (ExceptT.bindCont f (x.run.run s).1).run (x.run.run s).2 = (f a).run.run t
    rw [hr]
    rfl

theorem run_bind_ok {x : Throwing ε S α} {s t : S} {a : α} (h : x.run.run s = (.ok a, t))
    (f : α → Throwing ε S β) : (x >>= f).run.run s = (f a).run.run t := by
  rw [run_bind, h]

theorem run_bind_error {x : Throwing ε S α} {s t : S} {e : ε} (h : x.run.run s = (.error e, t))
    (f : α → Throwing ε S β) : (x >>= f).run.run s = (.error e, t) := by
  rw [run_bind, h]

/-- Both parts of a computation that ends well do. -/
theorem exists_of_run_bind {x : Throwing ε S α} {f : α → Throwing ε S β} {s t : S} {b : β}
    (h : (x >>= f).run.run s = (.ok b, t)) :
    ∃ a u, x.run.run s = (.ok a, u) ∧ (f a).run.run u = (.ok b, t) := by
  rw [run_bind] at h
  rcases hx : x.run.run s with ⟨_ | a, u⟩ <;> rw [hx] at h
  · cases h
  · exact ⟨a, u, rfl, h⟩

/-- A run ends in one way. -/
theorem exists_run_iff {x : Throwing ε S α} {s t : S} {a : α} (h : x.run.run s = (.ok a, t))
    {P : S → Prop} : (∃ t', x.run.run s = (.ok a, t') ∧ P t') ↔ P t := by
  refine ⟨?_, fun ht => ⟨t, h, ht⟩⟩
  rintro ⟨t', h', ht⟩
  rw [h] at h'
  cases h'
  exact ht

theorem not_exists_run {x : Throwing ε S α} {s t : S} {e : ε} (h : x.run.run s = (.error e, t))
    {a : α} {P : S → Prop} : ¬ ∃ t', x.run.run s = (.ok a, t') ∧ P t' := by
  rintro ⟨t', h', -⟩
  rw [h] at h'
  cases h'

theorem exec_bind (x : Throwing ε S α) (f : α → Throwing ε S β) (s : S) :
    exec (x >>= f) s = match x.run.run s with
      | (.ok a, t) => exec (f a) t
      | (.error _, t) => t := by
  rw [exec, run_bind]
  rcases x.run.run s with ⟨_ | a, t⟩ <;> rfl

theorem Keeps.bind {x : Throwing ε S α} {f : α → Throwing ε S β} (hx : Keeps P x)
    (hf : ∀ a, Keeps P (f a)) : Keeps P (x >>= f) := by
  intro s hs
  have h : P (x.run.run s).2 := hx s hs
  rw [exec_bind]
  rcases hr : x.run.run s with ⟨_ | a, t⟩ <;> rw [hr] at h
  · exact h
  · exact hf a t h

/-- A computation that depends on the state it starts in. -/
theorem Keeps.get {f : S → Throwing ε S α} (hf : ∀ s, P s → P (exec (f s) s)) :
    Keeps P (do let s ← get; f s) := hf

theorem Keeps.tryCatch {x : Throwing ε S α} {handle : ε → Throwing ε S α} (hx : Keeps P x)
    (hf : ∀ e, Keeps P (handle e)) : Keeps P (tryCatch x handle) := by
  intro s hs
  have h : P (x.run.run s).2 := hx s hs
  show P (((match (x.run.run s).1 with
    | .ok a => (pure (.ok a) : StateM S (Except ε α))
    | .error e => (handle e).run).run (x.run.run s).2).2)
  rcases hr : x.run.run s with ⟨e | a, t⟩ <;> rw [hr] at h
  · exact hf e t h
  · exact h

theorem keeps_forM {f : β → Throwing ε S PUnit} : ∀ {xs : List β}, (∀ x ∈ xs, Keeps P (f x)) →
    Keeps P (xs.forM f)
  | [], _ => keeps_pure _
  | x :: _, h => (h x List.mem_cons_self).bind fun _ =>
      keeps_forM fun y hy => h y (List.mem_cons_of_mem _ hy)

/-- Whatever state it starts in, what a computation throws is as said. -/
def ThrowsOnly (Q : ε → Prop) (x : Throwing ε S α) : Prop :=
  ∀ s e t, x.run.run s = (.error e, t) → Q e

section ThrowsOnly

variable {Q : ε → Prop}

theorem throwsOnly_pure (a : α) : ThrowsOnly Q (pure a : Throwing ε S α) := fun _ _ _ h => by
  cases h

theorem throwsOnly_throw {e : ε} (h : Q e) : ThrowsOnly Q (throw e : Throwing ε S α) :=
  fun _ _ _ he => by
    cases he
    exact h

theorem throwsOnly_get : ThrowsOnly Q (get : Throwing ε S S) := fun _ _ _ h => by cases h

theorem throwsOnly_set (s : S) : ThrowsOnly Q (set s : Throwing ε S PUnit) := fun _ _ _ h => by
  cases h

theorem ThrowsOnly.bind {x : Throwing ε S α} {f : α → Throwing ε S β} (hx : ThrowsOnly Q x)
    (hf : ∀ a, ThrowsOnly Q (f a)) : ThrowsOnly Q (x >>= f) := by
  intro s e t h
  rcases hr : x.run.run s with ⟨_ | a, u⟩
  · rw [run_bind_error hr] at h
    cases h
    exact hx s e t hr
  · rw [run_bind_ok hr] at h
    exact hf a u e t h

end ThrowsOnly

/-- A run of computations, each from the state the one before it leaves. -/
def runAll (xs : List (Throwing ε S PUnit)) (s : S) : S := xs.foldl (fun s x => exec x s) s

theorem keeps_runAll : ∀ {xs : List (Throwing ε S PUnit)}, (∀ x ∈ xs, Keeps P x) →
    ∀ {s : S}, P s → P (runAll xs s)
  | [], _, _, hs => hs
  | x :: xs, h, s, hs =>
    have hxs : ∀ y ∈ xs, Keeps P y := fun y hy => h y (List.mem_cons_of_mem _ hy)
    keeps_runAll hxs (h x List.mem_cons_self s hs)

end Throwing

end Machines
