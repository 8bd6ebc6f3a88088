import MiptMips.Lib.Steps

/-!
# Outcomes of computations that may throw

Two computations have related outcomes when both throw, whatever they throw, or both give a result
and the results are related. Computations that bind have related outcomes when their parts do.
-/

namespace Machines

variable {ε δ : Type} {α β α' β' : Type}

inductive Outcomes (R : α → β → Prop) : Except ε α → Except δ β → Prop
  | ok {a : α} {b : β} : R a b → Outcomes R (.ok a) (.ok b)
  | error (e : ε) (e' : δ) : Outcomes R (.error e) (.error e')

namespace Outcomes

variable {R : α → β → Prop} {S : α' → β' → Prop} {x : Except ε α} {y : Except δ β}

theorem bind {f : α → Except ε α'} {g : β → Except δ β'} (h : Outcomes R x y)
    (hf : ∀ a b, x = .ok a → y = .ok b → R a b → Outcomes S (f a) (g b)) :
    Outcomes S (x >>= f) (y >>= g) := by
  cases h with
  | ok hr => exact hf _ _ rfl rfl hr
  | error e e' => exact .error e e'

theorem mono {S : α → β → Prop} (h : Outcomes R x y)
    (hS : ∀ a b, x = .ok a → y = .ok b → R a b → S a b) : Outcomes S x y := by
  cases h with
  | ok hr => exact .ok (hS _ _ rfl rfl hr)
  | error e e' => exact .error e e'

/-- A computation has its own outcome. -/
theorem refl {R : α → α → Prop} (hR : ∀ a, R a a) (x : Except ε α) : Outcomes R x x := by
  cases x with
  | ok a => exact .ok (hR a)
  | error e => exact .error e e

theorem symm (h : Outcomes R x y) : Outcomes (fun b a => R a b) y x := by
  cases h with
  | ok hr => exact .ok hr
  | error e e' => exact .error e' e

end Outcomes

/-- The second computation ends as the first one does, unless the first throws what is excused. -/
inductive Excused (P : ε → Prop) (R : α → β → Prop) : Except ε α → Except ε β → Prop
  | ok {a : α} {b : β} : R a b → Excused P R (.ok a) (.ok b)
  | same (e : ε) : Excused P R (.error e) (.error e)
  | excused {e : ε} (y : Except ε β) : P e → Excused P R (.error e) y

namespace Excused

variable {P : ε → Prop} {R : α → β → Prop} {S : α' → β' → Prop} {x : Except ε α} {y : Except ε β}

theorem bind {f : α → Except ε α'} {g : β → Except ε β'} (h : Excused P R x y)
    (hf : ∀ a b, x = .ok a → R a b → Excused P S (f a) (g b)) :
    Excused P S (x >>= f) (y >>= g) := by
  cases h with
  | ok hr => exact hf _ _ rfl hr
  | same e => exact .same e
  | excused y he => exact .excused _ he

theorem mono {S : α → β → Prop} (h : Excused P R x y) (hS : ∀ a b, R a b → S a b) :
    Excused P S x y := by
  cases h with
  | ok hr => exact .ok (hS _ _ hr)
  | same e => exact .same e
  | excused y he => exact .excused y he

/-- Computations that are the same up to their last part. -/
theorem of_bind (x : Except ε α) {f : α → Except ε α'} {g : α → Except ε β'}
    (hf : ∀ a, x = .ok a → Excused P S (f a) (g a)) : Excused P S (x >>= f) (x >>= g) := by
  cases x with
  | error e => exact .same e
  | ok a => exact hf a rfl

end Excused

/-- A list of computations gives the list of their results. -/
theorem mapM_eq_ok {f : α → Except ε β} : ∀ {xs : List α} {ys : List β},
    xs.mapM f = .ok ys ↔ List.Forall₂ (fun x y => f x = .ok y) xs ys
  | [], ys => by
    constructor
    · intro h
      cases h
      exact .nil
    · intro h
      cases h
      rfl
  | x :: xs, ys => by
    rw [List.mapM_cons, bind_eq_ok]
    constructor
    · rintro ⟨y, hy, h⟩
      obtain ⟨zs, hzs, h⟩ := bind_eq_ok.1 h
      cases h
      exact .cons hy (mapM_eq_ok.1 hzs)
    · intro h
      cases h with
      | cons hy hys => exact ⟨_, hy, bind_eq_ok.2 ⟨_, mapM_eq_ok.2 hys, rfl⟩⟩

theorem exists_mem_of_forall₂ {R : α → β → Prop} : ∀ {xs : List α} {ys : List β} {x : α},
    List.Forall₂ R xs ys → x ∈ xs → ∃ y ∈ ys, R x y
  | _, _, _, .cons (b := y) hr h, hx => by
    rcases List.mem_cons.1 hx with rfl | hx
    · exact ⟨y, List.mem_cons_self, hr⟩
    · obtain ⟨z, hz, hr⟩ := exists_mem_of_forall₂ h hx
      exact ⟨z, List.mem_cons_of_mem _ hz, hr⟩

/-- A list of computations throws what one of them throws. -/
theorem exists_of_mapM_eq_error {f : α → Except ε β} {e : ε} : ∀ {xs : List α},
    xs.mapM f = .error e → ∃ x ∈ xs, f x = .error e
  | [], h => by cases h
  | x :: xs, h => by
    rw [List.mapM_cons] at h
    cases hx : f x with
    | error e' =>
      rw [hx] at h
      cases h
      exact ⟨x, List.mem_cons_self, hx⟩
    | ok y =>
      rw [hx] at h
      cases hxs : xs.mapM f with
      | error e' =>
        simp only [hxs, bind, Except.bind] at h
        cases h
        obtain ⟨z, hz, he⟩ := exists_of_mapM_eq_error hxs
        exact ⟨z, List.mem_cons_of_mem _ hz, he⟩
      | ok ys =>
        simp only [hxs, bind, Except.bind] at h
        cases h

/-- What is said of a result holds, if there is one. -/
def OnOk (P : α → Prop) : Except ε α → Prop
  | .ok a => P a
  | .error _ => True

instance {P : α → Prop} [DecidablePred P] : DecidablePred (OnOk P : Except ε α → Prop)
  | .ok a => inferInstanceAs (Decidable (P a))
  | .error _ => .isTrue trivial

end Machines
