import Mathlib.Data.List.Basic

/-!
# Machines with inputs and outputs

A machine takes an input at each step, moves to a next state and gives an output. What is kept by
every step is kept by every run, and two machines whose steps stay related give related outputs.
-/

namespace Machines

/-- A deterministic machine over states `S`, inputs `I` and outputs `O`. -/
structure Machine (S I O : Type*) where
  step : S → I → S × O

namespace Machine

variable {S T I O P : Type*}

section Run

variable (m : Machine S I O)

def next (s : S) (i : I) : S := (m.step s i).1

def out (s : S) (i : I) : O := (m.step s i).2

def run (s : S) (is : List I) : S := is.foldl m.next s

def outputs : S → List I → List O
  | _, [] => []
  | s, i :: is => m.out s i :: outputs (m.next s i) is

@[simp]
theorem run_nil (s : S) : m.run s [] = s := rfl

@[simp]
theorem run_cons (s : S) (i : I) (is : List I) : m.run s (i :: is) = m.run (m.next s i) is := rfl

theorem run_append (s : S) (is js : List I) : m.run s (is ++ js) = m.run (m.run s is) js :=
  List.foldl_append

/-- What every step keeps, every run keeps. -/
theorem run_invariant {Inv : S → Prop} (h : ∀ s i, Inv s → Inv (m.next s i)) :
    ∀ (is : List I) {s : S}, Inv s → Inv (m.run s is)
  | [], _, hs => hs
  | i :: is, s, hs => by
    rw [run_cons]
    exact run_invariant h is (h s i hs)

end Run

section Simulation

variable {m : Machine S I O} {n : Machine T I P} {R : S → T → Prop} {Q : O → P → Prop}

/-- Related states take each input to related states, with related outputs. -/
structure Simulates (m : Machine S I O) (n : Machine T I P) (R : S → T → Prop)
    (Q : O → P → Prop) : Prop where
  next : ∀ {s t} i, R s t → R (m.next s i) (n.next t i)
  out : ∀ {s t} i, R s t → Q (m.out s i) (n.out t i)

theorem Simulates.run (h : Simulates m n R Q) :
    ∀ (is : List I) {s : S} {t : T}, R s t → R (m.run s is) (n.run t is)
  | [], _, _, hr => hr
  | i :: is, s, t, hr => by
    rw [run_cons, run_cons]
    exact h.run is (h.next i hr)

/-- The outputs of the two runs are related one by one. -/
theorem Simulates.outputs (h : Simulates m n R Q) :
    ∀ (is : List I) {s : S} {t : T}, R s t → List.Forall₂ Q (m.outputs s is) (n.outputs t is)
  | [], _, _, _ => .nil
  | i :: is, _, _, hr => .cons (h.out i hr) (h.outputs is (h.next i hr))

end Simulation

end Machine

end Machines
