import MiptMips.Infra.Exception
import MiptMips.Infra.PortDelivery
import Mathlib.Algebra.BigOperators.Group.Finset.Piecewise
import Mathlib.Data.List.TakeWhile

/-!
# Programs that use ports

What a module does in a cycle is a program that looks at its read ports, reads them and writes to
its write ports. It can be run on the ports themselves, or evaluated on lists of what its read ports
hold for this cycle. The two agree as long as the rings have room and the counters let the writes
through; a module changes nothing but its own ports, and what it writes is to be read later.
-/

namespace MiptMips

open Machines

section Program

/-- A program over the read ports `In` and the write ports `Out`; `readAll` is a loop that reads a
port as long as it is ready. -/
inductive PortProg {In Out : Type} (TI : In → Type) (TO : Out → Type) (α : Type) : Type
  | ret (a : α)
  | fail (e : SimException)
  | isReady (i : In) (next : Bool → PortProg TI TO α)
  | read (i : In) (next : TI i → PortProg TI TO α)
  | readAll (i : In) (next : List (TI i) → PortProg TI TO α)
  | write (o : Out) (x : TO o) (next : PortProg TI TO α)

inductive PortFault where
  | port (e : PortError)
  | sim (e : SimException)

/-- What the read ports hold for this cycle, and what has been written in it. -/
structure PortView {In Out : Type} (TI : In → Type) (TO : Out → Type) where
  unread : (i : In) → List (TI i)
  written : (o : Out) → List (TO o)

variable {In Out : Type} {TI : In → Type} {TO : Out → Type} {α β : Type}

namespace PortProg

def bind : PortProg TI TO α → (α → PortProg TI TO β) → PortProg TI TO β
  | .ret a, f => f a
  | .fail e, _ => .fail e
  | .isReady i next, f => .isReady i fun b => (next b).bind f
  | .read i next, f => .read i fun x => (next x).bind f
  | .readAll i next, f => .readAll i fun l => (next l).bind f
  | .write o x next, f => .write o x (next.bind f)

instance : Monad (PortProg TI TO) where
  pure := .ret
  bind := .bind

/-- A computation without ports. -/
def lift : Except SimException α → PortProg TI TO α
  | .ok a => .ret a
  | .error e => .fail e

section Operations

def ready (i : In) : PortProg TI TO Bool := .isReady i .ret

def get (i : In) : PortProg TI TO (TI i) := .read i .ret

/-- The value on a port, if there is one. -/
def getIfReady (i : In) : PortProg TI TO (Option (TI i)) := do
  if ← ready i then return some (← get i) else return none

/-- A port that is ready and gives a value that is meant as true. -/
def getSignal (i : In) (f : TI i → Bool) : PortProg TI TO Bool := do
  let x ← getIfReady i
  return x.any f

/-- One of two signals; the second one is not read when the first is there. -/
def eitherSignal (i j : In) (f : TI i → Bool) (g : TI j → Bool) : PortProg TI TO Bool := do
  if ← getSignal i f then return true else getSignal j g

def getAll (i : In) : PortProg TI TO (List (TI i)) := .readAll i .ret

def put (o : Out) (x : TO o) : PortProg TI TO Unit := .write o x (.ret ())

end Operations

variable [DecidableEq In] [DecidableEq Out]

def noData : PortError := ⟨"no data to read"⟩

def eval : PortProg TI TO α → PortView TI TO → Except PortFault α × PortView TI TO
  | .ret a, v => (.ok a, v)
  | .fail e, v => (.error (.sim e), v)
  | .isReady i next, v => (next !(v.unread i).isEmpty).eval v
  | .read i next, v => match v.unread i with
    | x :: l => (next x).eval { v with unread := Function.update v.unread i l }
    | [] => (.error (.port noData), v)
  | .readAll i next, v =>
    (next (v.unread i)).eval { v with unread := Function.update v.unread i [] }
  | .write o x next, v =>
    next.eval { v with written := Function.update v.written o (v.written o ++ [x]) }

section Eval

variable (v : PortView TI TO)

@[simp]
theorem eval_pure (a : α) : (pure a : PortProg TI TO α).eval v = (.ok a, v) := rfl

@[simp]
theorem eval_lift_ok (a : α) : (lift (.ok a) : PortProg TI TO α).eval v = (.ok a, v) := rfl

@[simp]
theorem eval_lift_error (e : SimException) :
    (lift (.error e) : PortProg TI TO α).eval v = (.error (.sim e), v) := rfl

@[simp]
theorem eval_ready (i : In) : (ready i : PortProg TI TO Bool).eval v
    = (.ok !(v.unread i).isEmpty, v) := rfl

theorem eval_get {i : In} {x : TI i} {l : List (TI i)} (h : v.unread i = x :: l) :
    (get i : PortProg TI TO (TI i)).eval v
      = (.ok x, { v with unread := Function.update v.unread i l }) := by
  unfold get
  rw [eval, h]
  rfl

@[simp]
theorem eval_getAll (i : In) : (getAll i : PortProg TI TO (List (TI i))).eval v
    = (.ok (v.unread i), { v with unread := Function.update v.unread i [] }) := rfl

@[simp]
theorem eval_put (o : Out) (x : TO o) : (put o x : PortProg TI TO Unit).eval v
    = (.ok (), { v with written := Function.update v.written o (v.written o ++ [x]) }) := rfl

/-- What comes after a program that throws is not done. -/
theorem eval_bind : ∀ (p : PortProg TI TO α) (f : α → PortProg TI TO β) (v : PortView TI TO),
    (p >>= f).eval v = match p.eval v with
      | (.ok a, v) => (f a).eval v
      | (.error e, v) => (.error e, v)
  | .ret _, _, _ => rfl
  | .fail _, _, _ => rfl
  | .isReady i next, f, v => eval_bind (next _) f v
  | .read i next, f, v => by
    show (PortProg.read i fun x => (next x).bind f).eval v = _
    rw [eval, eval]
    rcases v.unread i with _ | ⟨x, l⟩
    · rfl
    · exact eval_bind (next x) f _
  | .readAll i next, f, v => eval_bind (next _) f _
  | .write o x next, f, v => eval_bind next f _

theorem eval_bind_ok {p : PortProg TI TO α} {f : α → PortProg TI TO β} {a : α}
    {v v' : PortView TI TO} (h : p.eval v = (.ok a, v')) : (p >>= f).eval v = (f a).eval v' := by
  rw [eval_bind, h]

/-- A port that is read when it is ready. -/
theorem eval_ite_ready (i : In) (f : TI i → PortProg TI TO α) (p : PortProg TI TO α) :
    (ready i >>= fun b => if b then get i >>= f else p).eval v = match v.unread i with
      | x :: l => (f x).eval { v with unread := Function.update v.unread i l }
      | [] => p.eval v := by
  rw [eval_bind_ok (eval_ready v i)]
  rcases h : v.unread i with _ | ⟨x, l⟩
  · rfl
  · exact eval_bind_ok (eval_get v h)

@[simp]
theorem eval_getIfReady (i : In) : (getIfReady i : PortProg TI TO (Option (TI i))).eval v
    = (.ok (v.unread i).head?,
      { v with unread := Function.update v.unread i (v.unread i).tail }) := by
  unfold getIfReady
  rw [eval_bind_ok (eval_ready v i)]
  rcases h : v.unread i with _ | ⟨x, l⟩
  · have hsame : Function.update v.unread i [] = v.unread := by
      rw [← h, Function.update_eq_self]
    simp [hsame]
  · exact eval_bind_ok (eval_get v h)

@[simp]
theorem eval_getSignal (i : In) (f : TI i → Bool) :
    (getSignal i f : PortProg TI TO Bool).eval v = (.ok ((v.unread i).head?.any f),
      { v with unread := Function.update v.unread i (v.unread i).tail }) := by
  unfold getSignal
  rw [eval_bind_ok (eval_getIfReady v i)]
  rfl

/-- Which of the two ports are read does not matter for the others. -/
theorem eval_eitherSignal {i j : In} (hij : i ≠ j) (f : TI i → Bool) (g : TI j → Bool) :
    ∃ u, (eitherSignal i j f g : PortProg TI TO Bool).eval v
        = (.ok ((v.unread i).head?.any f || (v.unread j).head?.any g), { v with unread := u })
      ∧ ∀ k, k ≠ i → k ≠ j → u k = v.unread k := by
  unfold eitherSignal
  rw [eval_bind_ok (eval_getSignal v i f)]
  rcases (v.unread i).head?.any f with _ | _
  · refine ⟨Function.update (Function.update v.unread i (v.unread i).tail) j (v.unread j).tail, ?_,
      fun k hi hj => ?_⟩
    · simp only [Bool.false_eq_true, if_false, Bool.false_or]
      rw [eval_getSignal]
      simp only [Function.update_of_ne hij.symm]
    · rw [Function.update_of_ne hj, Function.update_of_ne hi]
  · exact ⟨_, rfl, fun k hi _ => Function.update_of_ne hi _ _⟩

end Eval

section Ends

/-- A program ends with a result and has written some values. -/
def Ends (p : PortProg TI TO α) (v : PortView TI TO) (a : α) (written : (o : Out) → List (TO o)) :
    Prop :=
  ∃ unread, p.eval v = (.ok a, ⟨unread, written⟩)

variable {v v' : PortView TI TO} {a : α} {b : β} {f : α → PortProg TI TO β}
  {written : (o : Out) → List (TO o)}

theorem ends_pure (v : PortView TI TO) (a : α) : (pure a : PortProg TI TO α).Ends v a v.written :=
  ⟨v.unread, rfl⟩

theorem Ends.bind {p : PortProg TI TO α} (h : p.eval v = (.ok a, v'))
    (hf : (f a).Ends v' b written) : (p >>= f).Ends v b written :=
  hf.imp fun _ hu => (eval_bind_ok h).trans hu

/-- What comes next does not see what has been written, nor which ports have been read. -/
theorem Ends.bind_ends {p : PortProg TI TO α} {out : (o : Out) → List (TO o)} (h : p.Ends v a out)
    (hf : ∀ u, (f a).Ends ⟨u, out⟩ b written) : (p >>= f).Ends v b written :=
  let ⟨u, hu⟩ := h
  .bind hu (hf u)

/-- A port is asked for one of two signals, and nothing else is read. -/
theorem Ends.eitherSignal {i j : In} (hij : i ≠ j) {g : TI i → Bool} {g' : TI j → Bool}
    {f : Bool → PortProg TI TO β}
    (hf : ∀ u, (∀ k, k ≠ i → k ≠ j → u k = v.unread k) →
      (f ((v.unread i).head?.any g || (v.unread j).head?.any g')).Ends ⟨u, v.written⟩ b written) :
    (PortProg.eitherSignal i j g g' >>= f).Ends v b written :=
  let ⟨u, hsignal, hu⟩ := eval_eitherSignal v hij g g'
  .bind hsignal (hf u hu)

end Ends

/-- What is read is gone. -/
theorem length_unread_eval (i : In) : ∀ (p : PortProg TI TO α) (v : PortView TI TO),
    ((p.eval v).2.unread i).length ≤ (v.unread i).length
  | .ret _, _ => le_rfl
  | .fail _, _ => le_rfl
  | .isReady _ next, v => length_unread_eval i (next _) v
  | .read i' next, v => by
    rw [eval]
    rcases h : v.unread i' with _ | ⟨x, l⟩
    · exact le_rfl
    · refine (length_unread_eval i (next x) _).trans ?_
      show (Function.update v.unread i' l i).length ≤ _
      by_cases hi : i = i'
      · subst hi
        rw [Function.update_self, h]
        exact Nat.le_succ _
      · rw [Function.update_of_ne hi]
  | .readAll i' next, v => by
    refine (length_unread_eval i (next (v.unread i')) _).trans ?_
    show (Function.update v.unread i' [] i).length ≤ _
    by_cases hi : i = i'
    · subst hi
      rw [Function.update_self]
      exact Nat.zero_le _
    · rw [Function.update_of_ne hi]
  | .write _ _ next, v => length_unread_eval i next _

/-- Writes are only added. -/
theorem written_eval (o : Out) : ∀ (p : PortProg TI TO α) (v : PortView TI TO),
    v.written o <+: (p.eval v).2.written o
  | .ret _, _ => List.prefix_rfl
  | .fail _, _ => List.prefix_rfl
  | .isReady _ next, v => written_eval o (next _) v
  | .read i next, v => by
    rw [eval]
    rcases v.unread i with _ | ⟨x, l⟩
    · exact List.prefix_rfl
    · exact written_eval o (next x) { v with unread := Function.update v.unread i l }
  | .readAll i next, v =>
    written_eval o (next (v.unread i)) { v with unread := Function.update v.unread i [] }
  | .write o' x next, v => by
    refine List.IsPrefix.trans ?_ (written_eval o next _)
    show v.written o <+: Function.update v.written o' (v.written o' ++ [x]) o
    by_cases h : o = o'
    · subst h
      rw [Function.update_self]
      exact List.prefix_append _ _
    · rw [Function.update_of_ne h]

end PortProg

end Program

section Channel

variable {T : Type}

/-- The values to be read in a cycle. -/
def valuesDue (items : List (T × ℕ)) (cycle : ℕ) : List T := (items.filter (·.2 = cycle)).map (·.1)

variable {items : List (T × ℕ)} {b latency cycle m : ℕ} {unread written : List T}
  {onWay : ℕ → List T} {x : T}

theorem length_valuesDue (items : List (T × ℕ)) (cycle : ℕ) :
    (valuesDue items cycle).length = (items.filter (·.2 = cycle)).length := List.length_map _

theorem valuesDue_append (x : T) (items : List (T × ℕ)) (due cycle : ℕ) :
    valuesDue (items ++ [(x, due)]) cycle
      = valuesDue items cycle ++ if due = cycle then [x] else [] := by
  unfold valuesDue
  rw [List.filter_append, List.map_append]
  congr 1
  by_cases h : due = cycle <;> simp [h]

/-- Every item is to be read in one of some cycles. -/
theorem length_eq_sum_valuesDue {dues : Finset ℕ} : ∀ {items : List (T × ℕ)},
    (∀ y ∈ items, y.2 ∈ dues) → items.length = ∑ d ∈ dues, (valuesDue items d).length
  | [], _ => by simp [valuesDue]
  | y :: items, h => by
    have ih := length_eq_sum_valuesDue fun z hz => h z (List.mem_cons_of_mem y hz)
    have hy := h y List.mem_cons_self
    have hone : ∀ d, (valuesDue (y :: items) d).length
        = (if y.2 = d then 1 else 0) + (valuesDue items d).length := by
      intro d
      by_cases hd : y.2 = d
      · simp [valuesDue, hd, Nat.add_comm]
      · simp [valuesDue, hd]
    rw [List.length_cons, ih, Finset.sum_congr rfl fun d _ => hone d, Finset.sum_add_distrib,
      Finset.sum_ite_eq, if_pos hy, Nat.add_comm]

namespace ReadPort

/-- A read port in a cycle: what it holds for this cycle, what is still on its way, and what has
been written in this cycle. -/
structure Shows (p : ReadPort T) (b latency cycle : ℕ) (unread : List T) (onWay : ℕ → List T)
    (written : List T) : Prop where
  latency_eq : p.latency = latency
  capacity : p.queue.capacity = (latency + 1) * b
  last_le : p.lastCycle ≤ cycle
  items : ∃ l, p.queue.Holds l ∧ InOrder l ∧ (∀ y ∈ l, y.2 ≤ cycle + latency)
    ∧ valuesDue l cycle = unread
    ∧ (∀ j, j + 1 < latency → valuesDue l (cycle + 1 + j) = onWay j)
    ∧ valuesDue l (cycle + latency) = written

variable {p : ReadPort T}

/-- What is left after the stale items are thrown away. -/
structure Fresh (q : PortQueue (T × ℕ)) (b latency cycle : ℕ) (unread : List T)
    (onWay : ℕ → List T) (written : List T) (l : List (T × ℕ)) : Prop where
  capacity : q.capacity = (latency + 1) * b
  holds : q.Holds l
  inOrder : InOrder l
  within : ∀ y ∈ l, cycle ≤ y.2 ∧ y.2 ≤ cycle + latency
  unread : valuesDue l cycle = unread
  onWay : ∀ j, j + 1 < latency → valuesDue l (cycle + 1 + j) = onWay j
  written : valuesDue l (cycle + latency) = written

theorem Shows.cleanup (h : p.Shows b latency cycle unread onWay written) :
    ∃ l, Fresh (p.cleanupStaleData cycle).queue b latency cycle unread onWay written l := by
  obtain ⟨l, hl, hs, hle, hu, ho, hw⟩ := h.items
  obtain ⟨hheld, hcap⟩ := popStale_holds cycle hl
  rw [← hl.occupied] at hheld hcap
  have hsub : ∀ due, cycle ≤ due → valuesDue (l.dropWhile (·.2 < cycle)) due = valuesDue l due := by
    intro due hdue
    have hstale : (l.takeWhile (·.2 < cycle)).filter (·.2 = due) = [] := by
      refine List.filter_eq_nil_iff.2 fun y hy => ?_
      have := List.mem_takeWhile_imp hy
      simp at this ⊢
      omega
    have hsplit : l.filter (·.2 = due) = (l.dropWhile (·.2 < cycle)).filter (·.2 = due) := by
      rw [← List.nil_append (List.filter _ (List.dropWhile _ l)), ← hstale, ← List.filter_append,
        List.takeWhile_append_dropWhile]
    rw [valuesDue, valuesDue, hsplit]
  refine ⟨_, hcap.trans h.capacity, hheld, ?_, fun y hy => ⟨?_, ?_⟩, ?_, fun j hj => ?_, ?_⟩
  · exact List.Pairwise.sublist (List.dropWhile_sublist _) hs
  · rw [dropWhile_inOrder cycle hs] at hy
    rcases List.mem_append.1 hy with hy | hy
    · have := (List.mem_filter.1 hy).2
      simp at this
      omega
    · have := (List.mem_filter.1 hy).2
      simp at this
      omega
  · exact hle y ((List.dropWhile_sublist _).subset hy)
  · rw [hsub cycle le_rfl, hu]
  · rw [hsub _ (by omega), ho j hj]
  · rw [hsub _ (by omega), hw]

/-- What is to be read first of all is in front. -/
theorem Fresh.cases {q : PortQueue (T × ℕ)} {l : List (T × ℕ)}
    (h : Fresh q b latency cycle unread onWay written l) :
    unread = [] ∧ (∀ y ∈ l, cycle < y.2)
      ∨ ∃ x rest, l = (x, cycle) :: rest ∧ unread = x :: valuesDue rest cycle := by
  rcases l with _ | ⟨⟨x, due⟩, rest⟩
  · exact .inl ⟨h.unread.symm, nofun⟩
  · have hdue := h.within _ List.mem_cons_self
    have hrest := (List.pairwise_cons.1 h.inOrder).1
    rcases Nat.lt_or_eq_of_le hdue.1 with hlt | heq
    · have hall : ∀ y ∈ (x, due) :: rest, cycle < y.2 := by
        intro y hy
        rcases List.mem_cons.1 hy with rfl | hy
        · exact hlt
        · exact Nat.lt_of_lt_of_le hlt (hrest y hy)
      refine .inl ⟨?_, hall⟩
      rw [← h.unread, valuesDue, List.filter_eq_nil_iff.2, List.map_nil]
      intro y hy
      have := hall y hy
      simp
      omega
    · subst heq
      refine .inr ⟨x, rest, rfl, ?_⟩
      rw [← h.unread]
      simp [valuesDue]

theorem Fresh.shows {p : ReadPort T} {l : List (T × ℕ)} (hlat : p.latency = latency)
    (hlast : p.lastCycle ≤ cycle)
    (h : Fresh p.queue b latency cycle unread onWay written l) :
    p.Shows b latency cycle unread onWay written :=
  ⟨hlat, h.capacity, hlast, l, h.holds, h.inOrder, fun y hy => (h.within y hy).2, h.unread, h.onWay,
    h.written⟩

theorem Shows.isReady (h : p.Shows b latency cycle unread onWay written) :
    (p.isReady cycle).1 = !unread.isEmpty
      ∧ (p.isReady cycle).2.Shows b latency cycle unread onWay written := by
  obtain ⟨l, hf⟩ := h.cleanup
  refine ⟨?_, hf.shows h.latency_eq le_rfl⟩
  show (!(p.cleanupStaleData cycle).queue.empty
    && (p.cleanupStaleData cycle).queue.front.map (·.2) == some cycle) = _
  rcases hf.cases with ⟨hnil, hall⟩ | ⟨x, rest, rfl, hcons⟩
  · rw [hnil]
    rcases l with _ | ⟨y, l⟩
    · simp [hf.holds.empty_iff.2 rfl]
    · have hne : y.2 ≠ cycle := Nat.ne_of_gt (hall y List.mem_cons_self)
      simp [hf.holds.front, hne]
  · have hne : (p.cleanupStaleData cycle).queue.empty = false := by
      rw [← Bool.not_eq_true, hf.holds.empty_iff]
      exact List.cons_ne_nil _ _
    simp [hf.holds.front, hne, hcons]

/-- Taking the first value out. -/
theorem Fresh.pop {q : PortQueue (T × ℕ)} {rest : List (T × ℕ)} (hlat : 1 ≤ latency)
    (h : Fresh q b latency cycle unread onWay written ((x, cycle) :: rest)) :
    Fresh q.pop b latency cycle (valuesDue rest cycle) onWay written rest := by
  have hother : ∀ due, cycle < due → valuesDue ((x, cycle) :: rest) due = valuesDue rest due := by
    intro due hdue
    have hne : cycle ≠ due := by omega
    simp [valuesDue, hne]
  refine ⟨h.capacity, h.holds.pop, (List.pairwise_cons.1 h.inOrder).2,
    fun y hy => h.within y (List.mem_cons_of_mem _ hy), rfl, fun j hj => ?_, ?_⟩
  · rw [← hother _ (by omega), h.onWay j hj]
  · rw [← hother _ (by omega), h.written]

theorem Shows.read {x : T} {rest : List T} (hlat : 1 ≤ latency)
    (h : p.Shows b latency cycle (x :: rest) onWay written) :
    ∃ p', p.read cycle = (.ok x, p') ∧ p'.Shows b latency cycle rest onWay written := by
  obtain ⟨l, hf⟩ := h.cleanup
  have hready := h.isReady.1
  have hpair : p.isReady cycle = ((p.isReady cycle).1, p.cleanupStaleData cycle) := rfl
  rcases hf.cases with ⟨hnil, -⟩ | ⟨y, items, rfl, hcons⟩
  · cases hnil
  obtain ⟨rfl, rfl⟩ := List.cons.inj hcons
  refine ⟨{ p.cleanupStaleData cycle with queue := (p.cleanupStaleData cycle).queue.pop }, ?_,
    (hf.pop hlat).shows h.latency_eq le_rfl⟩
  unfold ReadPort.read
  rw [hpair, hready]
  dsimp only
  rw [hf.holds.front]
  rfl

/-- A loop that reads the port as long as it is ready. -/
def readAll (p : ReadPort T) (cycle : ℕ) : ℕ → List T × ReadPort T
  | 0 => ([], (p.isReady cycle).2)
  | n + 1 => match p.read cycle with
    | (.ok x, p) => let (l, p) := readAll p cycle n; (x :: l, p)
    | (.error _, p) => ([], p)

theorem Shows.readAll (hlat : 1 ≤ latency) : ∀ {n : ℕ} {unread : List T} {p : ReadPort T},
    p.Shows b latency cycle unread onWay written → unread.length ≤ n →
      (p.readAll cycle n).1 = unread
        ∧ (p.readAll cycle n).2.Shows b latency cycle [] onWay written
  | 0, [], _, h, _ => ⟨rfl, h.isReady.2⟩
  | n + 1, [], p, h, _ => by
    obtain ⟨l, hf⟩ := h.cleanup
    have hready := h.isReady.1
    have hpair : p.isReady cycle = ((p.isReady cycle).1, p.cleanupStaleData cycle) := rfl
    have hread : p.read cycle = (.error (p.noData cycle), p.cleanupStaleData cycle) := by
      unfold ReadPort.read
      rw [hpair, hready]
      rfl
    unfold ReadPort.readAll
    rw [hread]
    exact ⟨rfl, hf.shows h.latency_eq le_rfl⟩
  | n + 1, x :: unread, p, h, hle => by
    obtain ⟨p', hread, h'⟩ := h.read hlat
    obtain ⟨hall, hnext⟩ := Shows.readAll hlat h' (Nat.le_of_succ_le_succ hle)
    unfold ReadPort.readAll
    rw [hread]
    exact ⟨congrArg (x :: ·) hall, hnext⟩

theorem Shows.length_unread_le (h : p.Shows b latency cycle unread onWay written) :
    unread.length ≤ p.queue.occupied := by
  obtain ⟨l, hl, -, -, hu, -⟩ := h.items
  rw [hl.occupied, ← hu, length_valuesDue]
  exact List.length_filter_le _ _

/-- All that is on its way, but for what is written in this cycle. -/
def load (latency : ℕ) (onWay : ℕ → List T) : ℕ :=
  ∑ j ∈ Finset.range (latency - 1), (onWay j).length

/-- A value that fits into the ring goes to the end of it. -/
theorem Shows.emplaceData (hlat : 1 ≤ latency)
    (h : p.Shows b latency cycle unread onWay written)
    (hroom : unread.length + load latency onWay + written.length < (latency + 1) * b) (x : T) :
    (p.emplaceData cycle x).Shows b latency cycle unread onWay (written ++ [x]) := by
  obtain ⟨l, hf⟩ := h.cleanup
  have hlength : l.length = unread.length + load latency onWay + written.length := by
    obtain ⟨k, rfl⟩ : ∃ k, latency = k + 1 := ⟨latency - 1, by omega⟩
    have hmem : ∀ y ∈ l, y.2 ∈ (Finset.range (k + 2)).image (cycle + ·) := by
      intro y hy
      have := hf.within y hy
      exact Finset.mem_image.2 ⟨y.2 - cycle, by simp; omega, by omega⟩
    rw [length_eq_sum_valuesDue hmem, Finset.sum_image (by simp), Finset.sum_range_succ,
      Finset.sum_range_succ', Nat.add_zero, hf.unread, show cycle + (k + 1) = cycle + (k + 1) from rfl,
      hf.written, Nat.add_comm unread.length]
    congr 2
    refine Finset.sum_congr rfl fun j hj => ?_
    have hj := Finset.mem_range.1 hj
    rw [show cycle + (j + 1) = cycle + 1 + j by omega, hf.onWay j (by omega)]
  have hfits : l.length < (p.cleanupStaleData cycle).queue.capacity := by
    rw [hf.capacity, hlength]
    exact hroom
  have hne : cycle + p.latency ≠ cycle := by
    rw [h.latency_eq]
    omega
  refine ⟨h.latency_eq, hf.capacity, le_rfl, l ++ [(x, cycle + p.latency)],
    hf.holds.emplace hfits, ?_, ?_, ?_, fun j hj => ?_, ?_⟩
  · refine List.pairwise_append.2 ⟨hf.inOrder, List.pairwise_singleton _ _, fun y hy z hz => ?_⟩
    rw [List.mem_singleton.1 hz, h.latency_eq]
    exact (hf.within y hy).2
  · intro y hy
    rcases List.mem_append.1 hy with hy | hy
    · exact (hf.within y hy).2
    · rw [List.mem_singleton.1 hy, h.latency_eq]
  · rw [valuesDue_append, if_neg hne, List.append_nil, hf.unread]
  · rw [valuesDue_append, if_neg (by rw [h.latency_eq]; omega), List.append_nil, hf.onWay j hj]
  · rw [valuesDue_append, if_pos (by rw [h.latency_eq]), hf.written]

/-- In the next cycle everything is one cycle nearer, and what has not been read is lost. -/
theorem Shows.succ (hlat : 1 ≤ latency) (h : p.Shows b latency cycle unread onWay written) :
    p.Shows b latency (cycle + 1) (if latency = 1 then written else onWay 0)
      (fun j => if j + 2 = latency then written else onWay (j + 1)) [] := by
  obtain ⟨l, hl, hs, hle, -, ho, hw⟩ := h.items
  refine ⟨h.latency_eq, h.capacity, Nat.le_succ_of_le h.last_le, l, hl, hs,
    fun y hy => (hle y hy).trans (by omega), ?_, fun j hj => ?_, ?_⟩
  · split_ifs with h₁
    · rw [← hw, h₁]
    · rw [← ho 0 (by omega), Nat.add_zero]
  · split_ifs with h₂
    · rw [← hw, ← h₂, show cycle + 1 + 1 + j = cycle + (j + 2) by omega]
    · rw [← ho (j + 1) (by omega), show cycle + 1 + 1 + j = cycle + 1 + (j + 1) by omega]
  · rw [valuesDue, List.filter_eq_nil_iff.2, List.map_nil]
    intro y hy
    have := hle y hy
    simp
    omega

end ReadPort

end Channel

section Counter

namespace WritePort

/-- A write port in a cycle in which there have been `m` writes. -/
structure Shows (p : WritePort) (bandwidth : BitVec 32) (cycle m : ℕ) : Prop where
  bandwidth_eq : p.bandwidth = bandwidth
  last_le : p.lastCycle ≤ cycle
  unused : p.lastCycle < cycle → m = 0
  counter : p.lastCycle = cycle → p.writeCounter = BitVec.ofNat 32 (counterOf cycle m)
  used : p.lastCycle = cycle → cycle = 0 ∨ 0 < m

variable {p : WritePort} {bandwidth : BitVec 32} {cycle m : ℕ}

/-- A write that the counter lets through. -/
theorem Shows.increment (h : p.Shows bandwidth cycle m)
    (hle : counterOf cycle (m + 1) ≤ bandwidth.toNat) :
    ∃ p', p.incrementWriteCounter cycle = (.ok (), p') ∧ p'.Shows bandwidth cycle (m + 1) := by
  have hcounter : (if p.lastCycle = cycle then p.writeCounter + 1#32 else 0#32)
      = BitVec.ofNat 32 (counterOf cycle (m + 1)) := by
    split_ifs with he
    · rw [h.counter he, ← BitVec.ofNat_add]
      congr 1
      unfold counterOf
      rcases h.used he with h₀ | hpos
      · simp [h₀]
      · split_ifs <;> omega
    · have hlt : p.lastCycle < cycle := by
        have := h.last_le
        omega
      have hne : cycle ≠ 0 := by omega
      simp [h.unused hlt, counterOf, hne]
  refine ⟨_, Prod.ext ?_ rfl, h.bandwidth_eq, le_rfl, fun hlt => absurd hlt (Nat.lt_irrefl _),
    fun _ => hcounter, fun _ => .inr (Nat.succ_pos m)⟩
  unfold incrementWriteCounter
  dsimp only
  rw [hcounter, h.bandwidth_eq, if_neg]
  rw [BitVec.lt_def, BitVec.toNat_ofNat, Nat.not_lt]
  exact (Nat.mod_le _ _).trans hle

theorem Shows.succ (h : p.Shows bandwidth cycle m) : p.Shows bandwidth (cycle + 1) 0 where
  bandwidth_eq := h.bandwidth_eq
  last_le := Nat.le_succ_of_le h.last_le
  unused _ := rfl
  counter he := absurd he (Nat.ne_of_lt (Nat.lt_succ_of_le h.last_le))
  used he := absurd he (Nat.ne_of_lt (Nat.lt_succ_of_le h.last_le))

end WritePort

end Counter

section System

set_option linter.unusedSectionVars false

variable {Key Reader : Type} {T : Key → Type} {key : Reader → Key}

/-- All ports of a system: a write port for each key, and read ports with their keys. -/
structure PortSystem (T : Key → Type) (key : Reader → Key) where
  writer : Key → WritePort
  reader : (i : Reader) → ReadPort (T (key i))

/-- What all read ports hold for this cycle. -/
abbrev Unread (T : Key → Type) (key : Reader → Key) := (i : Reader) → List (T (key i))

abbrev OnWay (T : Key → Type) (key : Reader → Key) := (i : Reader) → ℕ → List (T (key i))

variable [DecidableEq Key] [DecidableEq Reader]

namespace PortSystem

section Model

variable (s : PortSystem T key)

/-- A write goes to all read ports of the key. -/
def write (k : Key) (x : T k) (cycle : ℕ) : Except PortError Unit × PortSystem T key :=
  match (s.writer k).incrementWriteCounter cycle with
  | (.ok _, p) => (.ok (),
    { writer := Function.update s.writer k p
      reader := fun i =>
        if h : k = key i then (s.reader i).emplaceData cycle (h ▸ x) else s.reader i })
  | (.error e, p) => (.error e, { s with writer := Function.update s.writer k p })

variable {In Out : Type} {α : Type} (wire : In → Reader) (out : Out → Key) (cycle : ℕ)

/-- Running a program on the ports. -/
def run : PortProg (fun i => T (key (wire i))) (fun o => T (out o)) α → PortSystem T key →
    Except PortFault α × PortSystem T key
  | .ret a, s => (.ok a, s)
  | .fail e, s => (.error (.sim e), s)
  | .isReady i next, s =>
    let (ready, p) := (s.reader (wire i)).isReady cycle
    run (next ready) { s with reader := Function.update s.reader (wire i) p }
  | .read i next, s => match (s.reader (wire i)).read cycle with
    | (.ok x, p) => run (next x) { s with reader := Function.update s.reader (wire i) p }
    | (.error e, p) =>
      (.error (.port e), { s with reader := Function.update s.reader (wire i) p })
  | .readAll i next, s =>
    let p := s.reader (wire i)
    let (l, p) := p.readAll cycle p.queue.occupied
    run (next l) { s with reader := Function.update s.reader (wire i) p }
  | .write o x next, s => match s.write (out o) x cycle with
    | (.ok _, s) => run next s
    | (.error e, s) => (.error (.port e), s)

end Model

/-- What all ports hold in a cycle. -/
structure Shows (s : PortSystem T key) (bandwidth : Key → BitVec 32) (latency : Reader → ℕ)
    (cycle : ℕ) (unread : Unread T key) (onWay : OnWay T key) (written : (k : Key) → List (T k)) :
    Prop where
  writer (k : Key) : (s.writer k).Shows (bandwidth k) cycle (written k).length
  reader (i : Reader) : (s.reader i).Shows (bandwidth (key i)).toNat (latency i) cycle (unread i)
    (onWay i) (written (key i))

variable {s : PortSystem T key} {bandwidth : Key → BitVec 32} {latency : Reader → ℕ} {cycle : ℕ}
  {unread : Unread T key} {onWay : OnWay T key} {written : (k : Key) → List (T k)}

/-- The next cycle. -/
theorem Shows.succ (hlat : ∀ i, 1 ≤ latency i)
    (h : s.Shows bandwidth latency cycle unread onWay written) :
    s.Shows bandwidth latency (cycle + 1)
      (fun i => if latency i = 1 then written (key i) else onWay i 0)
      (fun i j => if j + 2 = latency i then written (key i) else onWay i (j + 1)) fun _ => [] where
  writer k := (h.writer k).succ
  reader i := (h.reader i).succ (hlat i)

/-- One read port is used. -/
theorem Shows.updateReader (h : s.Shows bandwidth latency cycle unread onWay written) {i : Reader}
    {p : ReadPort (T (key i))} {l : List (T (key i))}
    (hp : p.Shows (bandwidth (key i)).toNat (latency i) cycle l (onWay i) (written (key i))) :
    Shows { s with reader := Function.update s.reader i p } bandwidth latency cycle
      (Function.update unread i l) onWay written where
  writer := h.writer
  reader i' := by
    show (Function.update s.reader i p i').Shows _ _ _ _ _ _
    by_cases hi : i' = i
    · subst hi
      rw [Function.update_self, Function.update_self]
      exact hp
    · rw [Function.update_of_ne hi, Function.update_of_ne hi]
      exact h.reader i'

/-- A write that has room in all rings and is let through. -/
theorem Shows.write (hlat : ∀ i, 1 ≤ latency i)
    (h : s.Shows bandwidth latency cycle unread onWay written) {k : Key} (x : T k)
    (hcounter : counterOf cycle ((written k).length + 1) ≤ (bandwidth k).toNat)
    (hroom : ∀ i, key i = k → (unread i).length + ReadPort.load (latency i) (onWay i)
      + (written k).length < (latency i + 1) * (bandwidth k).toNat) :
    ∃ s', s.write k x cycle = (.ok (), s') ∧ s'.Shows bandwidth latency cycle unread onWay
      (Function.update written k (written k ++ [x])) := by
  obtain ⟨p, hp, hshows⟩ := (h.writer k).increment hcounter
  refine ⟨{ writer := Function.update s.writer k p
            reader := fun i =>
              if h : k = key i then (s.reader i).emplaceData cycle (h ▸ x) else s.reader i }, ?_,
    fun k' => ?_, fun i => ?_⟩
  · unfold PortSystem.write
    rw [hp]
  · show (Function.update s.writer k p k').Shows _ _ _
    by_cases hk : k' = k
    · subst hk
      rw [Function.update_self, Function.update_self, List.length_append, List.length_singleton]
      exact hshows
    · rw [Function.update_of_ne hk, Function.update_of_ne hk]
      exact h.writer k'
  · dsimp only
    by_cases hk : k = key i
    · subst hk
      rw [dif_pos rfl, Function.update_self]
      exact (h.reader i).emplaceData (hlat i) (hroom i rfl) x
    · rw [dif_neg hk, Function.update_of_ne (Ne.symm hk)]
      exact h.reader i

variable {In Out : Type} {α : Type} {wire : In → Reader} {out : Out → Key}

section Run

variable [DecidableEq In] [DecidableEq Out]

/-- What a module finds on its ports. -/
def viewOf (wire : In → Reader) (out : Out → Key) (unread : Unread T key)
    (written : (k : Key) → List (T k)) :
    PortView (fun i => T (key (wire i))) (fun o => T (out o)) :=
  ⟨fun i => unread (wire i), fun o => written (out o)⟩

theorem viewOf_update_unread (hwire : Function.Injective wire) (i : In)
    (l : List (T (key (wire i)))) : viewOf wire out (Function.update unread (wire i) l) written
      = { viewOf wire out unread written with
          unread := Function.update (fun i => unread (wire i)) i l } := by
  unfold viewOf
  congr 1
  funext i'
  by_cases hi : i' = i
  · subst hi
    rw [Function.update_self, Function.update_self]
  · rw [Function.update_of_ne hi, Function.update_of_ne (hwire.ne hi)]

theorem viewOf_update_written (hout : Function.Injective out) (o : Out) (l : List (T (out o))) :
    viewOf wire out unread (Function.update written (out o) l)
      = { viewOf wire out unread written with
          written := Function.update (fun o => written (out o)) o l } := by
  unfold viewOf
  congr 1
  funext o'
  by_cases ho : o' = o
  · subst ho
    rw [Function.update_self, Function.update_self]
  · rw [Function.update_of_ne ho, Function.update_of_ne (hout.ne ho)]

/-- What a module leaves: its own ports as the evaluation says, and the others as they were. -/
structure Leaves (wire : In → Reader) (out : Out → Key)
    (v : PortView (fun i => T (key (wire i))) (fun o => T (out o))) (unread unread' : Unread T key)
    (written written' : (k : Key) → List (T k)) : Prop where
  view : viewOf wire out unread' written' = v
  unread_eq : ∀ i, (∀ j, wire j ≠ i) → unread' i = unread i
  written_eq : ∀ k, (∀ o, out o ≠ k) → written' k = written k

/-- The rings have room for what has been written in the end, and the counters let it through. -/
structure Fits (bandwidth : Key → BitVec 32) (latency : Reader → ℕ) (cycle : ℕ)
    (unread : Unread T key) (onWay : OnWay T key) (out : Out → Key)
    (v : (o : Out) → List (T (out o))) : Prop where
  counter : ∀ o, counterOf cycle (v o).length ≤ (bandwidth (out o)).toNat
  room : ∀ o i, key i = out o → (unread i).length + ReadPort.load (latency i) (onWay i)
    + (v o).length ≤ (latency i + 1) * (bandwidth (out o)).toNat

theorem Fits.mono {v : (o : Out) → List (T (out o))}
    (h : Fits bandwidth latency cycle unread onWay out v) {unread' : Unread T key}
    (hle : ∀ i, (unread' i).length ≤ (unread i).length) :
    Fits bandwidth latency cycle unread' onWay out v where
  counter := h.counter
  room o i hi := by
    have := h.room o i hi
    have := hle i
    omega

theorem Leaves.of_update {v : PortView (fun i => T (key (wire i))) (fun o => T (out o))}
    {unread' : Unread T key} {written' : (k : Key) → List (T k)} {i : In}
    {l : List (T (key (wire i)))}
    (h : Leaves wire out v (Function.update unread (wire i) l) unread' written written') :
    Leaves wire out v unread unread' written written' where
  view := h.view
  unread_eq i' hi' := by
    rw [h.unread_eq i' hi', Function.update_of_ne (Ne.symm (hi' i))]
  written_eq := h.written_eq

/-- What is left on a port that is used is no more than what was there. -/
theorem length_update_le {i : Reader} {l : List (T (key i))} (hle : l.length ≤ (unread i).length)
    (i' : Reader) : (Function.update unread i l i').length ≤ (unread i').length := by
  by_cases hi : i' = i
  · subst hi
    rw [Function.update_self]
    exact hle
  · rw [Function.update_of_ne hi]

theorem counterOf_mono {m n : ℕ} (h : m ≤ n) : counterOf cycle m ≤ counterOf cycle n := by
  unfold counterOf
  split_ifs <;> omega

/-- Running a program on the ports is evaluating it. -/
theorem Shows.run (hwire : Function.Injective wire) (hout : Function.Injective out)
    (hlat : ∀ i, 1 ≤ latency i) :
    ∀ (p : PortProg (fun i => T (key (wire i))) (fun o => T (out o)) α) {s : PortSystem T key}
      {unread : Unread T key} {written : (k : Key) → List (T k)},
      s.Shows bandwidth latency cycle unread onWay written →
      (∀ e, (p.eval (viewOf wire out unread written)).1 ≠ .error (.port e)) →
      Fits bandwidth latency cycle unread onWay out
        (p.eval (viewOf wire out unread written)).2.written →
      ∃ s' unread' written', s.run wire out cycle p = ((p.eval (viewOf wire out unread written)).1, s')
        ∧ s'.Shows bandwidth latency cycle unread' onWay written'
        ∧ Leaves wire out (p.eval (viewOf wire out unread written)).2 unread unread' written written'
  | .ret a, s, unread, written, h, _, _ =>
    ⟨s, unread, written, rfl, h, rfl, fun _ _ => rfl, fun _ _ => rfl⟩
  | .fail e, s, unread, written, h, _, _ =>
    ⟨s, unread, written, rfl, h, rfl, fun _ _ => rfl, fun _ _ => rfl⟩
  | .isReady i next, s, unread, written, h, hport, hfits => by
    obtain ⟨hready, hp⟩ := (h.reader (wire i)).isReady
    have hs := h.updateReader hp
    rw [Function.update_eq_self] at hs
    obtain ⟨s', unread', written', hrun, hs', hleaves⟩ := Shows.run hwire hout hlat
      (next !(unread (wire i)).isEmpty) hs hport hfits
    refine ⟨s', unread', written', ?_, hs', hleaves⟩
    rw [PortSystem.run]
    show PortSystem.run wire out cycle (next ((s.reader (wire i)).isReady cycle).1) _ = _
    rw [hready]
    exact hrun
  | .read i next, s, unread, written, h, hport, hfits => by
    rcases hu : unread (wire i) with _ | ⟨x, l⟩
    · refine absurd ?_ (hport PortProg.noData)
      rw [PortProg.eval, show (viewOf wire out unread written).unread i = [] from hu]
    · have heval : (PortProg.read i next).eval (viewOf wire out unread written)
          = (next x).eval (viewOf wire out (Function.update unread (wire i) l) written) := by
        rw [PortProg.eval, show (viewOf wire out unread written).unread i = x :: l from hu,
          viewOf_update_unread hwire]
        rfl
      rw [heval] at hport hfits ⊢
      have hreader := h.reader (wire i)
      rw [hu] at hreader
      obtain ⟨p, hread, hp⟩ := hreader.read (hlat _)
      have hle : l.length ≤ (unread (wire i)).length := by
        rw [hu]
        exact Nat.le_succ _
      obtain ⟨s', unread', written', hrun, hs', hleaves⟩ := Shows.run hwire hout hlat (next x)
        (h.updateReader hp) hport (hfits.mono (length_update_le hle))
      refine ⟨s', unread', written', ?_, hs', hleaves.of_update⟩
      rw [PortSystem.run, hread]
      exact hrun
  | .readAll i next, s, unread, written, h, hport, hfits => by
    have heval : (PortProg.readAll i next).eval (viewOf wire out unread written)
        = (next (unread (wire i))).eval
          (viewOf wire out (Function.update unread (wire i) []) written) := by
      rw [PortProg.eval, viewOf_update_unread hwire]
      rfl
    rw [heval] at hport hfits ⊢
    have hreader := h.reader (wire i)
    obtain ⟨hall, hp⟩ := hreader.readAll (hlat _) hreader.length_unread_le
    obtain ⟨s', unread', written', hrun, hs', hleaves⟩ := Shows.run hwire hout hlat
      (next (unread (wire i))) (h.updateReader hp) hport
      (hfits.mono (length_update_le (Nat.zero_le _)))
    refine ⟨s', unread', written', ?_, hs', hleaves.of_update⟩
    rw [PortSystem.run]
    show PortSystem.run wire out cycle
      (next ((s.reader (wire i)).readAll cycle (s.reader (wire i)).queue.occupied).1) _ = _
    rw [hall]
    exact hrun
  | .write o x next, s, unread, written, h, hport, hfits => by
    have heval : (PortProg.write o x next).eval (viewOf wire out unread written)
        = next.eval (viewOf wire out unread
          (Function.update written (out o) (written (out o) ++ [x]))) := by
      rw [PortProg.eval, viewOf_update_written hout]
      rfl
    rw [heval] at hport hfits ⊢
    have hlength : (written (out o)).length + 1 ≤ ((next.eval (viewOf wire out unread
        (Function.update written (out o) (written (out o) ++ [x])))).2.written o).length := by
      have := (PortProg.written_eval o next (viewOf wire out unread
        (Function.update written (out o) (written (out o) ++ [x])))).length_le
      simpa [viewOf] using this
    obtain ⟨t, hwrite, ht⟩ := h.write hlat x
      ((counterOf_mono hlength).trans (hfits.counter o)) fun i hi => by
        have := hfits.room o i hi
        omega
    obtain ⟨s', unread', written', hrun, hs', hleaves⟩ :=
      Shows.run hwire hout hlat next ht hport hfits
    refine ⟨s', unread', written', ?_, hs', hleaves.view, hleaves.unread_eq, fun k hk => ?_⟩
    · rw [PortSystem.run, hwrite]
      exact hrun
    · rw [hleaves.written_eq k hk, Function.update_of_ne (Ne.symm (hk o))]

end Run

end PortSystem

end System

end MiptMips
