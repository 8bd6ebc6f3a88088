import MiptMips.Infra.Ports
import MiptMips.Lib.Outcomes

/-!
# The port map

Ports are added to a map by their keys as the modules make them, and are connected afterwards, one
key after another in whatever order the map has. Nothing is thrown if and only if no two write
ports have one key, every write port has readers, and every read port has a writer of its type.
What is thrown tells one such fault of the ports.
-/

namespace MiptMips

open Machines

variable {τ : Type}

/-- A write port as it is made; `type` is its template argument. -/
structure BasicWritePort (τ : Type) where
  key : String
  type : τ
  installedBandwidth : BitVec 32
  deriving DecidableEq

structure BasicReadPort (τ : Type) where
  key : String
  type : τ
  latency : ℕ
  deriving DecidableEq

inductive BasicPort (τ : Type) where
  | write (p : BasicWritePort τ)
  | read (p : BasicReadPort τ)
  deriving DecidableEq

/-- A write port after it is initialized. -/
structure InitializedPort (τ : Type) where
  port : BasicWritePort τ
  fanout : ℕ
  initializedBandwidth : BitVec 32
  destinations : List (BasicReadPort τ)
  deriving DecidableEq

structure PortMap.Cluster (τ : Type) where
  writer : Option (BasicWritePort τ) := none
  readers : List (BasicReadPort τ) := []

/-- The clusters by key; a key that is not in the map has an empty one. -/
abbrev PortMap (τ : Type) := String → PortMap.Cluster τ

/-- A writer with its readers, and the sizes of their queues. -/
structure Connection (τ : Type) where
  writer : InitializedPort τ
  capacities : List ℕ
  deriving DecidableEq

section Model

def BasicPort.key : BasicPort τ → String
  | write p => p.key
  | read p => p.key

section Initialize

variable [DecidableEq τ]

namespace BasicWritePort

variable (p : BasicWritePort τ)

/-- `dynamic_cast` of a reader succeeds when it has the type of the writer. -/
def addReader (destinations : List (BasicReadPort τ)) (reader : BasicReadPort τ) :
    Except PortError (List (BasicReadPort τ)) :=
  if reader.type = p.type then .ok (destinations ++ [reader])
  else .error ⟨p.key ++ " has type mismatch between write and read ports"⟩

def init (readers : List (BasicReadPort τ)) : Except PortError (InitializedPort τ) :=
  if readers.isEmpty then .error ⟨p.key ++ " has no ReadPorts"⟩
  else do
    let destinations ← readers.foldlM p.addReader []
    return {
      port := p
      fanout := readers.length
      initializedBandwidth := p.installedBandwidth
      destinations }

end BasicWritePort

end Initialize

namespace PortMap

variable (map : PortMap τ)

def addPort : BasicPort τ → Except PortError (PortMap τ)
  | .write p =>
    if (map p.key).writer.isSome then .error ⟨p.key ++ " has two WritePorts"⟩
    else .ok (Function.update map p.key { map p.key with writer := some p })
  | .read p =>
    .ok (Function.update map p.key
      { map p.key with readers := (map p.key).readers ++ [p] })

variable [DecidableEq τ]

/-- What `init` does for one key. -/
def initCluster (key : String) : Except PortError (Connection τ) :=
  match (map key).writer with
  | none => .error ⟨key ++ " has no WritePort"⟩
  | some p => do
    let writer ← p.init (map key).readers
    return {
      writer
      capacities := (map key).readers.map fun r =>
        (r.latency + 1) * writer.initializedBandwidth.toNat }

/-- `init` with the order in which the map gives its keys. -/
def init (order : List String) : Except PortError (List (Connection τ)) :=
  order.mapM map.initCluster

/-- Ports are added one after another, and then connected. -/
def connect (ports : List (BasicPort τ)) (order : List String) :
    Except PortError (List (Connection τ)) := do
  let map ← ports.foldlM addPort (fun _ => {})
  map.init order

end PortMap

end Model

namespace PortMap

section Specification

variable (ports : List (BasicPort τ))

def writers : List (BasicWritePort τ) := ports.filterMap fun
  | .write p => some p
  | .read _ => none

def readers : List (BasicReadPort τ) := ports.filterMap fun
  | .write _ => none
  | .read p => some p

def readersOf (key : String) : List (BasicReadPort τ) :=
  (readers ports).filter (·.key = key)

/-- What may be wrong with the ports, by the message that tells it. -/
inductive PortFaultMessage : String → Prop
  | twoWriters (key : String) :
    2 ≤ ((writers ports).map (·.key)).count key →
    PortFaultMessage (key ++ " has two WritePorts")
  | noWriter (r : BasicReadPort τ) : r ∈ readers ports → (∀ p ∈ writers ports, p.key ≠ r.key) →
    PortFaultMessage (r.key ++ " has no WritePort")
  | noReaders (p : BasicWritePort τ) : p ∈ writers ports → readersOf ports p.key = [] →
    PortFaultMessage (p.key ++ " has no ReadPorts")
  | typeMismatch (p : BasicWritePort τ) (r : BasicReadPort τ) : p ∈ writers ports →
    r ∈ readersOf ports p.key → r.type ≠ p.type →
    PortFaultMessage (p.key ++ " has type mismatch between write and read ports")

/-- Every reader of the key of a write port is connected to it. -/
def connectionOf (p : BasicWritePort τ) : Connection τ where
  writer :=
    { port := p
      fanout := (readersOf ports p.key).length
      initializedBandwidth := p.installedBandwidth
      destinations := readersOf ports p.key }
  capacities := (readersOf ports p.key).map fun r =>
    (r.latency + 1) * p.installedBandwidth.toNat

end Specification

section Add

variable {map map' : PortMap τ} {ports : List (BasicPort τ)}

/-- The map with more ports in it. -/
def extend (map : PortMap τ) (ports : List (BasicPort τ)) : PortMap τ := fun key =>
  { writer := (map key).writer.or ((writers ports).find? (·.key = key))
    readers := (map key).readers ++ readersOf ports key }

theorem extend_nil (map : PortMap τ) : map.extend [] = map := by
  funext key
  simp [extend, writers, readersOf, readers]

theorem extend_write {p : BasicWritePort τ} (h : (map p.key).writer = none) :
    PortMap.extend (Function.update map p.key { map p.key with writer := some p }) ports
      = map.extend (.write p :: ports) := by
  funext key
  by_cases hkey : key = p.key
  · subst hkey
    simp [extend, writers, readersOf, readers, h]
  · simp [extend, writers, readersOf, readers, Function.update_of_ne hkey, Ne.symm hkey]

theorem extend_read (p : BasicReadPort τ) :
    PortMap.extend (Function.update map p.key
        { map p.key with readers := (map p.key).readers ++ [p] }) ports
      = map.extend (.read p :: ports) := by
  funext key
  by_cases hkey : key = p.key
  · subst hkey
    simp [extend, writers, readersOf, readers]
  · simp [extend, writers, readersOf, readers, Function.update_of_ne hkey, Ne.symm hkey]

/-- The write ports to be added have keys of their own. -/
structure Addable (map : PortMap τ) (ports : List (BasicPort τ)) : Prop where
  nodup : ((writers ports).map (·.key)).Nodup
  free : ∀ p ∈ writers ports, (map p.key).writer = none

theorem addable_write {p : BasicWritePort τ} (h : (map p.key).writer = none) :
    map.Addable (.write p :: ports) ↔ PortMap.Addable
      (Function.update map p.key { map p.key with writer := some p }) ports := by
  have hcons : writers (.write p :: ports) = p :: writers ports := rfl
  constructor
  · rintro ⟨hnodup, hfree⟩
    rw [hcons, List.map_cons, List.nodup_cons] at hnodup
    refine ⟨hnodup.2, fun q hq => ?_⟩
    have hkey : q.key ≠ p.key := fun he => hnodup.1 (he ▸ List.mem_map_of_mem hq)
    rw [Function.update_of_ne hkey]
    exact hfree q (hcons ▸ List.mem_cons_of_mem _ hq)
  · rintro ⟨hnodup, hfree⟩
    have hkey : ∀ q ∈ writers ports, q.key ≠ p.key := fun q hq he => by
      have hq' := hfree q hq
      rw [he, Function.update_self] at hq'
      cases hq'
    refine ⟨?_, fun q hq => ?_⟩
    · rw [hcons, List.map_cons, List.nodup_cons]
      refine ⟨fun hmem => ?_, hnodup⟩
      obtain ⟨q, hq, he⟩ := List.mem_map.1 hmem
      exact hkey q hq he
    · rcases List.mem_cons.1 (hcons ▸ hq) with rfl | hq
      · exact h
      · have hq' := hfree q hq
        rwa [Function.update_of_ne (hkey q hq)] at hq'

theorem addable_read (p : BasicReadPort τ) :
    map.Addable (.read p :: ports) ↔ PortMap.Addable (Function.update map p.key
      { map p.key with readers := (map p.key).readers ++ [p] }) ports := by
  have hwriter : ∀ key, (Function.update map p.key
      { map p.key with readers := (map p.key).readers ++ [p] } key).writer = (map key).writer := by
    intro key
    by_cases hkey : key = p.key
    · subst hkey
      rw [Function.update_self]
    · rw [Function.update_of_ne hkey]
  exact ⟨fun h => ⟨h.nodup, fun q hq => (hwriter _).trans (h.free q hq)⟩,
    fun h => ⟨h.nodup, fun q hq => (hwriter _).symm.trans (h.free q hq)⟩⟩

theorem addAll_iff : ∀ {ports : List (BasicPort τ)} {map : PortMap τ},
    ports.foldlM addPort map = .ok map' ↔ map.Addable ports ∧ map' = map.extend ports
  | [], map => by
    rw [extend_nil]
    constructor
    · intro h
      cases h
      exact ⟨⟨.nil, nofun⟩, rfl⟩
    · rintro ⟨-, rfl⟩
      rfl
  | .write p :: ports, map => by
    rw [List.foldlM_cons, addPort]
    by_cases h : (map p.key).writer = none
    · rw [if_neg (by simp [h]), addable_write h, ← extend_write h]
      exact addAll_iff
    · rw [if_pos (Option.isSome_iff_ne_none.2 h)]
      exact iff_of_false nofun fun hadd => h (hadd.1.free p List.mem_cons_self)
  | .read p :: ports, map => by
    rw [List.foldlM_cons, addPort, addable_read, ← extend_read]
    exact addAll_iff

/-- A key that is refused has two write ports. -/
theorem exists_of_addAll_error {e : PortError} : ∀ {ports : List (BasicPort τ)} {map : PortMap τ},
    ports.foldlM addPort map = .error e → ∃ key, e = ⟨key ++ " has two WritePorts"⟩
      ∧ 2 ≤ (if (map key).writer.isSome then 1 else 0) + ((writers ports).map (·.key)).count key
  | [], _, h => by cases h
  | .write p :: ports, map, h => by
    have hcons : ((writers (.write p :: ports)).map (·.key))
        = p.key :: (writers ports).map (·.key) := rfl
    rw [List.foldlM_cons, addPort] at h
    split_ifs at h with hsome
    · cases h
      refine ⟨p.key, rfl, ?_⟩
      rw [if_pos hsome, hcons, List.count_cons_self]
      omega
    · obtain ⟨key, rfl, hcount⟩ := exists_of_addAll_error h
      refine ⟨key, rfl, ?_⟩
      by_cases hkey : key = p.key
      · subst hkey
        rw [Function.update_self, Option.isSome_some, if_pos rfl] at hcount
        rw [if_neg hsome, hcons, List.count_cons_self]
        omega
      · rw [Function.update_of_ne hkey] at hcount
        rw [hcons, List.count_cons_of_ne (Ne.symm hkey)]
        exact hcount
  | .read p :: ports, map, h => by
    rw [List.foldlM_cons, addPort] at h
    obtain ⟨key, rfl, hcount⟩ := exists_of_addAll_error h
    refine ⟨key, rfl, ?_⟩
    by_cases hkey : key = p.key
    · subst hkey
      rw [Function.update_self] at hcount
      exact hcount
    · rw [Function.update_of_ne hkey] at hcount
      exact hcount

end Add

section Keys

variable {ports : List (BasicPort τ)} {key : String}

theorem find_eq_some (hnodup : ((writers ports).map (·.key)).Nodup) {p : BasicWritePort τ}
    (hp : p ∈ writers ports) : (writers ports).find? (·.key = p.key) = some p := by
  rcases h : (writers ports).find? (·.key = p.key) with _ | q
  · exact absurd (List.find?_eq_none.1 h p hp) (by simp)
  · have hkey : q.key = p.key := by simpa using List.find?_some h
    rw [h, List.inj_on_of_nodup_map hnodup (List.mem_of_find?_eq_some h) hp hkey]

/-- The keys of the map are those of the ports. -/
def IsOrder (ports : List (BasicPort τ)) (order : List String) : Prop :=
  ∀ key, key ∈ order ↔ ∃ port ∈ ports, port.key = key

theorem exists_port_iff : (∃ port ∈ ports, port.key = key)
    ↔ (∃ p ∈ writers ports, p.key = key) ∨ ∃ r ∈ readers ports, r.key = key := by
  constructor
  · rintro ⟨p | r, h, rfl⟩
    · exact .inl ⟨p, List.mem_filterMap.2 ⟨_, h, rfl⟩, rfl⟩
    · exact .inr ⟨r, List.mem_filterMap.2 ⟨_, h, rfl⟩, rfl⟩
  · rintro (⟨p, h, rfl⟩ | ⟨r, h, rfl⟩)
    · obtain ⟨port | port, hport, he⟩ := List.mem_filterMap.1 h
      · cases he
        exact ⟨_, hport, rfl⟩
      · cases he
    · obtain ⟨port | port, hport, he⟩ := List.mem_filterMap.1 h
      · cases he
      · cases he
        exact ⟨_, hport, rfl⟩

theorem nodup_of_no_fault (h : ∀ msg, ¬ PortFaultMessage ports msg) :
    ((writers ports).map (·.key)).Nodup := by
  rw [List.nodup_iff_count_le_one]
  intro key
  by_contra hcount
  exact h _ (.twoWriters key (by omega))

end Keys

section Init

variable [DecidableEq τ] {ports : List (BasicPort τ)} {key : String} {order : List String}

theorem addReaders_eq (p : BasicWritePort τ) : ∀ (rs destinations : List (BasicReadPort τ)),
    rs.foldlM p.addReader destinations = if ∀ r ∈ rs, r.type = p.type then .ok (destinations ++ rs)
      else .error ⟨p.key ++ " has type mismatch between write and read ports"⟩
  | [], destinations => by
    rw [if_pos (by simp), List.append_nil]
    rfl
  | r :: rs, destinations => by
    rw [List.foldlM_cons, BasicWritePort.addReader]
    by_cases h : r.type = p.type
    · rw [if_pos h]
      show rs.foldlM p.addReader (destinations ++ [r]) = _
      rw [addReaders_eq p rs]
      simp [h]
    · rw [if_neg h, if_neg (by simp [h])]
      rfl

/-- The map of all ports, when no key is refused. -/
def ofPorts (ports : List (BasicPort τ)) : PortMap τ := PortMap.extend (fun _ => {}) ports

theorem initCluster_of_find_none (h : (writers ports).find? (·.key = key) = none) :
    (ofPorts ports).initCluster key = .error ⟨key ++ " has no WritePort"⟩ := by
  have hwriter : (ofPorts ports key).writer = none := by simp [ofPorts, extend, h]
  rw [initCluster, hwriter]

theorem initCluster_of_find_some {p : BasicWritePort τ}
    (h : (writers ports).find? (·.key = key) = some p) :
    (ofPorts ports).initCluster key = if readersOf ports key = [] then
        .error ⟨p.key ++ " has no ReadPorts"⟩
      else if ∀ r ∈ readersOf ports key, r.type = p.type then .ok (connectionOf ports p)
      else .error ⟨p.key ++ " has type mismatch between write and read ports"⟩ := by
  obtain rfl : p.key = key := by simpa using List.find?_some h
  have hwriter : (ofPorts ports p.key).writer = some p := by simp [ofPorts, extend, h]
  have hreaders : (ofPorts ports p.key).readers = readersOf ports p.key := rfl
  rw [initCluster, hwriter, hreaders]
  dsimp only
  unfold BasicWritePort.init
  rw [addReaders_eq]
  by_cases hempty : readersOf ports p.key = []
  · simp [hempty]
  · rw [if_neg (by simpa using hempty), if_neg hempty]
    split_ifs <;> rfl

theorem connect_eq (h : ((writers ports).map (·.key)).Nodup) (order : List String) :
    connect ports order = (ofPorts ports).init order := by
  have hadd : ports.foldlM addPort (fun _ => {}) = .ok (ofPorts ports) :=
    addAll_iff.2 ⟨⟨h, fun _ _ => rfl⟩, rfl⟩
  unfold connect
  rw [hadd]
  rfl

/-- What is thrown for a key is a fault of the ports. -/
theorem fault_of_initCluster {e : PortError} (hkey : ∃ port ∈ ports, port.key = key)
    (h : (ofPorts ports).initCluster key = .error e) : PortFaultMessage ports e.msg := by
  rcases hfind : (writers ports).find? (·.key = key) with _ | p
  · rw [initCluster_of_find_none hfind] at h
    cases h
    have hnone := List.find?_eq_none.1 hfind
    rcases exists_port_iff.1 hkey with ⟨p, hp, rfl⟩ | ⟨r, hr, rfl⟩
    · exact absurd (hnone p hp) (by simp)
    · exact .noWriter r hr fun p hp he => hnone p hp (by simpa using he)
  · rw [initCluster_of_find_some hfind] at h
    have hp := List.mem_of_find?_eq_some hfind
    obtain rfl : p.key = key := by simpa using List.find?_some hfind
    split_ifs at h with hempty htypes
    · cases h
      exact .noReaders p hp hempty
    · cases h
      push Not at htypes
      obtain ⟨r, hr, hne⟩ := htypes
      exact .typeMismatch p r hp hr hne

theorem initCluster_of_no_fault (h : ∀ msg, ¬ PortFaultMessage ports msg)
    (hkey : ∃ port ∈ ports, port.key = key) :
    ∃ p ∈ writers ports, p.key = key
      ∧ (ofPorts ports).initCluster key = .ok (connectionOf ports p) := by
  rcases hfind : (writers ports).find? (·.key = key) with _ | p
  · exact absurd (fault_of_initCluster hkey (initCluster_of_find_none hfind)) (h _)
  · have hp := List.mem_of_find?_eq_some hfind
    have hpkey : p.key = key := by simpa using List.find?_some hfind
    refine ⟨p, hp, hpkey, ?_⟩
    rcases hc : (ofPorts ports).initCluster key with e | c
    · exact absurd (fault_of_initCluster hkey hc) (h _)
    · rw [initCluster_of_find_some hfind] at hc
      split_ifs at hc
      exact congrArg _ (Except.ok.inj hc).symm

/-- Ports without a fault are connected, each writer to all readers of its key. -/
theorem connect_of_no_fault (horder : IsOrder ports order)
    (h : ∀ msg, ¬ PortFaultMessage ports msg) : ∃ cs, connect ports order = .ok cs
      ∧ List.Forall₂ (fun key c => ∃ p ∈ writers ports, p.key = key ∧ c = connectionOf ports p)
        order cs := by
  have hkeys : ∀ key ∈ order, ∃ p ∈ writers ports, p.key = key
      ∧ (ofPorts ports).initCluster key = .ok (connectionOf ports p) := fun key hkey =>
    initCluster_of_no_fault h ((horder key).1 hkey)
  rw [connect_eq (nodup_of_no_fault h)]
  clear horder
  induction order with
  | nil => exact ⟨[], rfl, .nil⟩
  | cons key order ih =>
    obtain ⟨cs, hcs, hall⟩ := ih fun k hk => hkeys k (List.mem_cons_of_mem _ hk)
    obtain ⟨p, hp, hpkey, hc⟩ := hkeys key List.mem_cons_self
    exact ⟨connectionOf ports p :: cs, mapM_eq_ok.2 (.cons hc (mapM_eq_ok.1 hcs)),
      .cons ⟨p, hp, hpkey, rfl⟩ hall⟩

/-- What is thrown is a fault of the ports. -/
theorem fault_of_connect (horder : IsOrder ports order) {e : PortError}
    (h : connect ports order = .error e) : PortFaultMessage ports e.msg := by
  obtain _ | hnodup := em' ((writers ports).map (·.key)).Nodup
  · rcases hadd : ports.foldlM addPort (fun _ => {}) with e' | map
    · obtain ⟨key, rfl, hcount⟩ := exists_of_addAll_error hadd
      unfold connect at h
      rw [hadd] at h
      cases h
      exact .twoWriters key (by simpa using hcount)
    · have hnodup := (addAll_iff.1 hadd).1.nodup
      contradiction
  · rw [connect_eq hnodup] at h
    obtain ⟨key, hkey, h⟩ := exists_of_mapM_eq_error h
    exact fault_of_initCluster ((horder key).1 hkey) h

theorem no_fault_of_connect (horder : IsOrder ports order) {cs : List (Connection τ)}
    (h : connect ports order = .ok cs) (msg : String) : ¬ PortFaultMessage ports msg := by
  intro hfault
  obtain ⟨map, hadd, hinit⟩ := bind_eq_ok.1 h
  obtain ⟨hadds, rfl⟩ := addAll_iff.1 hadd
  have hall : ∀ key ∈ order, ∃ c, (ofPorts ports).initCluster key = .ok c := fun key hkey =>
    let ⟨c, _, hc⟩ := exists_mem_of_forall₂ (mapM_eq_ok.1 hinit) hkey
    ⟨c, hc⟩
  cases hfault with
  | twoWriters key hcount =>
    have := List.nodup_iff_count_le_one.1 hadds.nodup key
    omega
  | noWriter r hr hnone =>
    obtain ⟨c, hc⟩ := hall r.key ((horder _).2 (exists_port_iff.2 (.inr ⟨r, hr, rfl⟩)))
    rw [initCluster_of_find_none (List.find?_eq_none.2 fun p hp => by simpa using hnone p hp)] at hc
    cases hc
  | noReaders p hp hempty =>
    obtain ⟨c, hc⟩ := hall p.key ((horder _).2 (exists_port_iff.2 (.inl ⟨p, hp, rfl⟩)))
    rw [initCluster_of_find_some (find_eq_some hadds.nodup hp), if_pos hempty] at hc
    cases hc
  | typeMismatch p r hp hr hne =>
    obtain ⟨c, hc⟩ := hall p.key ((horder _).2 (exists_port_iff.2 (.inl ⟨p, hp, rfl⟩)))
    rw [initCluster_of_find_some (find_eq_some hadds.nodup hp),
      if_neg (List.ne_nil_of_mem hr), if_neg fun h => hne (h r hr)] at hc
    cases hc

/-- For all ports, and whatever the order of the map: what is thrown tells a fault of the ports,
nothing is thrown if and only if there is none, and then each writer is connected to all readers of
its key. -/
theorem connect_spec (ports : List (BasicPort τ)) {order : List String}
    (horder : IsOrder ports order) :
    (∀ e, connect ports order = .error e → PortFaultMessage ports e.msg)
      ∧ ((∀ msg, ¬ PortFaultMessage ports msg) ↔ ∃ cs, connect ports order = .ok cs)
      ∧ ∀ cs, connect ports order = .ok cs →
        List.Forall₂ (fun key c => ∃ p ∈ writers ports, p.key = key ∧ c = connectionOf ports p)
          order cs := by
  refine ⟨fun e => fault_of_connect horder, ⟨fun h => ?_, fun ⟨cs, hcs⟩ =>
    no_fault_of_connect horder hcs⟩, fun cs hcs => ?_⟩
  · obtain ⟨cs, hcs, -⟩ := connect_of_no_fault horder h
    exact ⟨cs, hcs⟩
  · obtain ⟨cs', hcs', hall⟩ := connect_of_no_fault horder (no_fault_of_connect horder hcs)
    cases hcs.symm.trans hcs'
    exact hall

end Init

section Example

/-- Two keys, one of which nothing is written to. -/
def unwrittenPorts : List (BasicPort Unit) :=
  [.write ⟨"A", (), 1#32⟩, .read ⟨"A", (), 2⟩, .read ⟨"B", (), 1⟩]

theorem isOrder_unwrittenPorts : IsOrder unwrittenPorts ["B", "A"] := fun key => by
  simp [unwrittenPorts, BasicPort.key, or_comm, eq_comm]

theorem connect_spec_unwritten :
    (∀ e, connect unwrittenPorts ["B", "A"] = .error e → PortFaultMessage unwrittenPorts e.msg)
      ∧ ¬ ∀ msg, ¬ PortFaultMessage unwrittenPorts msg := by
  obtain ⟨herror, hok, -⟩ := connect_spec unwrittenPorts isOrder_unwrittenPorts
  refine ⟨herror, fun h => ?_⟩
  obtain ⟨cs, hcs⟩ := hok.1 h
  cases hcs

end Example

end PortMap

end MiptMips
