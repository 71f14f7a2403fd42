import HomeAutomaton.Proofs.Sameness
import HomeAutomaton.Returns
import HomeAutomaton.Model.Flat

/-!
# Entries of a table

Collecting a table reads its records one by one and puts what they stand for into the machine. The two can
be taken apart: what a record is read as depends on the record and its key alone (`Record.entry`), and what
becomes of the machine depends on what was read (`Machine.ofEntries`).

* `Machine.ofTable_eq_ok` says that this is how a table is collected.
* `Machine.ofEntries_nodes` and `Machine.ofEntries_transitions` say what the machine then holds: all nodes,
  if they have different paths, and the transitions that are the first with their key.
-/

namespace HomeAutomaton

/-- What a record of a table stands for. -/
inductive TableEntry where
  | node (n : Node)
  /-- A transition, with the number of its record. -/
  | transition (t : Transition) (label : Nat)
  /-- Neither of them. -/
  | unknown

/-- A transition with the key that it is told apart by. -/
abbrev KeyedTransition := Transition × TransitionKey

namespace TableEntry

/-- The node that was read, if it is one. -/
def node? : Except Fault TableEntry → Option Node
  | .ok (.node n) => some n
  | _ => none

/-- The transition that was read, if it is one. -/
def transition? : Except Fault TableEntry → Option KeyedTransition
  | .ok (.transition t label) => some (t, .ofPath t.path (.record label))
  | _ => none

/-- The record could be read, and what was read can be looked up. -/
def Sound : Except Fault TableEntry → Prop
  | .ok (.node n) => n.path.isKey = true
  | .ok (.transition t label) => (TransitionKey.ofPath t.path (.record label)).isKey = true
  | .ok .unknown => True
  | .error _ => False

end TableEntry

namespace Record

/-- The transition that a record with pointers stands for. -/
def pointerTransition (r : Record) (g : Graph) (kind : TransitionKind) (otherwise : Data) :
    Except Fault Transition := do
  let pointers ← r.pointers g
  let src := g.refPath (pointers.field "src")
  let attributes ← g.attributes (r.field "attributes")
  .ok
    { kind, src
      dst := match kind, g.refPath (pointers.field "dst") with
        | .internal, .null => src
        | _, dst => dst
      attributes
      path := r.pathOr g otherwise }

/-- A record with pointers is read, and then it is added. -/
theorem addPointerTransition_eq (r : Record) (g : Graph) (kind : TransitionKind) (otherwise : Data)
    (m : Machine) : r.addPointerTransition g kind otherwise m = (do
      let t ← r.pointerTransition g kind otherwise
      let (_, m) ← m.addTransition t (.ofPath t.path (.record r.label))
      .ok m) := by
  unfold addPointerTransition pointerTransition
  cases r.pointers g with
  | error e => rfl
  | ok pointers => cases g.attributes (r.field "attributes") <;> rfl

/-- What a record under a key stands for. -/
def entry (r : Record) (g : Graph) (key : Data) : Except Fault TableEntry :=
  match r.pointerKind? g with
  | some kind => do .ok (.transition (← r.pointerTransition g kind key) r.label)
  | none => do
    match ← (r.node? g key).result with
    | some n => .ok (.node n)
    | none => .ok .unknown

variable {g : Graph} {r : Record}

/-- A record with pointers stands for a transition. -/
theorem entry_of_pointers {kind : TransitionKind} (h : r.pointerKind? g = some kind) (key : Data) :
    r.entry g key = (do .ok (.transition (← r.pointerTransition g kind key) r.label)) := by
  rw [entry, h]

/-- A record without pointers stands for a node, if it has one of the types of nodes. -/
theorem entry_of_none (h : r.pointerKind? g = none) (key : Data) :
    r.entry g key = (do
      match ← (r.node? g key).result with
      | some n => .ok (.node n)
      | none => .ok .unknown) := by
  rw [entry, h]

/-- A record with pointers stands for no node. -/
theorem node?_entry_of_pointers {kind : TransitionKind} (h : r.pointerKind? g = some kind) (key : Data) :
    TableEntry.node? (r.entry g key) = none := by
  rw [entry_of_pointers h]
  cases r.pointerTransition g kind key <;> rfl

/-- A record without pointers stands for no transition. -/
theorem transition?_entry_of_none (h : r.pointerKind? g = none) (key : Data) :
    TableEntry.transition? (r.entry g key) = none := by
  rw [entry_of_none h]
  rcases (r.node? g key).result with e | _ | n <;> rfl

end Record

/-- What the records of a table stand for. -/
def Graph.entries (g : Graph) (objects : Table Value) : List (Except Fault TableEntry) :=
  (g.tableRecords objects).map fun e => e.2.entry g e.1

namespace Machine

variable {g : Graph} {m m' : Machine}

/-- A node whose path is not known keeps the paths of a machine distinct. -/
theorem distinct_concat (m : Machine) (n : Node)
    (hsame : ¬ (m.nodes.any fun other => other.path.same n.path) = true) :
    DistinctPaths (m.nodes ++ [n]) :=
  m.distinct.concat hsame

/-- The machine with one more node, unless its path is known. -/
def withNode (m : Machine) (n : Node) : Machine :=
  if hsame : m.nodes.any fun other => other.path.same n.path then m
  else { m with nodes := m.nodes ++ [n], distinct := m.distinct_concat n hsame }

/-- The machine with one more transition, unless its key is known. -/
def withTransition (m : Machine) (t : KeyedTransition) : Machine :=
  if m.keys.any t.2.same then m
  else { m with transitions := m.transitions ++ [t.1], keys := m.keys ++ [t.2] }

/-- The machine that entries come to: nodes first, then transitions. -/
def ofEntries (es : List (Except Fault TableEntry)) : Machine :=
  (es.filterMap TableEntry.transition?).foldl withTransition
    ((es.filterMap TableEntry.node?).foldl withNode {})

/-- A node whose path can be looked up is added. -/
theorem addNode_of_isKey (m : Machine) {n : Node} (hkey : n.path.isKey = true) :
    ∃ added, m.addNode n = .ok (added, m.withNode n) := by
  unfold addNode withNode
  rw [hkey]
  split
  next h => cases h
  next =>
    split
    next => exact ⟨_, rfl⟩
    next => exact ⟨_, rfl⟩

theorem addNode_of_not_isKey (m : Machine) {n : Node} (hkey : n.path.isKey = false) :
    m.addNode n = .error .notKey := by
  rw [addNode, hkey]
  rfl

/-- A transition whose key can be looked up is added. -/
theorem addTransition_of_isKey (m : Machine) (t : Transition) {key : TransitionKey}
    (hkey : key.isKey = true) :
    ∃ added, m.addTransition t key = .ok (added, m.withTransition (t, key)) := by
  unfold addTransition withTransition
  rw [hkey]
  split
  next h => cases h
  next =>
    split
    next => exact ⟨_, rfl⟩
    next => exact ⟨_, rfl⟩

theorem addTransition_of_not_isKey (m : Machine) (t : Transition) {key : TransitionKey}
    (hkey : key.isKey = false) :
    m.addTransition t key = .error .notKey := by
  rw [addTransition, hkey]
  rfl

/-- Collecting the nodes of records that have no pointers. -/
theorem addTableNodes_eq_ok {records : List (Data × Record)}
    (h : ∀ e ∈ records, e.2.pointerKind? g = none) :
    (addTableNodes g m records).result = .ok m' ↔
      (∀ e ∈ records, TableEntry.Sound (e.2.entry g e.1)) ∧
        (records.filterMap fun e => TableEntry.node? (e.2.entry g e.1)).foldl withNode m = m' := by
  -- along the records; where reading one fails, its entry is not sound
  induction records generalizing m with
  | nil => simp [addTableNodes]
  | cons e records ih =>
    obtain ⟨hfirst, hrest⟩ := List.forall_mem_cons.mp h
    obtain ⟨key, r⟩ := e
    rw [addTableNodes, List.forall_mem_cons, List.filterMap_cons, Record.entry_of_none hfirst]
    cases hnode : (r.node? g key).result with
    | error fault =>
      rw [Logged.bind_of_error hnode]
      simp [TableEntry.Sound, bind, Except.bind]
    | ok n? =>
      rw [Logged.bind_of_ok hnode, ok_bind]
      cases n? with
      | none =>
        -- what is no node is reported
        change (addTableNodes g m records).result = .ok m' ↔ _
        rw [ih hrest]
        simp [TableEntry.Sound, TableEntry.node?]
      | some n =>
        cases hkey : n.path.isKey with
        | false => simp [m.addNode_of_not_isKey hkey, TableEntry.Sound, hkey]
        | true =>
          obtain ⟨added, hadd⟩ := m.addNode_of_isKey hkey
          simp [hadd, ih hrest, TableEntry.Sound, hkey, TableEntry.node?]

/-- Collecting the transitions of records that have pointers. -/
theorem addTableTransitions_eq_ok {records : List (Data × Record × TransitionKind)}
    (h : ∀ e ∈ records, e.2.1.pointerKind? g = some e.2.2) :
    addTableTransitions g m records = .ok m' ↔
      (∀ e ∈ records, TableEntry.Sound (e.2.1.entry g e.1)) ∧
        (records.filterMap fun e => TableEntry.transition? (e.2.1.entry g e.1)).foldl withTransition m
          = m' := by
  -- along the records, as for nodes; but none of them is passed over
  induction records generalizing m with
  | nil => simp [addTableTransitions]
  | cons e records ih =>
    obtain ⟨hfirst, hrest⟩ := List.forall_mem_cons.mp h
    obtain ⟨key, r, kind⟩ := e
    rw [addTableTransitions, List.forall_mem_cons, List.filterMap_cons,
      Record.entry_of_pointers hfirst, Record.addPointerTransition_eq]
    cases htransition : r.pointerTransition g kind key with
    | error fault => simp [TableEntry.Sound, bind, Except.bind]
    | ok t =>
      simp only [ok_bind]
      cases hkey : (TransitionKey.ofPath t.path (.record r.label)).isKey with
      | false =>
        simp [m.addTransition_of_not_isKey t hkey, TableEntry.Sound, hkey, bind, Except.bind]
      | true =>
        obtain ⟨added, hadd⟩ := m.addTransition_of_isKey t hkey
        simp [hadd, ih hrest, TableEntry.Sound, hkey, TableEntry.transition?]

end Machine

/-! ### A whole table -/

namespace Graph

variable {g : Graph} {objects : Table Value}

/-- The records of a table that have no pointers. -/
def plainRecords (g : Graph) (objects : Table Value) : List (Data × Record) :=
  (g.tableRecords objects).filter fun e => (e.2.pointerKind? g).isNone

/-- The records of a table that have pointers, each with the kind of transition that it names. -/
def pointerRecords (g : Graph) (objects : Table Value) : List (Data × Record × TransitionKind) :=
  (g.tableRecords objects).filterMap fun e => (e.2.pointerKind? g).map fun kind => (e.1, e.2, kind)

/-- Plain records have no pointers. -/
theorem pointerKind?_of_mem_plainRecords {e : Data × Record} (h : e ∈ g.plainRecords objects) :
    e.2.pointerKind? g = none :=
  Option.isNone_iff_eq_none.mp (List.mem_filter.mp h).2

/-- Pointer records have some. -/
theorem pointerKind?_of_mem_pointerRecords {e : Data × Record × TransitionKind}
    (h : e ∈ g.pointerRecords objects) : e.2.1.pointerKind? g = some e.2.2 := by
  obtain ⟨e, -, hkind⟩ := List.mem_filterMap.mp h
  obtain ⟨kind, hpointers, rfl⟩ := Option.map_eq_some_iff.mp hkind
  exact hpointers

/-- Nodes are read off the records without pointers. -/
theorem nodes_plainRecords :
    (g.plainRecords objects).filterMap (fun e => TableEntry.node? (e.2.entry g e.1)) =
      (g.entries objects).filterMap TableEntry.node? := by
  rw [plainRecords, entries, List.filterMap_map, List.filterMap_filter]
  refine congrArg (List.filterMap · _) (funext fun e => ?_)
  cases h : e.2.pointerKind? g with
  | none => rfl
  | some kind => exact (Record.node?_entry_of_pointers h e.1).symm

/-- Transitions are read off the records with pointers. -/
theorem transitions_pointerRecords :
    (g.pointerRecords objects).filterMap (fun e => TableEntry.transition? (e.2.1.entry g e.1)) =
      (g.entries objects).filterMap TableEntry.transition? := by
  rw [pointerRecords, entries, List.filterMap_map, List.filterMap_filterMap]
  refine congrArg (List.filterMap · _) (funext fun e => ?_)
  cases h : e.2.pointerKind? g with
  | none => exact (Record.transition?_entry_of_none h e.1).symm
  | some kind => rfl

/-- Every record has pointers or has none. -/
theorem sound_entries_iff : (∀ e ∈ g.entries objects, TableEntry.Sound e) ↔
    (∀ e ∈ g.plainRecords objects, TableEntry.Sound (e.2.entry g e.1)) ∧
      ∀ e ∈ g.pointerRecords objects, TableEntry.Sound (e.2.1.entry g e.1) := by
  simp only [entries, plainRecords, pointerRecords, List.forall_mem_map, List.mem_filter,
    List.mem_filterMap]
  constructor
  · refine fun h => ⟨fun e he => h e he.1, ?_⟩
    rintro _ ⟨e, he, hkind⟩
    obtain ⟨kind, -, rfl⟩ := Option.map_eq_some_iff.mp hkind
    exact h e he
  · rintro ⟨hnode, htransition⟩ e he
    cases hkind : e.2.pointerKind? g with
    | none => exact hnode e ⟨he, by rw [hkind]; rfl⟩
    | some kind => exact htransition (e.1, e.2, kind) ⟨e, he, by rw [hkind]; rfl⟩

end Graph

namespace Machine

variable {g : Graph} {m : Machine} {objects : Table Value}

/-- **A table is collected from what its records stand for.** -/
theorem ofTable_eq_ok : (ofTable g objects).result = .ok m ↔
    (∀ e ∈ g.entries objects, TableEntry.Sound e) ∧ ofEntries (g.entries objects) = m := by
  have hcollect : ofTable g objects = (do
      let m ← addTableNodes g {} (g.plainRecords objects)
      addTableTransitions g m (g.pointerRecords objects)) := rfl
  rw [hcollect, Logged.bind_eq_ok, Graph.sound_entries_iff, ofEntries, ← Graph.nodes_plainRecords,
    ← Graph.transitions_pointerRecords]
  simp only [addTableNodes_eq_ok fun _ => Graph.pointerKind?_of_mem_plainRecords,
    Logged.liftM_result, addTableTransitions_eq_ok fun _ => Graph.pointerKind?_of_mem_pointerRecords]
  constructor
  · rintro ⟨_, ⟨hnode, rfl⟩, htransition, rfl⟩
    exact ⟨⟨hnode, htransition⟩, rfl⟩
  · rintro ⟨⟨hnode, htransition⟩, rfl⟩
    exact ⟨_, ⟨hnode, rfl⟩, htransition, rfl⟩

/-! ### What the machine holds -/

/-- The transitions that are the first with their key, where some keys are known already. -/
def firstKeyed : List TransitionKey → List KeyedTransition → List Transition
  | _, [] => []
  | keys, t :: ts =>
    if keys.any t.2.same then firstKeyed keys ts else t.1 :: firstKeyed (keys ++ [t.2]) ts

/-- Adding transitions keeps the nodes, and adds those that are the first with their key. -/
theorem foldl_withTransition (ts : List KeyedTransition) (m : Machine) :
    (ts.foldl withTransition m).nodes = m.nodes ∧
      (ts.foldl withTransition m).transitions = m.transitions ++ firstKeyed m.keys ts := by
  induction ts generalizing m with
  | nil => exact ⟨rfl, (List.append_nil _).symm⟩
  | cons t ts ih =>
    obtain ⟨hnodes, htransitions⟩ := ih (m.withTransition t)
    rw [List.foldl_cons, hnodes, htransitions, withTransition, firstKeyed]
    split
    next => exact ⟨rfl, rfl⟩
    next => exact ⟨rfl, by rw [List.append_assoc, List.singleton_append]⟩

/-- Nodes with paths of their own are all new. -/
theorem foldl_withNode {ns : List Node} {m : Machine} (h : DistinctPaths (m.nodes ++ ns)) :
    (ns.foldl withNode m).nodes = m.nodes ++ ns ∧
      (ns.foldl withNode m).transitions = m.transitions ∧ (ns.foldl withNode m).keys = m.keys := by
  induction ns generalizing m with
  | nil => exact ⟨(List.append_nil _).symm, rfl, rfl⟩
  | cons n ns ih =>
    -- the node is not known yet, as all paths are different
    have hnew : ¬ m.nodes.any (fun other => other.path.same n.path) = true := by
      rw [List.any_eq_true]
      rintro ⟨other, hother, hsame⟩
      have hnot := (List.pairwise_append.mp h).2.2 other hother n List.mem_cons_self
      rw [hsame] at hnot
      cases hnot
    have hnodes : (m.withNode n).nodes = m.nodes ++ [n] := by rw [withNode, dif_neg hnew]
    have htransitions : (m.withNode n).transitions = m.transitions := by rw [withNode, dif_neg hnew]
    have hkeys : (m.withNode n).keys = m.keys := by rw [withNode, dif_neg hnew]
    rw [List.append_cons, ← hnodes] at h
    obtain ⟨hall, hkept, hkeptKeys⟩ := ih h
    rw [List.foldl_cons, hall, hkept, hkeptKeys, hnodes, htransitions, hkeys, List.append_assoc,
      List.singleton_append]
    exact ⟨rfl, rfl, rfl⟩

variable {es : List (Except Fault TableEntry)}

/-- All nodes are held, if they have paths of their own. -/
theorem ofEntries_nodes (h : DistinctPaths (es.filterMap TableEntry.node?)) :
    (ofEntries es).nodes = es.filterMap TableEntry.node? := by
  rw [ofEntries, (foldl_withTransition _ _).1, (foldl_withNode h).1]
  rfl

/-- Of several transitions with one key the first is held. -/
theorem ofEntries_transitions (h : DistinctPaths (es.filterMap TableEntry.node?)) :
    (ofEntries es).transitions = firstKeyed [] (es.filterMap TableEntry.transition?) := by
  rw [ofEntries, (foldl_withTransition _ _).2, (foldl_withNode h).2.1, (foldl_withNode h).2.2]
  rfl

end Machine

end HomeAutomaton
