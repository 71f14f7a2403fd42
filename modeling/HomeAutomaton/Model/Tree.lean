import HomeAutomaton.Model.Record

/-!
# Tree models

A tree model starts from one record. The children of a record stand in its lists called `children` or
`…_list`; the transitions out of a node stand in groups by event, and refer to their destination by
path or by the record itself. Records can be shared and can refer to one another in a circle; each is
visited once. The children come first, depth first and in order; a node that only a transition refers
to is visited when no child is left, so that the states come in the order of the lists.

* `Record.children` and `Record.transitions` read one record.
* `Machine.walk` visits the records, one in each step.
* `Machine.ofTree` collects the nodes and transitions of a tree.
-/

namespace HomeAutomaton

/-- Is this the name of a list of children? A line feed at its end does not count. -/
def isChildList (name : String) : Bool :=
  let cs := name.toList
  let cs := if cs.getLast? = some '\n' then cs.dropLast else cs
  cs == "children".toList || "_list".toList.isSuffixOf cs

/-- The groups of transitions of a node, and the kind of the transitions in them. -/
def eventGroups : List (String × TransitionKind) :=
  [("ExternalEvents", .external), ("InternalEvents", .internal)]

/-- A transition that a node record holds: its record, its kind in this place, and the name of its
group. -/
structure HeldTransition where
  record : Record
  kind : TransitionKind
  eventName : Data

namespace Record

/-- The lists of children among entries, in order. -/
def childrenIn (g : Graph) : Table Value → Except Fault (List Record)
  | [] => .ok []
  | (key, v) :: rest =>
    match g.deref? v with
    | some (.list items) =>
      match key with
      | .str name => do
        let children ← childrenIn g rest
        .ok (if isChildList name then items.filterMap g.record? ++ children else children)
      | _ => .error .listNameNotText
    | _ => childrenIn g rest

/-- The children of a record, in order. -/
def children (r : Record) (g : Graph) : Except Fault (List Record) := childrenIn g r.entries

/-- The transitions of a group of a node record. -/
def groupTransitions (g : Graph) (kind : TransitionKind) (group : Record) :
    Except Fault (List HeldTransition) := do
  let records ← g.recordsIn (group.field "Transitions")
  .ok (records.map fun r => ⟨r, kind, g.data (group.field "name")⟩)

/-- What a transition that stands in a node record leads to. -/
def heldDestination (g : Graph) (n : Node) (kind : TransitionKind) (r : Record) : Data :=
  match kind with
  | .internal => n.path
  | _ => g.refPath (r.field "dst")

/-- The machine with a transition that stands in the record of a node. -/
def addHeldTransition (g : Graph) (n : Node) (held : HeldTransition) (m : Machine) :
    Except Fault Machine := do
  let r := held.record
  let kind := if r.field "isExternalTransition" = .bool false then .internal else held.kind
  let attributes ← g.attributes (r.field "attributes")
  let path := g.data (r.field "path")
  let t : Transition :=
    { kind, src := n.path, dst := heldDestination g n kind r, attributes, path
      eventName := held.eventName }
  let (_, m) ← m.addTransition t (.ofPath path (.record r.label))
  .ok m

/-- The machine with transitions that stand in the record of a node, and the records they lead to. -/
def addHeldTransitions (g : Graph) (n : Node) (m : Machine) :
    List HeldTransition → Except Fault (Machine × List Record)
  | [] => .ok (m, [])
  | held :: rest => do
    let m ← addHeldTransition g n held m
    let (m, referenced) ← addHeldTransitions g n m rest
    .ok (m, (g.record? (held.record.field "dst")).toList ++ referenced)

/-- The machine with the transitions of one group after the other, and the records they lead to. -/
def addGroups (g : Graph) (n : Node) (kind : TransitionKind) (m : Machine) :
    List Record → Except Fault (Machine × List Record)
  | [] => .ok (m, [])
  | group :: rest => do
    let held ← groupTransitions g kind group
    let (m, here) ← addHeldTransitions g n m held
    let (m, referenced) ← addGroups g n kind m rest
    .ok (m, here ++ referenced)

/-- The machine with all transitions that stand in the record of a node, and the records they lead
to. -/
def addTransitions (r : Record) (g : Graph) (n : Node) (m : Machine) :
    Except Fault (Machine × List Record) := do
  let step (state : Machine × List Record) (group : String × TransitionKind) :
      Except Fault (Machine × List Record) := do
    let groups ← g.recordsIn (r.field group.1)
    let (m, referenced) ← addGroups g n group.2 state.1 groups
    .ok (m, state.2 ++ referenced)
  let (m, grouped) ← eventGroups.foldlM step (m, [])
  let records ← g.recordsIn (r.field "ExternalTransitions")
  let (m, single) ← addHeldTransitions g n m (records.map fun r => ⟨r, .external, .null⟩)
  .ok (m, grouped ++ single)

end Record

namespace Machine

/-- What is left to do while a tree is walked. -/
structure Walk where
  machine : Machine := {}
  /-- The labels of the records visited. -/
  seen : List Nat := []
  /-- Children to visit, the next one first. -/
  pending : List Record
  /-- Destinations to visit when there are no children left, the oldest first. -/
  referenced : List Record := []

/-- The next record that was not visited, with what is left then. -/
def Walk.next? (w : Walk) : Option (Record × Walk) :=
  let isSeen (r : Record) : Bool := w.seen.contains r.label
  match w.pending.dropWhile isSeen with
  | r :: pending => some (r, { w with pending, seen := r.label :: w.seen })
  | [] =>
    match w.referenced.dropWhile isSeen with
    | r :: referenced =>
      some (r, { w with pending := [], referenced, seen := r.label :: w.seen })
    | [] => none

/-- The walk after a record is visited: a transition with pointers, or a node with its transitions,
and its children. -/
def visit (g : Graph) (r : Record) (w : Walk) : Logged Walk := do
  match r.pointerKind? g with
  | some kind =>
    let m ← r.addPointerTransition g kind .null w.machine
    pure { w with machine := m }
  | none =>
    let w ← match ← r.node? g .null with
      | none => pure w
      | some n => do
        let (added, m) ← (w.machine.addNode n : Except Fault (Bool × Machine))
        if added then
          let (m, referenced) ← (r.addTransitions g n m : Except Fault (Machine × List Record))
          pure { w with machine := m, referenced := w.referenced ++ referenced }
        else pure w
    let children ← r.children g
    pure { w with pending := children ++ w.pending }

/-- The machine after the walk. Each step visits one more record of the graph, which bounds their
number. -/
def walk (g : Graph) : Nat → Walk → Logged Machine
  | 0, w => pure w.machine
  | steps + 1, w =>
    match w.next? with
    | none => pure w.machine
    | some (r, w) => do
      let w ← visit g r w
      walk g steps w

/-- The nodes and transitions of a tree. -/
def ofTree (g : Graph) (root : Record) : Logged Machine :=
  walk g (g.cells.size + 1) { pending := [root] }

end Machine

end HomeAutomaton
