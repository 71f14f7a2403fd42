import HomeAutomaton.Model.Record

/-!
# Flat models

A flat model is a table of records by path. Nodes are collected first, so that the order of the table
never matters for transitions, which refer to their ends by path.

* `Machine.ofTable` collects the nodes and transitions of a table.
-/

namespace HomeAutomaton

/-- The records of a table with their keys. Other values are passed over. -/
def Graph.tableRecords (g : Graph) (objects : Table Value) : List (Data × Record) :=
  objects.filterMap fun e => (g.record? e.2).map fun r => (e.1, r)

namespace Machine

/-- The machine with the nodes of the records; what is no node is reported. -/
def addTableNodes (g : Graph) (m : Machine) : List (Data × Record) → Logged Machine
  | [] => pure m
  | (key, r) :: rest => do
    match ← r.node? g key with
    | none =>
      Logged.report (.recordIgnored key (g.data (r.field "type")))
      addTableNodes g m rest
    | some n =>
      let (_, m) ← (m.addNode n : Except Fault (Bool × Machine))
      addTableNodes g m rest

/-- The machine with the transitions of the records. -/
def addTableTransitions (g : Graph) (m : Machine) :
    List (Data × Record × TransitionKind) → Except Fault Machine
  | [] => .ok m
  | (key, r, kind) :: rest => do
    let m ← r.addPointerTransition g kind key m
    addTableTransitions g m rest

/-- The nodes and transitions of a table of records. -/
def ofTable (g : Graph) (objects : Table Value) : Logged Machine := do
  let records := g.tableRecords objects
  let nodes := records.filter fun e => (e.2.pointerKind? g).isNone
  let transitions := records.filterMap fun e =>
    (e.2.pointerKind? g).map fun kind => (e.1, e.2, kind)
  let m ← addTableNodes g {} nodes
  addTableTransitions g m transitions

end Machine

end HomeAutomaton
