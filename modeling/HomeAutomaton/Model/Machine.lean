import HomeAutomaton.Model.Flat
import HomeAutomaton.Model.Tree

/-!
# From a model to a machine

A model has either a table of records under `objects` or a record under `root`. It must hold a node for
the machine itself, or it is refused.

* `Model.machine` collects the machine of a model of either shape.
-/

namespace HomeAutomaton.Model

/-- The value under a name, in a mapping or among the attributes of an object; null if there is
none. -/
def field (model : Model) (name : String) : Value :=
  match model.graph.deref? model.root with
  | some (.map entries) => (entries.get? (.str name)).getD .null
  | some (.object attributes) => (attributes.lookup name).getD .null
  | _ => .null

/-- The nodes and transitions of a model, before start markers are taken into account. -/
def rawMachine (model : Model) : Logged Machine :=
  let g := model.graph
  match model.field "objects" with
  | .null =>
    match g.record? (model.field "root") with
    | some root => Machine.ofTree g root
    | none => Logged.fail .noRecords
  | objects =>
    match g.entries? objects with
    | some entries => Machine.ofTable g entries
    | none => Logged.fail .objectsNotMapping

/-- A model with a table is collected from the table. -/
theorem rawMachine_of_table {model : Model} {objects : Table Value}
    (h : model.graph.entries? (model.field "objects") = some objects) :
    model.rawMachine = Machine.ofTable model.graph objects := by
  unfold rawMachine
  dsimp only
  split
  next hnull => rw [hnull] at h; cases h
  next => rw [h]

/-- The machine of a model. -/
def machine (model : Model) : Logged Machine := do
  let m ← model.rawMachine
  if m.root?.isNone then Logged.fail .noStateMachine
  else
    let m ← m.markInitial
    Logged.report (.indexed m.nodes.length m.transitions.length)
    pure m

end HomeAutomaton.Model
