import HomeAutomaton.Model.Typing

/-!
# Legible models

What a model has to be like for every record to be read, however little sense it makes. This is far
less than being well typed: what is missing may be missing, a type may be unknown, a destination may
lead nowhere, attributes may have any values, and lists may hold anything. What may not be is a list or
mapping in the place of a path, a scalar in the place of a list or mapping, or an integer that is too
long to be written where a text is made of it.

Only what is read has to be legible: the records of a table, or in a tree those that are met on the way
from the root; the path and the attributes of a record that stands for a node or a transition; the lists
of transitions of a node.

* `Demand` is what is demanded of paths, of event names and of types, `Demand.lenient` the least.
* `Graph.IsFields` is about attributes, `Graph.IsIterable` about lists.
* `Record.Legible` is about records of either shape, `Record.LegibleTransitions` about the transitions
  that a node of a tree holds.
* `Record.Met` says which records of a tree are read.
* `Model.Legible` is the property of a model of either shape.
-/

namespace HomeAutomaton

/-! ### Demands -/

/-- The value can be looked up, and written as a text. -/
def Data.IsAddress (d : Data) : Prop := d.isKey = true ∧ d.hasLongNumber = false

/-- The value can be read as the name of an event: it is a text, or counts as missing or blank. -/
def Data.IsEventName (d : Data) : Prop :=
  d.IsText ∨ d.isFilled = false ∨ ∃ bs, d = .bytes bs ∧ bs.all Text.isBlankByte = true

/-- What is demanded of the values that a machine is made of. Whatever it is, they may be missing, and
paths can be looked up and written. -/
structure Demand where
  /-- Of a path, and of what refers to one. -/
  path : Data → Prop
  /-- Of the name of the event group of a transition with these attributes. -/
  event : Table Data → Data → Prop
  /-- Of the type of a record. -/
  type : Data → Prop
  path_null : path .null
  event_null : ∀ attributes, event attributes .null
  isKey_of_path : ∀ {d}, path d → d.isKey = true
  hasLongNumber_of_path : ∀ {d}, path d → d.hasLongNumber = false

theorem Data.isAddress_null : Data.IsAddress .null := by
  constructor <;> simp [isKey, hasLongNumber]

/-- The least that can be demanded: paths can be looked up and written, types can be written, and the
name of a group can be read where a transition has no event of its own. -/
def Demand.lenient : Demand where
  path := Data.IsAddress
  event attributes name := textAttribute? attributes "Event" = none → name.IsEventName
  type d := d.hasLongNumber = false
  path_null := Data.isAddress_null
  event_null _ _ := .inr (.inl rfl)
  isKey_of_path h := h.1
  hasLongNumber_of_path h := h.2

/-! ### Values -/

namespace Graph

variable (g : Graph)

/-- The items of a list, a tuple or a set. -/
def sequence? (v : Value) : Option (List Value) :=
  match g.deref? v with
  | some (.list items) | some (.tuple items) | some (.set items) => some items
  | _ => none

/-- The records among the items of a list, a tuple or a set. -/
def memberRecords (v : Value) : List Record := ((g.sequence? v).getD []).filterMap g.record?

/-- The value can stand in the place of a list: it counts as missing, or it has items of some sort. -/
def IsIterable (v : Value) : Prop :=
  g.isFilled v = false ∨ (∃ s, v = .str s) ∨ (g.sequence? v).isSome = true ∨
    (g.entries? v).isSome = true ∨ ∃ bs, g.deref? v = some (.bytes bs)

/-- The value can be taken apart into a key and a value. -/
def IsField (v : Value) : Prop := ∃ key item, g.pairItems? v = some [key, item] ∧ key.isKey = true

/-- The value can be read as attributes: it counts as missing, or it is a mapping or a sequence of
pairs. -/
def IsFields (v : Value) : Prop :=
  g.isFilled v = false ∨ (g.entries? v).isSome = true ∨
    ∃ items, g.sequence? v = some items ∧ ∀ w ∈ items, g.IsField w

end Graph

/-! ### Records -/

namespace Record

variable (g : Graph) (demand : Demand)

/-- The record stands for a node: it names a kind of node, is no transition, and has a path. -/
def IsNode (r : Record) (otherwise : Data) : Prop :=
  r.pointerKind? g = none ∧ (r.nodeKind? g).isSome = true ∧ (r.pathOr g otherwise).isFilled = true

/-- The path, the name and the attributes of a node can be read. -/
structure LegibleNode (r : Record) (otherwise : Data) : Prop where
  path : demand.path (r.pathOr g otherwise)
  name : (r.nameData g).hasLongNumber = false
  attributes : g.IsFields (r.field "attributes")

/-- The path, the pointers and the attributes of a transition can be read. -/
structure LegiblePointers (r : Record) (otherwise : Data) : Prop where
  path : (r.pathOr g otherwise).isFilled = true → demand.path (r.pathOr g otherwise)
  pointers : g.isFilled (r.field "pointers") = true → ∃ p, g.record? (r.field "pointers") = some p ∧
    demand.path (g.refPath (p.field "src")) ∧ demand.path (g.refPath (p.field "dst"))
  attributes : g.IsFields (r.field "attributes")

/-- The record can be read as what its type says. -/
structure Legible (r : Record) (otherwise : Data) : Prop where
  type : demand.type (g.data (r.field "type"))
  node : r.IsNode g otherwise → r.LegibleNode g demand otherwise
  transition : (r.pointerKind? g).isSome = true → r.LegiblePointers g demand otherwise

/-- The transitions that the record of a node holds, in groups and on their own. -/
def heldTransitions (r : Record) : List HeldTransition :=
  (eventGroups.flatMap fun e => (g.memberRecords (r.field e.1)).flatMap fun group =>
    (g.memberRecords (group.field "Transitions")).map fun h =>
      ⟨h, e.2, g.data (group.field "name")⟩) ++
    (g.memberRecords (r.field "ExternalTransitions")).map fun h => ⟨h, .external, .null⟩

/-- A transition that the record of a node holds can be read: its path, its attributes, its destination
if it leaves the node, and the name of its group. -/
structure LegibleHeld (held : HeldTransition) : Prop where
  path : (g.data (held.record.field "path")).isFilled = true →
    demand.path (g.data (held.record.field "path"))
  attributes : g.IsFields (held.record.field "attributes")
  destination : held.kind ≠ .internal → held.record.field "isExternalTransition" ≠ .bool false →
    demand.path (g.refPath (held.record.field "dst"))
  event : ∀ attributes, g.attributes (held.record.field "attributes") = .ok attributes →
    demand.event attributes held.eventName

/-- The lists of transitions of a node can be read, and each of the transitions. -/
structure LegibleTransitions (r : Record) : Prop where
  groups : ∀ e ∈ eventGroups, g.IsIterable (r.field e.1)
  grouped : ∀ e ∈ eventGroups, ∀ group ∈ g.memberRecords (r.field e.1),
    g.IsIterable (group.field "Transitions")
  single : g.IsIterable (r.field "ExternalTransitions")
  each : ∀ held ∈ r.heldTransitions g, LegibleHeld g demand held

/-- The lists of the record have texts as their names. -/
def LegibleLists (r : Record) : Prop :=
  ∀ e ∈ r.entries, (∃ items, g.deref? e.2 = some (.list items)) → e.1.IsText

/-- The record of a tree can be read, with all that it holds. -/
structure LegibleInTree (r : Record) : Prop where
  here : r.Legible g demand .null
  transitions : r.IsNode g .null → r.LegibleTransitions g demand
  lists : r.pointerKind? g = none → r.LegibleLists g

/-- The records of a tree that are met: the root, the children of what is no transition, and what the
transitions of a node lead to. -/
inductive Met (root : Record) : Record → Prop where
  | root : Met root root
  | child {r c : Record} {name : String} {v : Value} : Met root r → r.pointerKind? g = none →
      (.str name, v) ∈ r.entries → isChildList name = true → c ∈ g.listedRecords v → Met root c
  | destination {r d : Record} {held : HeldTransition} : Met root r → r.IsNode g .null →
      held ∈ r.heldTransitions g → g.record? (held.record.field "dst") = some d → Met root d

end Record

/-- Every record of the model that is read can be read. -/
structure Model.Legible (demand : Demand) (model : Model) : Prop where
  table : ∀ objects, model.graph.entries? (model.field "objects") = some objects →
    ∀ e ∈ model.graph.tableRecords objects, e.2.Legible model.graph demand e.1
  tree : model.field "objects" = .null → ∀ root,
    model.graph.record? (model.field "root") = some root →
      ∀ r, Record.Met model.graph root r → r.LegibleInTree model.graph demand

end HomeAutomaton
