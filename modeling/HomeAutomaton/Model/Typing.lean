import HomeAutomaton.Data.Table
import HomeAutomaton.Model.Machine

/-!
# Well-typed models

A model may hold anything anywhere. It is well typed if its records have the form that a modelling tool
gives them: paths and names are texts or missing, attributes and pointers are mappings, what refers to a
node is its path or its record, and the lists of a tree are lists.

In a flat model this is said of every record of the table, in a tree of every record that can be
reached from the root: through the lists of children, and through the destinations of transitions.

* `Record.WellTyped` is about what records of either shape have, `Record.WellGrown` about what the
  records of a tree have besides.
* `Record.Reachable` says which records a tree consists of.
* `Model.WellTyped` is the property of a model of either shape.
-/

namespace HomeAutomaton

/-- The value is a text, or null, which is also what is missing. -/
def Value.IsTextOrNull (v : Value) : Prop := v = .null ∨ ∃ s, v = .str s

/-- The value is a text or null. -/
def Data.IsTextOrNull (d : Data) : Prop := d = .null ∨ d.IsText

namespace Graph

variable (g : Graph)

/-- The value is null or a list. -/
def IsListOrNull (v : Value) : Prop := v = .null ∨ ∃ items, g.deref? v = some (.list items)

/-- The records of a list. -/
def listedRecords (v : Value) : List Record :=
  match g.deref? v with
  | some (.list items) => items.filterMap g.record?
  | _ => []

/-- The value refers to a node: by a path, by a record with a path, or it is null. -/
def IsReference (v : Value) : Prop :=
  v.IsTextOrNull ∨ ∃ r, g.record? v = some r ∧ (r.field "path").IsTextOrNull

/-- The value is null or a mapping. -/
def IsMappingOrNull (v : Value) : Prop := v = .null ∨ ∃ r, g.record? v = some r

end Graph

namespace Record

variable (g : Graph)

/-- The path, the names, the attributes and the pointers of the record have the types they should
have. -/
structure WellTyped (r : Record) : Prop where
  path : (r.field "path").IsTextOrNull
  sanitizedName : (r.field "sanitizedName").IsTextOrNull
  name : (r.field "name").IsTextOrNull
  attributes : g.IsMappingOrNull (r.field "attributes")
  pointers : r.field "pointers" = .null ∨ ∃ p, g.record? (r.field "pointers") = some p ∧
    g.IsReference (p.field "src") ∧ g.IsReference (p.field "dst")

/-- The record of a transition that a node holds has a path, attributes and a destination of the types
they should have. -/
structure IsHeld (r : Record) : Prop where
  path : (r.field "path").IsTextOrNull
  attributes : g.IsMappingOrNull (r.field "attributes")
  dst : g.IsReference (r.field "dst")

/-- The event groups of the record. -/
def groups (r : Record) : List Record :=
  eventGroups.flatMap fun e => g.listedRecords (r.field e.1)

/-- The records of the transitions that the record holds, in groups or by themselves. -/
def held (r : Record) : List Record :=
  (r.groups g).flatMap (fun group => g.listedRecords (group.field "Transitions"))
    ++ g.listedRecords (r.field "ExternalTransitions")

/-- The keys of the record are texts, and the lists of its transitions have the types they should
have. -/
structure WellGrown (r : Record) : Prop where
  keys : ∀ e ∈ r.entries, e.1.IsText
  groupLists : ∀ e ∈ eventGroups, g.IsListOrNull (r.field e.1)
  groupNames : ∀ group ∈ r.groups g, (group.field "name").IsTextOrNull
  transitionLists : ∀ group ∈ r.groups g, g.IsListOrNull (group.field "Transitions")
  singleList : g.IsListOrNull (r.field "ExternalTransitions")
  heldTyped : ∀ h ∈ r.held g, IsHeld g h

/-- The records of a tree: the root, the children of its records, and the destinations of the
transitions that they hold. -/
inductive Reachable (root : Record) : Record → Prop where
  | root : Reachable root root
  | child {r : Record} {name : String} {v : Value} {c : Record} : Reachable root r →
      (.str name, v) ∈ r.entries → isChildList name → c ∈ g.listedRecords v → Reachable root c
  | destination {r h d : Record} : Reachable root r → h ∈ r.held g →
      g.record? (h.field "dst") = some d → Reachable root d

end Record

/-- The model has a table of well-typed records by paths, or else a tree of them. -/
def Model.WellTyped (model : Model) : Prop :=
  (∃ table, model.graph.entries? (model.field "objects") = some table ∧
    ∀ e ∈ table, e.1.IsText ∧ ∀ r, model.graph.record? e.2 = some r → r.WellTyped model.graph) ∨
  (model.field "objects" = .null ∧
    ∃ root, model.graph.record? (model.field "root") = some root ∧
      ∀ r, Record.Reachable model.graph root r →
        r.WellTyped model.graph ∧ r.WellGrown model.graph)

end HomeAutomaton
