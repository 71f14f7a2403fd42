import HomeAutomaton.Model.Machine
import Mathlib.Data.List.Forall2

/-!
# State machines and their exports

A blueprint is a state machine as it is drawn: its root, and its nodes in order, each with the
transitions that lead out of it and those that stay in it. All paths of nodes are different and not
empty, and so are those of transitions.

A modelling tool writes a blueprint down in one of two shapes. A flat export is a table: the nodes in
order, and then the transitions, each with its ends and its event. A tree export nests the records of the
nodes in lists of children, and the records of transitions in groups by event; the destination of a
transition is a path, or the record of the node itself.

* `Blueprint` is a state machine, `Blueprint.nodes` and `Blueprint.transitions` list what it is made of.
* `Blueprint.IsFlatExport` and `Blueprint.IsTreeExport` say that a model is an export of it.
-/

namespace HomeAutomaton

/-- A text that is not empty; the empty text counts as missing. -/
def Data.ofText (s : String) : Data := if s = "" then .null else .str s

namespace Blueprint

/-- What all transitions have. -/
structure Move where
  path : String
  event : String := ""
  /-- The attributes but for the event. -/
  attributes : Table Data := []

/-- A transition that leads out of its source, to a path if it leads anywhere. -/
structure Arrow extends Move where
  dst : Option String

/-- A node, with the transitions that lead out of it and those that stay in it. -/
structure Part where
  kind : NodeKind
  path : String
  name : String := ""
  attributes : Table Data := []
  leaving : List Arrow := []
  staying : List Move := []

/-- All transitions of the node, those that lead out of it first. -/
def Part.moves (p : Part) : List Move := p.leaving.map (·.toMove) ++ p.staying

end Blueprint

open Blueprint in
/-- A state machine: its root, and its nodes in order. -/
structure Blueprint where
  /-- The path of the root. -/
  path : String
  /-- The name of the root. -/
  name : String := ""
  /-- The attributes of the root. -/
  attributes : Table Data := []
  /-- The nodes besides the root. -/
  parts : List Part
  oneRoot : ∀ p ∈ parts, p.kind ≠ .stateMachine
  paths : (path :: parts.map (·.path)).Nodup
  pathsFilled : "" ∉ path :: parts.map (·.path)
  movePaths : ((parts.flatMap Part.moves).map (·.path)).Nodup
  movePathsFilled : "" ∉ (parts.flatMap Part.moves).map (·.path)
  eventsApart : ∀ m ∈ parts.flatMap Part.moves, m.attributes.get? (.str "Event") = none

namespace Blueprint

/-- The node of a part. -/
def Part.node (p : Part) : Node :=
  { kind := p.kind, path := .str p.path, name := p.name, attributes := p.attributes }

/-- The transition of a move, with its event as that of a group. -/
def Move.transition (m : Move) (kind : TransitionKind) (src : String) (dst : Data) : Transition :=
  { kind, src := .str src, dst, attributes := m.attributes, path := .str m.path
    eventName := .str m.event }

/-- The transitions that lead out of the part. -/
def Part.external (p : Part) : List Transition :=
  p.leaving.map fun a => a.transition .external p.path ((a.dst.map Data.ofText).getD .null)

/-- The transitions that stay in the part. -/
def Part.internal (p : Part) : List Transition :=
  p.staying.map fun m => m.transition .internal p.path (.str p.path)

/-- The transitions of the part, those that lead out of it first. -/
def Part.transitions (p : Part) : List Transition := p.external ++ p.internal

variable (b : Blueprint)

/-- The root as a part, without transitions. -/
def root : Part :=
  { kind := .stateMachine, path := b.path, name := b.name, attributes := b.attributes }

/-- The root and the other nodes. -/
def all : List Part := b.root :: b.parts

/-- The nodes in order, the root first. -/
def nodes : List Node := b.all.map Part.node

/-- The transitions, node by node. -/
def transitions : List Transition := b.all.flatMap Part.transitions

/-! ### What records show -/

variable (g : Graph)

/-- The record shows the part. Without a path of its own it has another one, which may be null. -/
structure ShowsPart (otherwise : Data) (p : Part) (r : Record) : Prop where
  kind : r.nodeKind? g = some p.kind
  path : r.pathOr g otherwise = .str p.path
  name : r.nameData g = .ofText p.name
  attributes : g.attributes (r.field "attributes") = .ok p.attributes

/-- An entry of a table shows the part. -/
def EntryShowsPart (p : Part) (e : Data × Value) : Prop :=
  ∃ r, g.record? e.2 = some r ∧ ShowsPart g e.1 p r

/-- The record with pointers shows the transition: its ends are the pointers, and its event is an
attribute. A transition that stays in its source leads nowhere. -/
structure ShowsPointers (otherwise : Data) (t : Transition) (r : Record) : Prop where
  kind : r.pointerKind? g = some t.kind
  path : r.pathOr g otherwise = t.path
  ends : ∃ pointers, r.pointers g = .ok pointers ∧ g.refPath (pointers.field "src") = t.src ∧
    g.refPath (pointers.field "dst") = if t.kind = .internal then .null else t.dst
  attributes : ∃ table, g.attributes (r.field "attributes") = .ok table ∧
    table.get? (.str "Event") = some t.eventName ∧
    ∀ key, key ≠ "Event" → table.get? (.str key) = t.attributes.get? (.str key)

/-- An entry of a table shows the transition. -/
def EntryShowsPointers (t : Transition) (e : Data × Value) : Prop :=
  ∃ r, g.record? e.2 = some r ∧ ShowsPointers g e.1 t r

/-- The model is a flat export of the blueprint: a table of its nodes in order, and then of its
transitions. -/
def IsFlatExport (model : Model) : Prop :=
  ∃ nodeEntries moveEntries : Table Value,
    model.graph.entries? (model.field "objects") = some (nodeEntries ++ moveEntries) ∧
    List.Forall₂ (EntryShowsPart model.graph) b.all nodeEntries ∧
    List.Forall₂ (EntryShowsPointers model.graph) b.transitions moveEntries

/-! ### Trees -/

/-- The records that a depth-first search through lists of children meets, in the order in which it
meets them: `Spans g seen rs order seen'` says that from `rs` it meets `order`, if those with labels in
`seen` were met before; those in `seen'` were met afterwards. -/
inductive Spans : List Nat → List Record → List Record → List Nat → Prop where
  | nil {seen : List Nat} : Spans seen [] [] seen
  | met {seen seen' : List Nat} {r : Record} {rest order : List Record} : r.label ∈ seen →
      Spans seen rest order seen' → Spans seen (r :: rest) order seen'
  | new {seen seen₁ seen' : List Nat} {r : Record} {rest children below beside : List Record} :
      r.label ∉ seen → r.children g = .ok children → Spans (r.label :: seen) children below seen₁ →
      Spans seen₁ rest beside seen' → Spans seen (r :: rest) (r :: (below ++ beside)) seen'

/-- The record repeats a node of the blueprint, or is no node at all: a path with whatever else a
reference to a node may carry. It has no children. -/
structure Repeats (r : Record) : Prop where
  noPointers : r.pointerKind? g = none
  noChildren : r.children g = .ok []
  node : ∃ n?, r.node? g .null = pure n? ∧ ∀ n, n? = some n → ∃ p ∈ b.all, n.path = .str p.path

/-- A held transition shows the transition of the blueprint. Where its destination is a record, this is
one of the tree, or it repeats a node. -/
structure ShowsHeld (tree : List Record) (t : Transition) (h : HeldTransition) : Prop where
  external : t.kind = .external → h.record.field "isExternalTransition" ≠ .bool false
  path : g.data (h.record.field "path") = t.path
  dst : t.kind = .external → g.refPath (h.record.field "dst") = t.dst
  event : h.eventName = t.eventName
  attributes : ∃ table, g.attributes (h.record.field "attributes") = .ok table ∧
    ∀ key, table.get? (.str key) = t.attributes.get? (.str key)
  destination : ∀ d, g.record? (h.record.field "dst") = some d → d ∈ tree ∨ b.Repeats g d

/-- The groups of a record show these transitions, one group after the other. -/
def GroupsShow (tree : List Record) (kind : TransitionKind) (v : Value) (ts : List Transition) : Prop :=
  ∃ groups helds, g.recordsIn v = .ok groups ∧
    groups.mapM (Record.groupTransitions g kind) = .ok helds ∧
    List.Forall₂ (b.ShowsHeld g tree) ts helds.flatten

/-- The record of a tree shows the part with its transitions, which all stand in groups by event. -/
structure ShowsGrown (tree : List Record) (p : Part) (r : Record) : Prop where
  part : ShowsPart g .null p r
  leaving : b.GroupsShow g tree .external (r.field "ExternalEvents") p.external
  staying : b.GroupsShow g tree .internal (r.field "InternalEvents") p.internal
  noSingle : g.recordsIn (r.field "ExternalTransitions") = .ok []

/-- The model is a tree export of the blueprint: the records that are met from its root show the nodes
in order. -/
def IsTreeExport (model : Model) : Prop :=
  model.field "objects" = .null ∧
    ∃ root tree seen, model.graph.record? (model.field "root") = some root ∧
      Spans model.graph [] [root] tree seen ∧
      List.Forall₂ (b.ShowsGrown model.graph tree) b.all tree

end Blueprint

end HomeAutomaton
