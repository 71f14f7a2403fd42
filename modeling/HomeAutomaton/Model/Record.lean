import HomeAutomaton.Diagnostic
import HomeAutomaton.Graph.Basic
import HomeAutomaton.Machine.Basic

/-!
# Records of a model

A model is made of records, which are mappings. A record of a node names its type, its path, a name and
attributes; a record of a transition names its ends, either under `pointers` or by the place where it
stands. What is missing counts as empty, and so does everything that is false, zero or empty itself.

* `Record.node?` reads a node.
* `Record.pointerTransition` reads a transition with pointers.
-/

namespace HomeAutomaton

/-- A mapping of a model. -/
structure Record where
  /-- The number of the object. -/
  label : Nat
  entries : Table Value

namespace Graph

/-- The record that a value refers to, if it is a mapping. -/
def record? (g : Graph) (v : Value) : Option Record :=
  match v with
  | .ref label =>
    match g.cell? label with
    | some (.map entries) => some ⟨label, entries⟩
    | _ => none
  | _ => none

/-- The records among the items of a value in the place of a list. What is missing has no items;
neither do a text or a mapping hold any record. -/
def recordsIn (g : Graph) (v : Value) : Except Fault (List Record) :=
  if !g.isFilled v then .ok []
  else
    match v with
    | .str _ => .ok []
    | v =>
      match g.deref? v with
      | some (.list items) | some (.tuple items) | some (.set items) =>
        .ok (items.filterMap g.record?)
      | some (.map _) | some (.bytes _) => .ok []
      | _ => .error .notIterable

/-- The items of a value that is taken apart into a pair. -/
def pairItems? (g : Graph) (v : Value) : Option (List Data) :=
  match v with
  | .str s => some (s.toList.map fun c => .str (String.singleton c))
  | v =>
    match g.deref? v with
    | some (.list items) | some (.tuple items) | some (.set items) => some (items.map g.data)
    | some (.map entries) => some (entries.map (·.1))
    | some (.bytes bs) => some (bs.map fun b => .int b.toNat)
    | _ => none

/-- The table of a list of pairs. -/
def tableOfPairs (g : Graph) (table : Table Data) : List Value → Except Fault (Table Data)
  | [] => .ok table
  | v :: rest =>
    match g.pairItems? v with
    | none => .error .notIterable
    | some [key, item] =>
      if key.isKey then tableOfPairs g (table.put key item) rest else .error .notKey
    | some _ => .error .attributesNotPairs

/-- The attributes that a value stands for: a mapping, or a list of pairs. -/
def attributes (g : Graph) (v : Value) : Except Fault (Table Data) :=
  if !g.isFilled v then .ok []
  else
    match v with
    | .str _ => .error .attributesNotPairs
    | v =>
      match g.deref? v with
      | some (.map entries) => .ok (entries.map fun e => (e.1, g.data e.2))
      | some (.list items) | some (.tuple items) | some (.set items) => g.tableOfPairs [] items
      | _ => .error .notIterable

/-- The path that a value refers to: that of a record, or a text that is not empty. -/
def refPath (g : Graph) (v : Value) : Data :=
  match g.record? v with
  | some r => ((r.entries.get? (.str "path")).map g.data).getD .null
  | none =>
    match v with
    | .str s => if s = "" then .null else .str s
    | _ => .null

end Graph

namespace Record

/-- The value under a key, which is null when there is none. -/
def field (r : Record) (key : String) : Value := (r.entries.get? (.str key)).getD .null

/-- Has the record this key? -/
def has (r : Record) (key : String) : Bool := (r.entries.get? (.str key)).isSome

/-- The value of the type of the record. -/
def typeData (r : Record) (g : Graph) : Data := g.data (r.field "type")

/-- The text of the type of the record, if it has one. -/
def typeText? (r : Record) (g : Graph) : Option String :=
  if (r.typeData g).hasLongNumber then none else some (r.typeData g).nameText

/-- The kind of node that the record names. -/
def nodeKind? (r : Record) (g : Graph) : Option NodeKind := (r.typeText? g).bind NodeKind.ofType?

/-- The kind of transition that the record names. -/
def transitionKind? (r : Record) (g : Graph) : Option TransitionKind :=
  (r.typeText? g).bind TransitionKind.ofType?

/-- The path of the record, or else another one. -/
def pathOr (r : Record) (g : Graph) (otherwise : Data) : Data :=
  let path := r.field "path"
  if g.isFilled path then g.data path else otherwise

/-- The value that names the record; null if there is none. -/
def nameData (r : Record) (g : Graph) : Data :=
  if g.isFilled (r.field "sanitizedName") then g.data (r.field "sanitizedName")
  else if g.isFilled (r.field "name") then g.data (r.field "name")
  else .null

/-- The name of the record. -/
def name (r : Record) (g : Graph) : String := (r.nameData g).nameText

/-- The node that the record stands for, if it names a kind of node and has a path, if need be the
given one. Whatever it stands for, its type has to have a text. -/
def node? (r : Record) (g : Graph) (otherwise : Data) : Logged (Option Node) := do
  ((r.typeData g).requireText : Except Fault Unit)
  match r.nodeKind? g with
  | none => pure none
  | some kind =>
    let path := r.pathOr g otherwise
    if !path.isFilled then do
      Logged.report (.nodeWithoutPath kind)
      pure none
    else do
      ((r.nameData g).requireText : Except Fault Unit)
      let attributes ← g.attributes (r.field "attributes")
      pure (some { kind, path, name := r.name g, attributes })

/-- The kind of transition that the record names, if it has pointers. -/
def pointerKind? (r : Record) (g : Graph) : Option TransitionKind :=
  if r.has "pointers" then r.transitionKind? g else none

/-- What the pointers of the record refer to. -/
def pointers (r : Record) (g : Graph) : Except Fault Record :=
  let v := r.field "pointers"
  if !g.isFilled v then .ok ⟨0, []⟩
  else
    match g.record? v with
    | some pointers => .ok pointers
    | none => .error .pointersNotMapping

/-- The machine with the transition that a record with pointers stands for. An internal transition
that leads nowhere stays where it is. -/
def addPointerTransition (r : Record) (g : Graph) (kind : TransitionKind) (otherwise : Data)
    (m : Machine) : Except Fault Machine := do
  let pointers ← r.pointers g
  let src := g.refPath (pointers.field "src")
  let dst := g.refPath (pointers.field "dst")
  let attributes ← g.attributes (r.field "attributes")
  let path := r.pathOr g otherwise
  let dst := match kind, dst with
    | .internal, .null => src
    | _, dst => dst
  let (_, m) ← m.addTransition { kind, src, dst, attributes, path }
    (.ofPath path (.record r.label))
  .ok m

end Record

end HomeAutomaton
