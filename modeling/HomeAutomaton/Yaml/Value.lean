import HomeAutomaton.Graph.Basic
import HomeAutomaton.Text.Base64
import HomeAutomaton.Text.Lowercase
import HomeAutomaton.Yaml.Node

/-!
# The value of a YAML document

Every node gets its value once, so that aliases refer to one object. Scalars get theirs when they are
met; a collection becomes an empty object at first and is filled when its turn comes, in the order in
which the collections were met. So a collection may contain itself, and the failure that counts is that
of the scalar met first.

The entries of a mapping under the key `<<` are those of another mapping, or of several in a sequence,
of which the earlier ones win; the entries of the mapping itself win over all of them.

* `Building.value` gives the value of a node.
* `Building.fill` fills a collection.
* `modelOfNodes` fills them all.
-/

namespace HomeAutomaton.Yaml

open Text

/-- The state of building the value of a document. -/
structure Building where
  nodes : Array Node
  graph : Graph := {}
  /-- The values of the nodes that were met. -/
  made : List (Nat × Value) := []
  /-- The collections that wait to be filled: their nodes and objects. -/
  waiting : List (Nat × Nat) := []

namespace Building

/-! ### Scalars -/

/-- The text of a scalar node. For a mapping it is the text under the key `=`. The first argument
bounds the number of steps; if there are more than there are nodes, one of them was met before. -/
def scalarText (nodes : Array Node) : Nat → Nat → Except LoadError String
  | 0, _ => .error .endless
  | steps + 1, number =>
    match (nodes.getD number default).content with
    | .scalar text => .ok text
    | .sequence _ => .error .malformed
    | .mapping entries =>
      match entries.find? fun e => (nodes.getD e.1 default).tag == .value with
      | some (_, v) => scalarText nodes steps v
      | none => .error .malformed

/-- The truth value that a scalar stands for. -/
def boolOfText (text : String) : Except LoadError Bool :=
  let word := String.ofList (lowercase text.toList)
  if ["yes", "true", "on"].contains word then .ok true
  else if ["no", "false", "off"].contains word then .ok false
  else .error .badTruthValue

/-- The bytes that a scalar stands for. -/
def bytesOfText (text : String) : Except LoadError (List UInt8) :=
  if text.toList.all fun c => c.toNat < 0x80 then
    match Base64.decode? text.toList with
    | some bytes => .ok bytes
    | none => .error .malformed
  else .error .malformed

/-- The text without a line feed at its end. -/
def dropFinalBreak (cs : List Char) : List Char :=
  if cs.getLast? = some '\n' then cs.dropLast else cs

/-- The date or point in time of a node. -/
def timestampOf (nodes : Array Node) (number : Nat) : Except LoadError Cell := do
  let _ ← scalarText nodes (nodes.size + 1) number
  match (nodes.getD number default).content with
  | .scalar text =>
    match Timestamp.ofText? (dropFinalBreak text.toList) with
    | none => .error .badTimestamp
    | some t =>
      match ← t.value with
      | .inl d => .ok (.date d)
      | .inr t => .ok (.dateTime t)
  | _ => .error .timestampNotText

/-- One more value of a node. -/
def record (b : Building) (number : Nat) (v : Value) : Value × Building :=
  (v, { b with made := (number, v) :: b.made })

/-- One more object for a node. -/
def addCell (b : Building) (number : Nat) (c : Cell) : Value × Building :=
  let (v, graph) := b.graph.add c
  { b with graph }.record number v

/-- One more object for a node, to be filled. -/
def addWaiting (b : Building) (number : Nat) (c : Cell) : Value × Building :=
  let label := b.graph.cells.size
  let (v, b) := b.addCell number c
  (v, { b with waiting := (number, label) :: b.waiting })

/-- The value of a node. -/
def value (b : Building) (number : Nat) : Except LoadError (Value × Building) :=
  match b.made.lookup number with
  | some v => .ok (v, b)
  | none =>
    let text := scalarText b.nodes (b.nodes.size + 1) number
    match (b.nodes.getD number default).tag with
    | .null => text.map fun _ => b.record number .null
    | .bool => do .ok (b.record number (.bool (← boolOfText (← text))))
    | .int => do .ok (b.record number (.int (← intOfText (← text).toList)))
    | .float => do
      .ok (b.record number (.float (← floatOfText (number + 1) (lowercase (← text).toList))))
    | .str => do .ok (b.record number (.str (← text)))
    | .binary => do .ok (b.addCell number (.bytes (← bytesOfText (← text))))
    | .timestamp => do .ok (b.addCell number (← timestampOf b.nodes number))
    | .seq | .omap | .pairs => .ok (b.addWaiting number (.list []))
    | .map => .ok (b.addWaiting number (.map []))
    | .set => .ok (b.addWaiting number (.set []))
    | .merge | .value | .unknown => .error .malformed

/-! ### Collections -/

/-- The values of a list of nodes, in order. -/
def values (b : Building) : List Nat → Except LoadError (List Value × Building)
  | [] => .ok ([], b)
  | number :: rest => do
    let (v, b) ← b.value number
    let (vs, b) ← b.values rest
    .ok (v :: vs, b)

/-- The nodes with the entries of a node changed. -/
def setEntries (nodes : Array Node) (number : Nat) (entries : List (Nat × Nat)) : Array Node :=
  nodes.modify number fun node => { node with content := .mapping entries }

/-- The entries of a mapping node. -/
def entriesOf? (nodes : Array Node) (number : Nat) : Option (List (Nat × Nat)) :=
  match (nodes.getD number default).content with
  | .mapping entries => some entries
  | _ => none

/-- Entries that were taken over, and the nodes with the entries written out. -/
abbrev Taken : Type := List (Nat × Nat) × Array Node

/-- The entries of several mappings, those of the last one first, given how to take over those of one. -/
def takeAll (take : Array Node → Nat → Except LoadError Taken) (nodes : Array Node) (sources : List Nat) :
    Except LoadError Taken := do
  let (lists, nodes) ← sources.foldlM (fun (lists, nodes) source => do
    if (entriesOf? nodes source).isNone then .error .malformed
    else
      let (entries, nodes) ← take nodes source
      .ok (entries :: lists, nodes)) (([] : List (List (Nat × Nat))), nodes)
  .ok (lists.flatten, nodes)

/-- The entries that stand behind the key `<<`, those of a mapping or of several in a sequence. -/
def takeFrom (take : Array Node → Nat → Except LoadError Taken) (nodes : Array Node) (number : Nat) :
    Except LoadError Taken :=
  match (nodes.getD number default).content with
  | .mapping _ => take nodes number
  | .sequence sources => takeAll take nodes sources
  | .scalar _ => .error .malformed

/-- The state of going through the entries of a mapping. -/
structure Taking where
  /-- The entries so far that are its own. -/
  own : List (Nat × Nat) := []
  /-- The entries so far that are taken over. -/
  taken : List (Nat × Nat) := []
  nodes : Array Node

/-- The next entry of a mapping. Under the key `<<` stands what is to be taken over; this entry is dropped
first. The key `=` becomes a text. -/
def takeStep (take : Array Node → Nat → Except LoadError Taken) (number : Nat) (state : Taking)
    (entry : Nat × Nat) : Except LoadError Taking :=
  match (state.nodes.getD entry.1 default).tag with
  | .merge => do
    let nodes := setEntries state.nodes number
      (((entriesOf? state.nodes number).getD []).erase entry)
    let (entries, nodes) ← takeFrom take nodes entry.2
    .ok { state with taken := state.taken ++ entries, nodes }
  | .value =>
    .ok { state with
      own := state.own ++ [entry]
      nodes := state.nodes.modify entry.1 fun node => { node with tag := .str } }
  | _ => .ok { state with own := state.own ++ [entry] }

/-- The nodes with the entries that a mapping takes over written out in it and in the mappings they
come from, and its entries. The first argument bounds how far mappings take over from one another. Since an
entry `<<` is dropped before it is followed, there is an end to this even where a mapping takes over from
itself. -/
def takeOver : Nat → Array Node → Nat → Except LoadError Taken
  | 0, _, _ => .error .endless
  | depth + 1, nodes, number => do
    let state ← ((entriesOf? nodes number).getD []).foldlM (takeStep (takeOver depth) number) { nodes }
    let entries := state.taken ++ state.own
    .ok (entries, setEntries state.nodes number entries)

/-- A table of the values of keys and values, in order, after what is in the table already. A key that
can change is refused before its value is looked at. -/
def tableFrom (b : Building) (table : Table Value) :
    List (Nat × Nat) → Except LoadError (Table Value × Building)
  | [] => .ok (table, b)
  | (k, v) :: rest => do
    let (key, b) ← b.value k
    let key := b.graph.data key
    if !key.isKey then .error .malformed
    else
      let (v, b) ← b.value v
      b.tableFrom (table.put key v) rest

/-- The entries of all mappings. -/
def allEntries (nodes : Array Node) : List (Nat × Nat) :=
  nodes.toList.flatMap fun node => node.content.entries

/-- The entries of a mapping node, with those that it takes over. -/
def allEntriesOf (b : Building) (number : Nat) :
    Except LoadError (List (Nat × Nat) × Building) := do
  if (entriesOf? b.nodes number).isNone then .error .malformed
  else
    let (entries, nodes) ← takeOver ((allEntries b.nodes).length + 1) b.nodes number
    .ok (entries, { b with nodes })

/-- The table of a mapping node. -/
def tableOf (b : Building) (number : Nat) : Except LoadError (Table Value × Building) := do
  let (entries, b) ← b.allEntriesOf number
  b.tableFrom [] entries

/-- The members of a set, given its node: the values of its keys. Of keys that are the same the first one
is the member. -/
def membersOf (b : Building) (number : Nat) : Except LoadError (List Value × Building) := do
  let (entries, b) ← b.allEntriesOf number
  let (_, b) ← b.tableFrom [] entries
  -- all keys have their values by now
  let (keys, b) ← b.values (entries.map (·.1))
  .ok (keys.eraseDupsBy fun v w => (b.graph.data v).same (b.graph.data w), b)

/-- The pairs of a sequence of mappings that hold one entry each. -/
def pairsFrom (b : Building) (read : List Value) :
    List Nat → Except LoadError (List Value × Building)
  | [] => .ok (read.reverse, b)
  | number :: rest =>
    match entriesOf? b.nodes number with
    | some [(k, v)] => do
      let (k, b) ← b.value k
      let (v, b) ← b.value v
      let (pair, graph) := b.graph.add (.tuple [k, v])
      { b with graph }.pairsFrom (pair :: read) rest
    | _ => .error .malformed

/-- The content of a collection, given its node. -/
def contentOf (b : Building) (number : Nat) : Except LoadError (Cell × Building) := do
  let node := b.nodes.getD number default
  match node.tag, node.content with
  | .seq, .sequence items =>
    let (vs, b) ← b.values items
    .ok (.list vs, b)
  | .omap, .sequence items | .pairs, .sequence items =>
    let (vs, b) ← b.pairsFrom [] items
    .ok (.list vs, b)
  | .map, _ =>
    let (table, b) ← b.tableOf number
    .ok (.map table, b)
  | .set, _ =>
    let (vs, b) ← b.membersOf number
    .ok (.set vs, b)
  | _, _ => .error .malformed

/-- A waiting collection is filled. -/
def fill (b : Building) (number label : Nat) : Except LoadError Building := do
  let (c, b) ← b.contentOf number
  .ok { b with graph := ⟨b.graph.cells.setIfInBounds label c⟩ }

/-- The waiting collections are filled, those in `now` first. The first argument bounds the number of
steps; since a node is met once, there are at most two for each. -/
def fillAll : Nat → Building → List (Nat × Nat) → Except LoadError Building
  | 0, _, _ => .error .endless
  | steps + 1, b, (number, label) :: now => do fillAll steps (← b.fill number label) now
  | steps + 1, b, [] =>
    match b.waiting.reverse with
    | [] => .ok b
    | now => fillAll steps { b with waiting := [] } now

end Building

/-- The value of a document, given its nodes and the number of the root. -/
def modelOfNodes (root : Nat) (nodes : Array Node) : Except LoadError Model := do
  let (v, b) ← ({ nodes } : Building).value root
  let b ← Building.fillAll (2 * nodes.size + 2) b []
  .ok ⟨b.graph, v⟩

end HomeAutomaton.Yaml
