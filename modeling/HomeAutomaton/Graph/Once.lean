import HomeAutomaton.Data.Text
import HomeAutomaton.Graph.Basic

/-!
# Every object once

A copy of a value in which every object is written out at most once, so that it is a finite tree
whatever the graph. The first time an object is met, depth first and in the order of its container,
it is copied in full. Where it is met again, in a circle or along a second way, it is left out: an
entry of a mapping is missing, and an item of a sequence is null.

What cannot change and is as short as can be, bytes of at most one and the empty tuple, is one object
wherever it stands.

The copy holds only what a plain export can hold: keys and texts of other types become text, kinds
become their name, sequences of any sort become lists and objects become mappings of those of their
attributes that are not private.

* `Cell.identity` is what an object is recognised by.
* `Data.exportKey` is the key of an entry in the copy, and `Data.exportEntries` are the entries.
* `Graph.visitOnce` copies a value, given the objects met so far.
* `Graph.once` is the copy of a value on its own.
-/

namespace HomeAutomaton

/-- What an object is recognised by. -/
inductive Identity where
  /-- Its number. -/
  | number (label : Nat)
  /-- Its content, which are these bytes. -/
  | bytes (bs : List UInt8)
  /-- Its being the empty tuple. -/
  | emptyTuple
  deriving DecidableEq, Repr

/-- What the object with a number is recognised by. -/
def Cell.identity (label : Nat) : Cell → Identity
  | .bytes [] => .bytes []
  | .bytes [b] => .bytes [b]
  | .tuple [] => .emptyTuple
  | _ => .number label

/-- The text of a key. A key without a text stays as it is, and keeps the copy from being printed. -/
def Data.exportKey (key : Data) : Data := if key.hasLongNumber then key else .str key.text

namespace Data

mutual

/-- Is there a key without a text in the copy? -/
def hasLongKey : Data → Bool
  | list items => anyLongKey items
  | map entries => anyEntryLongKey entries
  | _ => false

/-- Is there one in any of the copies? -/
def anyLongKey : List Data → Bool
  | [] => false
  | x :: xs => hasLongKey x || anyLongKey xs

/-- Is there one in any of the entries? -/
def anyEntryLongKey : List (Data × Data) → Bool
  | [] => false
  | (k, v) :: rest => hasLongNumber k || hasLongKey v || anyEntryLongKey rest

end

/-- The entries of a mapping in the copy. Of several entries with one text the last one counts, but a key
without a text is not lost. -/
def exportEntries (entries : List (Data × Data)) : List (Data × Data) :=
  if anyEntryLongKey entries then entries else Table.ofPairs entries

end Data

namespace Graph

/-- The attributes of an object that are not private: those whose name does not start with an
underscore. -/
def publicAttributes (attributes : List (String × Value)) : List (String × Value) :=
  attributes.filter fun a => !a.1.toList.head?.any (· == '_')

/-- The copy of a value, unless it was met before, under the objects met so far. Objects inside one
another are different ones, so the depth is bounded by their number. -/
def visitOnce (g : Graph) : Nat → Value → StateM (List Identity) (Option Data)
  | _, .null => pure (some .null)
  | _, .bool b => pure (some (.bool b))
  | _, .int n => pure (some (.int n))
  | _, .float x => pure (some (.float x))
  | _, .str s => pure (some (.str s))
  | _, .kind k => pure (some (.str k.name))
  | 0, .ref _ => pure none
  | depth + 1, .ref label =>
    match g.cell? label with
    | none => pure none
    | some cell => do
      let identity := cell.identity label
      let seen ← get
      if seen.contains identity then pure none
      else
        set (identity :: seen)
        let items (vs : List Value) : StateM (List Identity) (Option Data) := do
          let copies ← vs.mapM fun v => do pure ((← visitOnce g depth v).getD .null)
          pure (some (.list copies))
        let entries (es : List (Data × Value)) : StateM (List Identity) (Option Data) := do
          let copies ← es.mapM fun e => do
            pure ((← visitOnce g depth e.2).map fun copy => (e.1, copy))
          pure (some (.map (Data.exportEntries (copies.filterMap id))))
        match cell with
        | .list vs | .tuple vs | .set vs => items vs
        | .map es => entries (es.map fun e => (e.1.exportKey, e.2))
        | .object attributes => entries ((publicAttributes attributes).map fun a => (.str a.1, a.2))
        | .bytes bs => pure (some (.str (Data.bytes bs).text))
        | .date d => pure (some (.str (Data.date d).text))
        | .dateTime t => pure (some (.str (Data.dateTime t).text))

/-- The copy of a value in which every object is written out once. -/
def once (g : Graph) (v : Value) : Data :=
  ((g.visitOnce (g.cells.size + 1) v).run []).1.getD .null

end Graph

/-- The copy of a model in which every object is written out once. -/
def Model.once (m : Model) : Data := m.graph.once m.root

end HomeAutomaton
