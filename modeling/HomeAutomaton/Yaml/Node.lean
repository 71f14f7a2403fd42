import HomeAutomaton.Yaml.Tag
import HomeAutomaton.Yaml.Tree

/-!
# The nodes of a YAML document

A document as a graph: every node has a number, its tag is settled, and an alias is nothing but the
number of the node it stands for. A collection may contain itself.

* `Nodes.ofTree` numbers the nodes of a tree. An alias must come after the start of the node with its
  anchor, and no two nodes may have the same anchor.
-/

namespace HomeAutomaton.Yaml

/-- What a node holds. -/
inductive Content where
  | scalar (text : String)
  | sequence (items : List Nat)
  | mapping (entries : List (Nat × Nat))
  deriving Repr, Inhabited

/-- The entries of a mapping. Nothing else has any. -/
def Content.entries : Content → List (Nat × Nat)
  | mapping entries => entries
  | _ => []

/-- A node of a document. -/
structure Node where
  tag : Tag
  content : Content
  deriving Repr, Inhabited

/-- The nodes of a document by their number, and the anchors given so far. -/
structure Nodes where
  nodes : Array Node := #[]
  anchors : List (String × Nat) := []
  deriving Inhabited

namespace Nodes

/-- The tag of a scalar. -/
def scalarTag (properties : Properties) (plain : Bool) (text : String) : Tag :=
  match properties.tag with
  | none => if plain then Tag.ofPlain text.toList else .str
  | some "!" => Tag.ofPlain text.toList
  | some name => Tag.ofName name

/-- The tag of a collection, which is `standard` if it has none. -/
def collectionTag (properties : Properties) (standard : Tag) : Tag :=
  match properties.tag with
  | none | some "!" => standard
  | some name => Tag.ofName name

/-- One more node with its anchor, and its number. -/
def add (ns : Nodes) (properties : Properties) (node : Node) : Except LoadError (Nat × Nodes) :=
  let number := ns.nodes.size
  match properties.anchor with
  | none => .ok (number, { ns with nodes := ns.nodes.push node })
  | some name =>
    if (ns.anchors.lookup name).isSome then .error .malformed
    else
      .ok (number, { nodes := ns.nodes.push node, anchors := (name, number) :: ns.anchors })

/-- The content of a node becomes known. -/
def fill (ns : Nodes) (number : Nat) (content : Content) : Nodes :=
  { ns with nodes := ns.nodes.modify number fun node => { node with content } }

mutual

/-- The number of a tree, with its nodes added. -/
def ofTreeFrom (ns : Nodes) : Tree → Except LoadError (Nat × Nodes)
  | .alias name =>
    match ns.anchors.lookup name with
    | some number => .ok (number, ns)
    | none => .error .malformed
  | .scalar properties plain text =>
    ns.add properties ⟨scalarTag properties plain text, .scalar text⟩
  | .sequence properties items => do
    let (number, ns) ← ns.add properties ⟨collectionTag properties .seq, .sequence []⟩
    let (items, ns) ← itemsFrom ns items
    .ok (number, ns.fill number (.sequence items))
  | .mapping properties entries => do
    let (number, ns) ← ns.add properties ⟨collectionTag properties .map, .mapping []⟩
    let (entries, ns) ← entriesFrom ns entries
    .ok (number, ns.fill number (.mapping entries))

/-- The numbers of the items of a sequence. -/
def itemsFrom (ns : Nodes) : List Tree → Except LoadError (List Nat × Nodes)
  | [] => .ok ([], ns)
  | item :: rest => do
    let (number, ns) ← ofTreeFrom ns item
    let (numbers, ns) ← itemsFrom ns rest
    .ok (number :: numbers, ns)

/-- The numbers of the entries of a mapping. -/
def entriesFrom (ns : Nodes) :
    List (Tree × Tree) → Except LoadError (List (Nat × Nat) × Nodes)
  | [] => .ok ([], ns)
  | (key, value) :: rest => do
    let (k, ns) ← ofTreeFrom ns key
    let (v, ns) ← ofTreeFrom ns value
    let (numbers, ns) ← entriesFrom ns rest
    .ok ((k, v) :: numbers, ns)

end

/-- The number of the root of a tree, and the nodes. -/
def ofTree (tree : Tree) : Except LoadError (Nat × Array Node) := do
  let (root, ns) ← ofTreeFrom {} tree
  .ok (root, ns.nodes)

end Nodes

end HomeAutomaton.Yaml
