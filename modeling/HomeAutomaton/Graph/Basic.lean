import HomeAutomaton.Data.Basic

/-!
# Object graphs

A model is more than a tree: the same record can stand in several places, and records can refer to
one another in a circle. A `Graph` holds every object once, under a number; a `Value` is a scalar or
the number of an object. Two references are to the same object exactly when the numbers are equal.

Besides the containers, texts that are not ordinary ones (bytes, dates, points in time) are objects
with an identity of their own. Keys of mappings cannot change and are held by value.

* `Graph.data` writes a value out as a tree, each container that is met inside itself becoming a leaf
  that points back to it.
* `Graph.ofData` builds the graph of a tree, in which nothing is shared.
-/

namespace HomeAutomaton

/-- A scalar, or a reference to an object of a graph. -/
inductive Value where
  | null
  | bool (b : Bool)
  | int (n : Int)
  | float (x : Binary64)
  | str (s : String)
  | kind (k : NodeKind)
  | ref (label : Nat)
  deriving DecidableEq, Repr, Inhabited

/-- An object of a graph. -/
inductive Cell where
  | list (items : List Value)
  | tuple (items : List Value)
  | set (items : List Value)
  | map (entries : Table Value)
  | object (attributes : List (String × Value))
  | bytes (bs : List UInt8)
  | date (d : Date)
  | dateTime (t : DateTime)
  deriving Repr, Inhabited

/-- Objects by their number. -/
structure Graph where
  cells : Array Cell := #[]
  deriving Inhabited

/-- A value together with the objects it may refer to. -/
structure Model where
  graph : Graph
  root : Value

namespace Graph

/-- The object with this number. -/
def cell? (g : Graph) (label : Nat) : Option Cell := g.cells[label]?

/-- The object that a value refers to. -/
def deref? (g : Graph) : Value → Option Cell
  | .ref label => g.cell? label
  | _ => none

/-- The entries of a mapping. -/
def entries? (g : Graph) (v : Value) : Option (Table Value) :=
  match g.deref? v with
  | some (.map entries) => some entries
  | _ => none

/-- Is the value something other than null, false, zero or empty? -/
def isFilled (g : Graph) (v : Value) : Bool :=
  match v with
  | .null => false
  | .bool b => b
  | .int n => n != 0
  | .float x => !x.isZero
  | .str s => s != ""
  | .kind _ => true
  | .ref label =>
    match g.cell? label with
    | some (.list items) | some (.tuple items) | some (.set items) => !items.isEmpty
    | some (.map entries) => !entries.isEmpty
    | some (.bytes bs) => !bs.isEmpty
    | _ => true

/-! ### Writing out -/

/-- The tree of a value inside the containers `around`, the nearest first. Containers inside one
another are different objects, so the depth is bounded by their number. -/
def dataWithin (g : Graph) : Nat → List Nat → Value → Data
  | _, _, .null => .null
  | _, _, .bool b => .bool b
  | _, _, .int n => .int n
  | _, _, .float x => .float x
  | _, _, .str s => .str s
  | _, _, .kind k => .kind k
  | 0, _, .ref _ => .null
  | depth + 1, around, .ref label =>
    match around.idxOf? label with
    | some i => .up (i + 1)
    | none =>
      let inside := dataWithin g depth (label :: around)
      match g.cell? label with
      | none => .null
      | some (.list items) => .list (items.map inside)
      | some (.tuple items) => .tuple (items.map inside)
      | some (.set items) => .set (items.map inside)
      | some (.map entries) => .map (entries.map fun e => (e.1, inside e.2))
      | some (.object attributes) => .object label (attributes.map fun a => (a.1, inside a.2))
      | some (.bytes bs) => .bytes bs
      | some (.date d) => .date d
      | some (.dateTime t) => .dateTime t

/-- The tree of a value. -/
def data (g : Graph) (v : Value) : Data := g.dataWithin (g.cells.size + 1) [] v

/-! ### Building -/

/-- The graph with one more object, and the reference to it. -/
def add (g : Graph) (c : Cell) : Value × Graph :=
  (.ref g.cells.size, ⟨g.cells.push c⟩)

mutual

/-- The value of a tree, every container of which becomes an object of its own. -/
def ofDataFrom (g : Graph) : Data → Value × Graph
  | .null => (.null, g)
  | .bool b => (.bool b, g)
  | .int n => (.int n, g)
  | .float x => (.float x, g)
  | .str s => (.str s, g)
  | .kind k => (.kind k, g)
  | .bytes bs => g.add (.bytes bs)
  | .date d => g.add (.date d)
  | .dateTime t => g.add (.dateTime t)
  | .list items => let (vs, g) := itemsFrom g items; g.add (.list vs)
  | .tuple items => let (vs, g) := itemsFrom g items; g.add (.tuple vs)
  | .set items => let (vs, g) := itemsFrom g items; g.add (.set vs)
  | .map entries => let (es, g) := entriesFrom g entries; g.add (.map es)
  | .object _ attributes => let (as, g) := attributesFrom g attributes; g.add (.object as)
  | .up _ => (.null, g)

/-- The values of the items of a container. -/
def itemsFrom (g : Graph) : List Data → List Value × Graph
  | [] => ([], g)
  | x :: xs =>
    let (v, g) := ofDataFrom g x
    let (vs, g) := itemsFrom g xs
    (v :: vs, g)

/-- The values of the entries of a mapping. -/
def entriesFrom (g : Graph) : List (Data × Data) → Table Value × Graph
  | [] => ([], g)
  | (k, x) :: xs =>
    let (v, g) := ofDataFrom g x
    let (vs, g) := entriesFrom g xs
    ((k, v) :: vs, g)

/-- The values of the attributes of an object. -/
def attributesFrom (g : Graph) : List (String × Data) → List (String × Value) × Graph
  | [] => ([], g)
  | (k, x) :: xs =>
    let (v, g) := ofDataFrom g x
    let (vs, g) := attributesFrom g xs
    ((k, v) :: vs, g)

end

end Graph

/-- The model of a tree, in which nothing is shared. -/
def Model.ofData (d : Data) : Model :=
  let (root, graph) := Graph.ofDataFrom {} d
  ⟨graph, root⟩

/-- The tree of a model. -/
def Model.data (m : Model) : Data := m.graph.data m.root

end HomeAutomaton
