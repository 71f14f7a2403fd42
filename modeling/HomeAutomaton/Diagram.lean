import HomeAutomaton.Machine.Identifier

/-!
# The diagram of a machine

A directed graph for a graph-drawing program: a vertex for every state, choice and start marker, and an
edge for every transition between nodes of the machine. Texts stand between double quotes, where quotes
and backslashes have a backslash in front.

* `Diagram.ofMachine` says what is drawn.
* `Diagram.text` writes it down.
-/

namespace HomeAutomaton

/-- A vertex of a diagram. -/
structure Vertex where
  id : String
  label : String
  tooltip : String
  kind : NodeKind

/-- An edge of a diagram. -/
structure Edge where
  source : String
  destination : String
  label : String
  dashed : Bool

/-- What is drawn. -/
structure Diagram where
  title : String
  vertices : List Vertex
  edges : List Edge

/-- The name of the vertex for a path: every character other than ASCII letters, digits and the
underscore becomes an underscore. -/
def vertexName (path : String) : String :=
  let isPlain (c : Char) : Bool :=
    ('a' ≤ c && c ≤ 'z') || ('A' ≤ c && c ≤ 'Z') || ('0' ≤ c && c ≤ '9') || c = '_'
  String.ofList ('n' :: path.toList.map fun c => if isPlain c then c else '_')

/-- The name of the vertex for a value in the place of a path; what counts as missing is an empty
path. -/
def vertexId (path : Data) : Except Fault String :=
  match path with
  | .str s => .ok (vertexName s)
  | path => if path.isFilled then .error .pathNotText else .ok (vertexName "")

/-! ### Labels -/

/-- The guard of a transition in brackets. -/
def guardLabel (guard : String) : String :=
  match Text.trimChars guard.toList with
  | '[' :: rest => String.ofList ('[' :: rest)
  | cs => String.ofList ('[' :: cs ++ [']'])

/-- The action of a transition on one line; of more than fifteen characters the first twelve. -/
def actionLabel (action : String) : String :=
  let line := (Text.trimChars action.toList).flatMap fun c => if c = '\n' then [';', ' '] else [c]
  let shown := if 15 < line.length then line.take 12 ++ ['.', '.', '.'] else line
  "/ " ++ String.ofList shown

/-- The label of a transition: event, guard and action, as far as there are any. -/
def Transition.label (t : Transition) : Except Fault String := do
  let event ← t.event?
  let parts :=
    event.toList ++ ((t.attr? "Guard").map guardLabel).toList ++
      ((t.attr? "Action").map actionLabel).toList
  .ok (String.intercalate " " parts)

/-! ### What is drawn -/

/-- The style of vertices of a kind; `none` for a kind that is not drawn. -/
def vertexStyle? : NodeKind → Option String
  | .stateMachine => none
  | .state => some "shape=box, style=\"rounded,filled\", fillcolor=white"
  | .endState => some "shape=doubleoctagon, style=filled, fillcolor=white"
  | .choice => some "shape=diamond, style=filled, fillcolor=lightyellow"
  | .initial => some "shape=point, width=0.15"

/-- The identifier of the state at a path, or else the path. -/
def identifierOrPath (identifiers : Table String) (path : Data) : String :=
  (identifiers.get? path).getD path.text

/-- The label of a node. -/
def nodeLabel (identifiers : Table String) (n : Node) : String :=
  match n.kind with
  | .choice => "?"
  | .initial => ""
  | _ => if n.name ≠ "" then n.name else identifierOrPath identifiers n.path

/-- The vertex of a node, if its kind is drawn. -/
def vertexOf (identifiers : Table String) (n : Node) : Except Fault (Option Vertex) :=
  match vertexStyle? n.kind with
  | none => .ok none
  | some _ => do
    let id ← vertexId n.path
    .ok (some
      { id
        label := nodeLabel identifiers n
        tooltip := identifierOrPath identifiers n.path
        kind := n.kind })

/-- The edge of a transition, if both its ends are nodes of the machine. -/
def edgeOf (m : Machine) (t : Transition) : Except Fault (Option Edge) := do
  match ← m.node? t.src with
  | none => .ok none
  | some _ =>
    match ← m.node? t.dst with
    | none => .ok none
    | some _ =>
      let label ← t.label
      let source ← vertexId t.src
      let destination ← vertexId t.dst
      .ok (some { source, destination, label, dashed := t.kind == .internal })

/-- What is drawn for a machine. -/
def Diagram.ofMachine (m : Machine) (identifiers : Table String := []) : Except Fault Diagram := do
  let vertices ← m.nodes.mapM (vertexOf identifiers)
  let edges ← m.transitions.mapM (edgeOf m)
  .ok
    { title := (m.root?.map (·.name)).getD "StateMachine"
      vertices := vertices.filterMap id
      edges := edges.filterMap id }

/-! ### Writing it down -/

/-- A text between double quotes. -/
def dotString (s : String) : String :=
  String.ofList
    ('"' :: (s.toList.flatMap fun c => if c = '\\' ∨ c = '"' then ['\\', c] else [c]) ++ ['"'])

/-- The line of a vertex. -/
def Vertex.text (v : Vertex) : String :=
  "    " ++ v.id ++ " [label=" ++ dotString v.label ++ ", tooltip=" ++ dotString v.tooltip ++ ", " ++
    (vertexStyle? v.kind).getD "" ++ "];"

/-- The line of an edge. -/
def Edge.text (e : Edge) : String :=
  "    " ++ e.source ++ " -> " ++ e.destination ++ " [label=" ++ dotString e.label ++
    ", fontsize=10" ++ (if e.dashed then ", style=dashed" else "") ++ "];"

/-- The lines of a diagram. -/
def Diagram.lines (d : Diagram) : List String :=
  ["digraph StateMachine \x7b",
    "    label=" ++ dotString d.title ++
      "; fontname=\"Arial\"; node [fontname=\"Arial\"]; edge [fontname=\"Arial\"];",
    "    // --- States ---"] ++
    d.vertices.map (·.text) ++ ["    // --- Transitions ---"] ++ d.edges.map (·.text) ++ ["\x7d"]

/-- The diagram as text. -/
def Diagram.text (d : Diagram) : String := String.intercalate "\n" d.lines

end HomeAutomaton
