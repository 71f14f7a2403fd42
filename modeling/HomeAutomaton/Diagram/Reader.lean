import HomeAutomaton.Diagram

/-!
# Reading a diagram

The text of a diagram is in the language of a graph-drawing program, and this is a reader of as much of
that language as a diagram needs. It goes through the characters once. A backslash inside quotes stands for
the character behind it, whatever that is; two slashes outside of quotes start a comment, which ends with
its line. What is left are words, quoted texts, arrows and punctuation marks, of which the statements of
a graph are made.

The reader knows nothing about the texts that were written. It refuses what it does not expect: every
statement between the braces has to be a setting, a vertex or an edge, and in this order.

* `Diagram.tokens?` cuts a text into tokens; `Diagram.step` says what one character does.
* `Diagram.statements?` are the statements of a graph.
* `Diagram.read?` is the diagram that they describe.
-/

namespace HomeAutomaton.Diagram

/-! ### Tokens -/

/-- A piece of a text. -/
inductive Token where
  | word (cs : List Char)
  | quoted (cs : List Char)
  | mark (c : Char)
  | arrow
  deriving DecidableEq, Repr

/-- What the characters before a place have started. What was read of a word or a quoted text is held
backwards. -/
inductive Mode where
  | between
  | word (read : List Char)
  | quoted (read : List Char)
  /-- Inside quotes, behind a backslash. -/
  | escaped (read : List Char)
  | slash
  | comment
  | dash
  deriving DecidableEq, Repr

/-- Can a word hold the character? Numbers are words too. -/
def isWordChar (c : Char) : Bool :=
  ('a' ≤ c && c ≤ 'z') || ('A' ≤ c && c ≤ 'Z') || ('0' ≤ c && c ≤ '9') || c == '_' || c == '.'

/-- Does the character separate tokens? -/
def isSpace (c : Char) : Bool := c == ' ' || c == '\n' || c == '\t' || c == '\r'

/-- Is the character a token of its own? -/
def isMark (c : Char) : Bool := ['\x7b', '\x7d', '[', ']', '=', ';', ','].contains c

/-- What a character outside of quotes and comments starts. -/
def begin? (c : Char) : Option (List Token × Mode) :=
  if isSpace c then some ([], .between)
  else if isMark c then some ([.mark c], .between)
  else if isWordChar c then some ([], .word [c])
  else if c = '"' then some ([], .quoted [])
  else if c = '/' then some ([], .slash)
  else if c = '-' then some ([], .dash)
  else none

/-- The tokens that a character completes, and what it leaves started. -/
def step : Mode → Char → Option (List Token × Mode)
  | .between, c => begin? c
  | .word read, c =>
    if isWordChar c then some ([], .word (c :: read))
    else (begin? c).map fun next => (.word read.reverse :: next.1, next.2)
  | .quoted read, c =>
    if c = '"' then some ([.quoted read.reverse], .between)
    else if c = '\\' then some ([], .escaped read)
    else some ([], .quoted (c :: read))
  | .escaped read, c => some ([], .quoted (c :: read))
  | .slash, c => if c = '/' then some ([], .comment) else none
  | .comment, c => some ([], if c = '\n' then .between else .comment)
  | .dash, c => if c = '>' then some ([.arrow], .between) else none

/-- The tokens that characters complete, one after the other, and what they leave started. -/
def scan : Mode → List Char → Option (List Token × Mode)
  | mode, [] => some ([], mode)
  | mode, c :: cs =>
    match step mode c with
    | none => none
    | some (tokens, next) => (scan next cs).map fun rest => (tokens ++ rest.1, rest.2)

/-- The tokens that the end of the text completes. It may not stand inside quotes, an arrow or the slashes
of a comment. -/
def finish? : Mode → Option (List Token)
  | .between | .comment => some []
  | .word read => some [.word read.reverse]
  | _ => none

/-- The tokens of a text. -/
def tokens? (cs : List Char) : Option (List Token) := do
  let (tokens, mode) ← scan .between cs
  let last ← finish? mode
  some (tokens ++ last)

/-! ### Statements -/

/-- A statement of a graph. -/
inductive Statement where
  | setting (name value : String)
  | vertex (id : String) (attributes : List (String × String))
  | edge (source destination : String) (attributes : List (String × String))
  deriving DecidableEq, Repr

/-- A word, or a text between quotes. -/
def Token.text? : Token → Option String
  | .word cs | .quoted cs => some (String.ofList cs)
  | _ => none

/-- A name with its value. -/
def attribute? : List Token → Option (String × String)
  | [.word name, .mark '=', value] => value.text?.map fun s => (String.ofList name, s)
  | _ => none

/-- Names with their values, with commas between them. -/
def attributes? (tokens : List Token) : Option (List (String × String)) :=
  (tokens.splitOn (.mark ',')).mapM attribute?

/-- What stands before the last token, which has to be the given mark. -/
def closedBy? (c : Char) (tokens : List Token) : Option (List Token) :=
  if tokens.getLast? = some (.mark c) then some tokens.dropLast else none

/-- The statement that tokens make up. -/
def statement? : List Token → Option Statement
  | .word source :: .arrow :: .word destination :: .mark '[' :: rest => do
    let attributes ← attributes? (← closedBy? ']' rest)
    some (.edge (String.ofList source) (String.ofList destination) attributes)
  | .word id :: .mark '[' :: rest => do
    let attributes ← attributes? (← closedBy? ']' rest)
    some (.vertex (String.ofList id) attributes)
  | tokens => (attribute? tokens).map fun a => .setting a.1 a.2

/-- The statements of a graph, each with a semicolon behind it. -/
def statements? : List Token → Option (List Statement)
  | .word kind :: .word _ :: .mark '\x7b' :: rest => do
    let body ← closedBy? '\x7d' rest
    let parts := body.splitOn (.mark ';')
    if String.ofList kind = "digraph" ∧ parts.getLast? = some [] then parts.dropLast.mapM statement?
    else none
  | _ => none

/-! ### What is drawn -/

/-- The style of vertices of a kind, as attributes. -/
def styleAttributes? (kind : NodeKind) : Option (List (String × String)) := do
  attributes? (← tokens? (← vertexStyle? kind).toList)

/-- The kind of the vertices of a style. -/
def kindOfStyle? (style : List (String × String)) : Option NodeKind :=
  NodeKind.all.find? fun kind => styleAttributes? kind == some style

/-- Is the statement an edge? -/
def Statement.isEdge : Statement → Bool
  | .edge .. => true
  | _ => false

/-- The vertex that a statement describes: label, tooltip and style. -/
def vertex? : Statement → Option Vertex
  | .vertex id (("label", label) :: ("tooltip", tooltip) :: style) =>
    (kindOfStyle? style).map fun kind => { id, label, tooltip, kind }
  | _ => none

/-- The edge that a statement describes. -/
def edge? : Statement → Option Edge
  | .edge source destination [("label", label), ("fontsize", _)] =>
    some { source, destination, label, dashed := false }
  | .edge source destination [("label", label), ("fontsize", _), ("style", "dashed")] =>
    some { source, destination, label, dashed := true }
  | _ => none

/-- The diagram that statements describe: the label and the font of the graph, the defaults of vertices
and edges, all vertices, and all edges. -/
def ofStatements? : List Statement → Option Diagram
  | .setting "label" title :: .setting "fontname" _ :: .vertex "node" _ :: .vertex "edge" _ :: rest => do
    let vertices ← (rest.takeWhile (!·.isEdge)).mapM vertex?
    let edges ← (rest.dropWhile (!·.isEdge)).mapM edge?
    some { title, vertices, edges }
  | _ => none

/-- The diagram that a text describes. -/
def read? (text : String) : Option Diagram := do
  ofStatements? (← statements? (← tokens? text.toList))

end HomeAutomaton.Diagram
