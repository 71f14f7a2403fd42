import HomeAutomaton.Fault
import HomeAutomaton.Yaml.ScalarText

/-!
# Writing YAML

A value as a YAML document. Sequences and mappings are written as blocks, an item or entry a line, and
empty ones between brackets; a block inside an item starts on the line of the item, and a sequence under
a key is not indented. A key that does not fit on one line is marked. No line is ever folded, and
nothing is shared: a value that occurs twice is written twice.

Every function gives lines, of which the first goes on behind what stands there already.

* `Data.unrenderable?` says what keeps a value from being written.
* `Data.yaml` writes a value.
-/

namespace HomeAutomaton.Yaml

open Text

/-- A sequence, mapping or set as it stands behind a key. -/
inductive Shape where
  | scalar (s : Scalar)
  | emptySequence
  | emptyMapping
  | emptySet
  | sequence
  | mapping
  | set

/-- The shape of a value. What cannot be written counts as null. -/
def shapeOf (d : Data) : Shape :=
  match d with
  | .list [] | .tuple [] => .emptySequence
  | .list _ | .tuple _ => .sequence
  | .map [] => .emptyMapping
  | .map _ => .mapping
  | .set [] => .emptySet
  | .set _ => .set
  | d => .scalar ((Scalar.ofData? d).getD { tag := .null, text := "null".toList })

/-- Can the value be a key on one line? -/
def isSimpleKey (d : Data) : Bool :=
  match shapeOf d with
  | .scalar s => s.isSimpleKey
  | .emptySequence | .emptyMapping => true
  | _ => false

/-- The lines of a value that is a scalar or an empty collection. -/
def leafLines (d : Data) (indent : Nat) (simpleKey : Bool) : List (List Char) :=
  match shapeOf d with
  | .scalar s => s.lines indent simpleKey
  | .emptySequence => ["[]".toList]
  | .emptySet => [Tag.mark .set ++ " \x7b\x7d".toList]
  | _ => ["\x7b\x7d".toList]

/-- Lines with something in front of the first. -/
def inFront (before : List Char) : List (List Char) → List (List Char)
  | [] => [before]
  | first :: rest => (before ++ first) :: rest

/-- Lines of which each group after the first starts a line of its own at the indentation. -/
def stacked (indent : Nat) : List (List (List Char)) → List (List Char)
  | [] => []
  | first :: rest => first ++ rest.flatMap (inFront (pad indent))

mutual

/-- A value behind a mark such as a hyphen, starting in the column `indent`. -/
def inlineLines (indent : Nat) : Data → List (List Char)
  | .list (x :: xs) => stacked indent (itemLines indent (x :: xs))
  | .tuple (x :: xs) => stacked indent (itemLines indent (x :: xs))
  | .map (e :: es) => stacked indent (entryLines indent (e :: es))
  | .set (x :: xs) =>
    Tag.mark .set :: inFront (pad indent) (stacked indent (memberLines indent (x :: xs)))
  | d => leafLines d indent false

/-- A value behind a key in the column `indent`. -/
def valueLines (indent : Nat) : Data → List (List Char)
  | .list (x :: xs) => [] :: inFront (pad indent) (stacked indent (itemLines indent (x :: xs)))
  | .tuple (x :: xs) => [] :: inFront (pad indent) (stacked indent (itemLines indent (x :: xs)))
  | .map (e :: es) =>
    [] :: inFront (pad (indent + 2)) (stacked (indent + 2) (entryLines (indent + 2) (e :: es)))
  | .set (x :: xs) =>
    (' ' :: Tag.mark .set) ::
      inFront (pad (indent + 2)) (stacked (indent + 2) (memberLines (indent + 2) (x :: xs)))
  | d => inFront [' '] (leafLines d (indent + 2) false)

/-- The items of a sequence in the column `indent`. -/
def itemLines (indent : Nat) : List Data → List (List (List Char))
  | [] => []
  | x :: xs => inFront ['-', ' '] (inlineLines (indent + 2) x) :: itemLines indent xs

/-- The entries of a mapping in the column `indent`. -/
def entryLines (indent : Nat) : List (Data × Data) → List (List (List Char))
  | [] => []
  | (k, v) :: es =>
    (if isSimpleKey k then
      match leafLines k (indent + 2) true with
      | [line] => inFront (line ++ [':']) (valueLines indent v)
      | lines => lines
    else
      inFront ['?', ' '] (inlineLines (indent + 2) k) ++
        inFront (pad indent ++ [':', ' ']) (inlineLines (indent + 2) v)) ::
      entryLines indent es

/-- The members of a set in the column `indent`: the keys of a mapping without values. -/
def memberLines (indent : Nat) : List Data → List (List (List Char))
  | [] => []
  | x :: xs =>
    (if isSimpleKey x then
      match leafLines x (indent + 2) true with
      | [line] => [line ++ ": null".toList]
      | lines => lines
    else
      inFront ['?', ' '] (inlineLines (indent + 2) x) ++ [pad indent ++ ": null".toList]) ::
      memberLines indent xs

end

/-- The lines of a document. A plain scalar on its own is followed by an end mark. -/
def documentLines (d : Data) : List (List Char) :=
  match shapeOf d with
  | .scalar s => s.lines 2 false ++ (if s.style false = .plain then ["...".toList] else [])
  | _ => inlineLines 0 d

end HomeAutomaton.Yaml

namespace HomeAutomaton.Data

mutual

/-- What keeps a value from being written, if anything does: the first place in it where a value without
a written form stands, or where it contains itself. -/
def unrenderable? : Data → Option Fault
  | int n => if Text.isTooLong n then some .numberTooLong else none
  | kind _ => some .notRenderable
  | object .. => some .notRenderable
  | up _ => some .endless
  | list items => unrenderableItem? items
  | tuple items => unrenderableItem? items
  | set items => unrenderableItem? items
  | map entries => unrenderablePair? entries
  | _ => none

/-- What keeps one of the values from being written. -/
def unrenderableItem? : List Data → Option Fault
  | [] => none
  | x :: xs => (unrenderable? x).or (unrenderableItem? xs)

/-- What keeps one of the entries from being written. -/
def unrenderablePair? : List (Data × Data) → Option Fault
  | [] => none
  | (k, v) :: es => ((unrenderable? k).or (unrenderable? v)).or (unrenderablePair? es)

end

/-- The value as a YAML document. -/
def yaml (d : Data) : Except Fault String :=
  match d.unrenderable? with
  | some fault => .error fault
  | none => .ok (String.join ((Yaml.documentLines d).map fun line => String.ofList (line ++ ['\n'])))

end HomeAutomaton.Data
