import HomeAutomaton.Yaml.Number
import HomeAutomaton.Yaml.Timestamp

/-!
# Tags

The tag of a node says of what type its value is. A node without a tag gets one from its form: a
collection is a sequence or a mapping, a scalar that is quoted is a text, and a plain scalar is what
it looks like.

* `Tag.ofPlain` is the tag of a plain scalar.
* `Tag.ofName` reads the name of a tag.
-/

namespace HomeAutomaton.Yaml

/-- The type of a node. -/
inductive Tag where
  | null
  | bool
  | int
  | float
  | binary
  | timestamp
  | str
  | seq
  | map
  | set
  | omap
  | pairs
  /-- The key `<<`, under which the entries of other mappings are taken over. -/
  | merge
  /-- The key `=`, under which a mapping that is meant as a scalar has its value. -/
  | value
  /-- A tag that no type is known for. -/
  | unknown
  deriving DecidableEq, Repr, Inhabited

namespace Tag

/-- What the names of the known tags start with. -/
def nameStart : String := "tag:yaml.org,2002:"

/-- The names of the known tags, without their common start. -/
def names : List (String × Tag) :=
  [("null", null), ("bool", bool), ("int", int), ("float", float), ("binary", binary),
   ("timestamp", timestamp), ("str", str), ("seq", seq), ("map", map), ("set", set), ("omap", omap),
   ("pairs", pairs), ("merge", merge), ("value", value)]

/-- The tag with a name. -/
def ofName (name : String) : Tag :=
  ((names.find? fun entry => nameStart ++ entry.1 == name).map (·.2)).getD unknown

/-- The words for truth. -/
def trueWords : List String :=
  ["yes", "Yes", "YES", "true", "True", "TRUE", "on", "On", "ON"]

/-- The words for falsehood. -/
def falseWords : List String :=
  ["no", "No", "NO", "false", "False", "FALSE", "off", "Off", "OFF"]

/-- The words for nothing. -/
def nullWords : List String := ["~", "null", "Null", "NULL"]

/-- Marks of YAML itself. A scalar that is one of them is read as such, and has no value. -/
def markWords : List String := ["!", "&", "*"]

/-- The tag of a plain scalar. A line feed at its end does not count, unless it is all there is. -/
def ofPlain (text : List Char) : Tag :=
  let isWord (words : List String) (cs : List Char) : Bool := words.any (·.toList == cs)
  let cs := if text.getLast? = some '\n' then text.dropLast else text
  if text.isEmpty then null
  else if cs.isEmpty then str
  else if isWord (trueWords ++ falseWords) cs then bool
  else if looksLikeFloat cs then float
  else if looksLikeInt cs then int
  else if cs == "<<".toList then merge
  else if isWord nullWords cs then null
  else if (Timestamp.ofText? cs).any (·.isPlainForm) then timestamp
  else if cs == "=".toList then value
  else if isWord markWords cs then unknown
  else str

end Tag

end HomeAutomaton.Yaml
