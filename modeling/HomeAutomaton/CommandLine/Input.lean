import HomeAutomaton.Graph.Basic
import HomeAutomaton.Json.Reader
import HomeAutomaton.Text.Lines
import HomeAutomaton.Text.Lowercase
import HomeAutomaton.Text.Utf8
import HomeAutomaton.Yaml.Load

/-!
# Reading a model file

A model file holds JSON if its name says so and YAML otherwise, in UTF-8 and with line ends of any
kind. Its value has to be a mapping.

A JSON file is read as a whole before its text is looked at. A YAML file is read in pieces, and what has
been read is parsed before the next piece is. If it cannot be read to its end, because its bytes are no
text or because of a character that YAML does not have, then its text may have been refused before that
is noticed. How far the parser has come by then is a matter of the library that reads YAML, so this is
left open: a `YamlReader` stands for that library.

* `modelOfFile` gives the model of a file.
* `InputFault.message?` is what is said about a file without a model. Some faults have no message:
  nothing is prepared for them, and they end the run at once.
-/

namespace HomeAutomaton.CommandLine

/-- The text of a file as it is read: every line end is a line feed. -/
def textRead (text : String) : String := String.ofList (Text.unifyLineEnds text.toList)

/-! ### Readers of YAML files -/

/-- How many characters of a YAML file are read before any of them is parsed, if there are so many. -/
def firstPiece : Nat := 8192

/-- The content starts with a text of at least `firstPiece` characters that YAML has no value for,
whatever comes behind it. -/
structure StartsRefused (content : List UInt8) (start : String) (e : Yaml.LoadError) : Prop where
  isStart : Text.utf8 start <+: content
  long : firstPiece ≤ start.length
  refused : ∀ rest : String, rest.toList.all Yaml.isAllowed = true →
    Model.ofYaml (textRead (start ++ rest)) = .error e

/-- What a library does with the contents of YAML files that cannot be read to their ends. -/
structure YamlReader where
  /-- Why the text is refused before the place is reached where it cannot be read on. -/
  early? : List UInt8 → Option Yaml.LoadError
  sound : ∀ {content : List UInt8} {e : Yaml.LoadError}, early? content = some e →
    ∃ start, StartsRefused content start e

/-- The reader that reads the whole file before it parses any of it. -/
def YamlReader.whole : YamlReader where
  early? _ := none
  sound := nofun

/-! ### Faults -/

/-- Why a file has no model. -/
inductive InputFault where
  /-- The bytes are no text. -/
  | notText
  /-- The text is not well formed. -/
  | malformed
  /-- The text is not malformed, but it has no value. -/
  | noValue (e : Yaml.LoadError)
  /-- An integer has more digits than are accepted. -/
  | tooManyDigits
  /-- The value is no mapping. -/
  | notMapping
  deriving DecidableEq, Repr

namespace InputFault

/-- The fault of a YAML text. -/
def ofYaml : Yaml.LoadError → InputFault
  | .malformed => malformed
  | e => noValue e

/-- What is said about a file without a model. -/
def message? (path : String) : InputFault → Option String
  | malformed => some ("Syntax Error in '" ++ path ++ "'")
  | notMapping => some ("Error: '" ++ path ++ "' does not contain a model object.")
  | _ => none

end InputFault

/-! ### Files -/

/-- Does the name say that the file holds JSON? -/
def isJsonName (path : String) : Bool := ".json".toList.isSuffixOf (Text.lowercase path.toList)

/-- The value of a JSON text. -/
def valueOfJson (text : String) : Except InputFault Model :=
  match Json.read text with
  | .ok d => .ok (Model.ofData d)
  | .error .malformed => .error .malformed
  | .error .tooManyDigits => .error .tooManyDigits

/-- The value of a YAML text. -/
def valueOfYaml (text : String) : Except InputFault Model :=
  match Model.ofYaml text with
  | .ok model => .ok model
  | .error e => .error (.ofYaml e)

/-- The value of a JSON file. -/
def jsonFile (content : List UInt8) : Except InputFault Model :=
  match Text.ofUtf8? content with
  | none => .error .notText
  | some text => valueOfJson (textRead text)

/-- The value of a YAML file. -/
def yamlFile (reader : YamlReader) (content : List UInt8) : Except InputFault Model :=
  let unread (fault : InputFault) : InputFault := ((reader.early? content).map .ofYaml).getD fault
  match Text.ofUtf8? content with
  | none => .error (unread .notText)
  | some text =>
    let text := textRead text
    if text.toList.all Yaml.isAllowed then valueOfYaml text else .error (unread .malformed)

/-- The value of a file with this path and content. -/
def valueOfFile (reader : YamlReader) (path : String) (content : List UInt8) : Except InputFault Model :=
  if isJsonName path then jsonFile content else yamlFile reader content

/-- The model of a file with this path and content. -/
def modelOfFile (reader : YamlReader) (path : String) (content : List UInt8) :
    Except InputFault Model := do
  let model ← valueOfFile reader path content
  if (model.graph.entries? model.root).isSome then .ok model else .error .notMapping

end HomeAutomaton.CommandLine
