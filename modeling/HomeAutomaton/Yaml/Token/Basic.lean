/-!
# Tokens of YAML

The pieces that a YAML text is made of. Indentation is made explicit: where a block collection starts
and ends there is a token, and so is where a mapping key starts, even if nothing in the text marks it.
-/

namespace HomeAutomaton.Yaml

/-- A piece of a YAML text. -/
inductive Token where
  /-- A directive that names the version of YAML, by its major number. -/
  | versionDirective (major : Nat)
  /-- A directive that declares a tag handle. -/
  | tagDirective (handle start : String)
  /-- Any other directive. -/
  | otherDirective
  | documentStart
  | documentEnd
  | streamEnd
  | blockSequenceStart
  | blockMappingStart
  | blockEnd
  | flowSequenceStart
  | flowSequenceEnd
  | flowMappingStart
  | flowMappingEnd
  | blockEntry
  | flowEntry
  | key
  | value
  | alias (name : String)
  | anchor (name : String)
  /-- A tag: its handle, unless it is written out, and the rest of it. -/
  | tag (handle : Option String) (rest : String)
  /-- A scalar, and whether it stands without quotes and is not a block. -/
  | scalar (plain : Bool) (text : String)
  deriving DecidableEq, Repr, Inhabited

end HomeAutomaton.Yaml
