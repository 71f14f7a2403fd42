import HomeAutomaton.Machine.Kind
import HomeAutomaton.Yaml.Error

/-!
# Faults

What can keep an operation from giving a result. A model that is no machine at all is refused with a
message; other faults arise where a value has a type that nothing can be done with, where an action
fragment holds a scalar without a value, or where a value cannot be rendered.
-/

namespace HomeAutomaton

/-- Why there is no result. -/
inductive Fault where
  /-- The table of objects is not a mapping. -/
  | objectsNotMapping
  /-- There is neither a table of objects nor a root record. -/
  | noRecords
  /-- No node of the model is a state machine. -/
  | noStateMachine
  /-- A value in the place of a list or mapping has no items. -/
  | notIterable
  /-- A list, set or mapping stands in the place of a path. -/
  | notKey
  /-- A child list has a name that is not a text. -/
  | listNameNotText
  /-- A path that is not a text is to become the name of a vertex. -/
  | pathNotText
  /-- The pointers of a transition are not a mapping. -/
  | pointersNotMapping
  /-- The name of an event group is not a text. -/
  | eventNameNotText
  /-- Attributes are neither a mapping nor a list of pairs. -/
  | attributesNotPairs
  /-- An event is given by bytes. -/
  | eventNotText
  /-- An integer has too many digits to be written. -/
  | numberTooLong
  /-- A state has no identifier. -/
  | unknownState
  /-- The text of an action fragment has no value. -/
  | fragment (e : Yaml.LoadError)
  /-- A value of this type cannot be rendered. -/
  | notRenderable
  /-- A value that contains itself cannot be rendered. -/
  | endless
  deriving DecidableEq, Repr

namespace Fault

/-- The message of a fault that says that the model is no machine. -/
def message? : Fault → Option String
  | objectsNotMapping => some "Model 'objects' must be a mapping of path -> record"
  | noRecords => some "Model has neither an 'objects' table nor a 'root' node"
  | noStateMachine => some "No 'State Machine' node found in model"
  | _ => none

/-- The fault in words. -/
def text (e : Fault) : String :=
  match e.message? with
  | some message => message
  | none =>
    match e with
    | notIterable => "a value in the place of a list or mapping has no items"
    | notKey => "a value in the place of a path cannot be looked up"
    | listNameNotText => "a child list has a name that is not a text"
    | pathNotText => "a path is not a text"
    | pointersNotMapping => "pointers are not a mapping"
    | eventNameNotText => "the name of an event group is not a text"
    | attributesNotPairs => "attributes are neither a mapping nor a list of pairs"
    | eventNotText => "an event is given by bytes"
    | numberTooLong => "an integer has too many digits to be written"
    | unknownState => "a state has no identifier"
    | fragment _ => "a scalar in an action fragment has no value"
    | notRenderable => "a value cannot be rendered"
    | endless => "a value that contains itself cannot be rendered"
    | _ => ""

end Fault

end HomeAutomaton
