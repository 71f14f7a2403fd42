import HomeAutomaton.Diagnostic
import HomeAutomaton.Text.Blank
import HomeAutomaton.Yaml.Load

/-!
# Action fragments

The actions of a transition and those on entering and leaving a state are written as a fragment of
YAML: one action, which is a mapping, or a list of actions. A fragment that cannot be used is reported
and counts as no actions at all.

Through anchors and aliases an action may contain the list that it stands in. So a fragment gives its
actions in two forms: as they stand in their list, and each written out on its own, for use in another
list. The two differ only for such a fragment.

* `Fragment.read` reads a fragment.
* `Fragment.listed` gives its actions as they stand in their list, `Fragment.apart` each on its own.
-/

namespace HomeAutomaton

/-- The actions of a fragment. -/
structure Actions where
  /-- The actions as they stand in their list. -/
  listed : List Data := []
  /-- The actions, each written out on its own. -/
  apart : List Data := []
  deriving Inhabited

namespace Fragment

/-- The actions of a loaded fragment. -/
def ofModel (place : Option Place) (text : String) (m : Model) : Logged Actions :=
  match m.data with
  | .list items =>
    let apart := match m.graph.deref? m.root with
      | some (.list values) => values.map m.graph.data
      | _ => items
    pure { listed := items, apart }
  | .map entries => pure { listed := [.map entries], apart := [.map entries] }
  | .null => pure {}
  | d => do
    Logged.report (.fragmentNotActions place d.typeName text)
    pure {}

/-- The actions of a text. -/
def ofText (place : Option Place) (text : String) : Logged Actions :=
  if Text.isBlankText text then pure {}
  else
    match Model.ofYaml text with
    | .ok m => ofModel place text m
    | .error .malformed => do
      Logged.report (.fragmentMalformed place text)
      pure {}
    | .error e => Logged.fail (.fragment e)

/-- The actions of a fragment, which is a text if it is usable and null if it is missing. -/
def read (place : Option Place) : Data → Logged Actions
  | .null => pure {}
  | .str text => ofText place text
  | d => do
    Logged.report (.fragmentNotText place d.typeName)
    pure {}

/-- The fragment of an attribute, which may be missing. -/
def ofAttribute (text : Option String) : Data := (text.map Data.str).getD .null

/-- The actions of an attribute as they stand in their list. -/
def listed (place : Place) (text : Option String) : Logged (List Data) := do
  let actions ← read (some place) (ofAttribute text)
  pure actions.listed

/-- The actions of an attribute, each written out on its own. -/
def apart (place : Place) (text : Option String) : Logged (List Data) := do
  let actions ← read (some place) (ofAttribute text)
  pure actions.apart

end Fragment

end HomeAutomaton
