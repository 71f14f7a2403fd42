import HomeAutomaton.Diagnostic
import HomeAutomaton.Machine.Basic
import HomeAutomaton.Text.Slug

/-!
# Identifiers of states

Every state gets an identifier of its own: the slugs of its name and its path, joined by an underscore.
Where an earlier state has the same, a number is put behind it, the least from 2 on that makes it
different from all identifiers given so far, and the change is reported.

* `Node.identifierBase` is the identifier that a state would like to have.
* `freshIdentifier` makes it different from those taken.
* `identifiersOf` gives the identifiers of a list of states by their paths.
-/

namespace HomeAutomaton

/-- The slug of a value, which is empty when the value counts as missing. -/
def slugOf (d : Data) : String := Text.slug d.nameText

namespace Node

/-- The slugs of name and path, joined. -/
def identifierBase (n : Node) : String := Text.joinNonEmpty [Text.slug n.name, slugOf n.path]

/-- The identifier of the machine that the node stands for. -/
def machineIdentifier (n : Node) : String :=
  let slug := Text.slug n.name
  if slug = "" then "state_machine" else slug

end Node

/-- The `n`th candidate for an identifier: the base itself, and from then on the base with a number. -/
def identifierCandidate (base : String) (n : Nat) : String :=
  if n = 0 then base else base ++ "_" ++ Text.decimal (n + 1)

/-- The first candidate that is not taken. One of the first `taken.length + 1` is free, since they are
all different. -/
def freshIdentifier (base : String) (taken : List String) : String :=
  match (List.range (taken.length + 1)).find? fun n =>
      !taken.contains (identifierCandidate base n) with
  | some n => identifierCandidate base n
  | none => base

/-- The identifiers of the states, after those in `table`; `taken` are all that were given. -/
def identifiersFrom (table : Table String) (taken : List String) :
    List Node → Logged (Table String)
  | [] => pure table
  | state :: rest => do
    if state.path.hasLongNumber then Logged.fail .numberTooLong
    let base := state.identifierBase
    let identifier := freshIdentifier base taken
    if identifier ≠ base then
      Logged.report (.identifierTaken base state.path identifier)
    if !state.path.isKey then Logged.fail .notKey
    else identifiersFrom (table.put state.path identifier) (identifier :: taken) rest

/-- The identifiers of the states by their paths. -/
def identifiersOf (states : List Node) : Logged (Table String) := identifiersFrom [] [] states

/-- The identifier of the state at a path. -/
def identifierAt (identifiers : Table String) (path : Data) : Except Fault String :=
  match identifiers.get? path with
  | some identifier => .ok identifier
  | none => .error .unknownState

end HomeAutomaton
