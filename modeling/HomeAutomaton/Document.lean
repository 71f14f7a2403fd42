import HomeAutomaton.Rule.Basic

/-!
# The configuration document

What is handed to the home-automation system: a selector that holds the current state, with the
identifiers of the states as its options, and an automation that waits for the events of the machine
and applies the first rule that fits.

* `documentData` puts a document together from its parts.
* `Document.data` writes a document as data.
-/

namespace HomeAutomaton

/-- The icon of the selector, if no other is wanted. -/
def defaultIcon : String := "mdi:state-machine"

/-- How the automation runs, if it is not to run in another way. -/
def defaultMode : String := "single"

/-- A document with these parts. -/
def documentData (name machineId : String) (options : List Data) (initial : Data)
    (icon mode : String) (rules : Data) : Data :=
  .ofFields
    [("input_select", .ofFields
      [(machineId, .ofFields
        [("name", .str name),
          ("options", .list options),
          ("initial", initial),
          ("icon", .str icon)])]),
      ("automation", .list
        [.ofFields
          [("id", .str (machineId ++ "_automation")),
            ("alias", .str ("State Machine: " ++ name)),
            ("description", .str ("Handles state transitions for " ++ name ++
              " (state kept in " ++ entityId machineId ++ ")")),
            ("mode", .str mode),
            ("trigger", .list
              [.ofFields
                [("platform", .str "event"), ("event_type", .str (eventType machineId))]]),
            ("action", .list [.ofFields [("choose", rules)]])]])]

/-- The selector and the automation of a machine. -/
structure Document where
  name : String
  machineId : String
  /-- The identifiers of the states. -/
  options : List String
  /-- The identifier of the first state. -/
  initial : Option String
  icon : String := defaultIcon
  mode : String := defaultMode
  rules : List Rule

/-- The document as data. -/
def Document.data (d : Document) : Data :=
  documentData d.name d.machineId (d.options.map .str) ((d.initial.map Data.str).getD .null) d.icon
    d.mode (.list (d.rules.map (Rule.data d.machineId)))

end HomeAutomaton
