import HomeAutomaton.Data.Basic

/-!
# Conditions and service calls

The building blocks of rules as the home-automation system reads them: names of entities and events,
conditions on the current state and on the event, and the call that changes the state. An event name
stands as a literal inside a template, between single quotes, where quotes and backslashes have a
backslash in front.

* `quoteEvent` writes such a literal, `unquoteEvent?` reads one and gives what follows it.
-/

namespace HomeAutomaton

/-- A mapping with text keys. -/
def Data.ofFields (fields : List (String × Data)) : Data :=
  .map (fields.map fun f => (.str f.1, f.2))

/-- The entity that holds the current state of a machine. -/
def entityId (machineId : String) : String := "input_select." ++ machineId

/-- The type of the events of a machine. -/
def eventType (machineId : String) : String := machineId ++ "_event"

/-- The service that changes the current state. -/
def selectService : String := "input_select.select_option"

/-! ### Literals -/

/-- A character of an event name inside a literal. -/
def escapeEventChar (c : Char) : List Char := if c = '\\' ∨ c = '\'' then ['\\', c] else [c]

/-- The literal of an event name. -/
def quoteEvent (event : String) : String :=
  String.ofList ('\'' :: event.toList.flatMap escapeEventChar ++ ['\''])

/-- The characters of a literal behind its opening quote, and what follows its closing quote. A
backslash makes the next character stand for itself. -/
def literalRest? : List Char → Option (List Char × List Char)
  | [] => none
  | '\'' :: rest => some ([], rest)
  | '\\' :: c :: rest => (literalRest? rest).map fun (cs, rest) => (c :: cs, rest)
  | c :: rest => (literalRest? rest).map fun (cs, rest) => (c :: cs, rest)

/-- The event name of the literal at the start of a text, and what follows it. -/
def unquoteEvent? : List Char → Option (List Char × List Char)
  | '\'' :: rest => literalRest? rest
  | _ => none

/-! ### Conditions -/

/-- The template that evaluates an expression. -/
def templateText (expression : String) : String := "\x7b\x7b " ++ expression ++ " \x7d\x7d"

/-- The condition that an expression holds. -/
def templateCondition (expression : String) : Data :=
  .ofFields [("condition", .str "template"), ("value_template", .str (templateText expression))]

/-- The expression that the event has a name. -/
def eventExpression (event : String) : String :=
  "trigger.event.data.event == " ++ quoteEvent event

/-- The condition that the event has a name. -/
def eventCondition (event : String) : Data := templateCondition (eventExpression event)

/-- The condition that the machine is in a state. -/
def stateCondition (machineId stateId : String) : Data :=
  .ofFields [("condition", .str "state"), ("entity_id", .str (entityId machineId)),
    ("state", .str stateId)]

/-- The service call that puts the machine into a state. -/
def setStateCall (machineId stateId : String) : Data :=
  .ofFields [("service", .str selectService),
    ("target", .ofFields [("entity_id", .str (entityId machineId))]),
    ("data", .ofFields [("option", .str stateId)])]

end HomeAutomaton
