import HomeAutomaton.Document

/-!
# Running an automation

What the home-automation system does with a document when an event arrives: of the rules it takes the
first whose conditions all hold, and runs its actions. Conditions are read off the data that they are
written as, so that an event name is what its literal says, and a predicate is what stands in its
template. Whether predicates are true is not for the document to say, and neither is what the actions of
fragments do: they are passed on as they are.

* `Situation` is what an automation runs in, `Situation.meets` says whether a condition of a rule holds.
* `Action.outcome` lists what an action comes to: a decision takes the first alternative that holds.
* `Document.run` lists what a document does.
-/

namespace HomeAutomaton

/-! ### Reading conditions -/

/-- The value of a field of a mapping. -/
def Data.field? (d : Data) (name : String) : Option Data :=
  match d with
  | .map entries => Table.get? entries (.str name)
  | _ => none

/-- The text of a field of a mapping. -/
def Data.textOf? (d : Data) (name : String) : Option String := (d.field? name).bind Data.str?

/-- The conditions of a rule or an alternative. -/
def Data.conditions (d : Data) : List Data :=
  match d.field? "conditions" with
  | some (.list conditions) => conditions
  | _ => []

/-- The expression that a template evaluates. -/
def templateExpression? (template : String) : Option String :=
  match template.toList with
  | '\x7b' :: '\x7b' :: ' ' :: rest =>
    -- what the template ends with comes first here
    match rest.reverse with
    | '\x7d' :: '\x7d' :: ' ' :: expression => some (String.ofList expression.reverse)
    | _ => none
  | _ => none

/-- The expression of a condition that is a template. -/
def conditionExpression? (condition : Data) : Option String :=
  if condition.textOf? "condition" = some "template" then
    (condition.textOf? "value_template").bind templateExpression?
  else none

/-- What an expression that compares the event starts with. -/
def eventComparison : List Char := "trigger.event.data.event == ".toList

/-- The event name that an expression compares the event with. -/
def comparedEvent? (expression : String) : Option String :=
  if eventComparison.isPrefixOf expression.toList then
    match unquoteEvent? (expression.toList.drop eventComparison.length) with
    -- the literal has to be all that is left
    | some (event, []) => some (String.ofList event)
    | _ => none
  else none

/-- What an automation runs in. -/
structure Situation where
  /-- The option that the selector of the machine holds. -/
  current : String
  event : String
  /-- Which predicates are true. -/
  truth : String → Bool

/-- Does a condition of a rule hold? It is about the selector of the machine or about the event. -/
def Situation.meets (s : Situation) (machineId : String) (condition : Data) : Bool :=
  if condition.textOf? "condition" = some "state" then
    condition.textOf? "entity_id" == some (entityId machineId) &&
      condition.textOf? "state" == some s.current
  else (conditionExpression? condition).bind comparedEvent? == some s.event

/-- Do all conditions of a rule hold? -/
def Situation.appliesTo (s : Situation) (machineId : String) (r : Rule) : Bool :=
  (r.data machineId).conditions.all (s.meets machineId)

/-! ### Running actions -/

/-- Is a predicate true, as it stands in the condition of an alternative? -/
def predicateHolds (truth : String → Bool) (predicate : String) : Bool :=
  (conditionExpression? (templateCondition predicate)).any truth

namespace Action

mutual

/-- What an action comes to: the actions of fragments and the changes of state that are run. -/
def outcome (machineId : String) (truth : String → Bool) : Action → List Data
  | given d => [d]
  | setState stateId => [setStateCall machineId stateId]
  | choose options default? =>
    (optionsOutcome machineId truth options).getD (defaultOutcome machineId truth default?)

/-- What a list of actions comes to. -/
def listOutcome (machineId : String) (truth : String → Bool) : List Action → List Data
  | [] => []
  | a :: rest => outcome machineId truth a ++ listOutcome machineId truth rest

/-- What the first alternative whose predicate is true comes to. -/
def optionsOutcome (machineId : String) (truth : String → Bool) :
    List (String × List Action) → Option (List Data)
  | [] => none
  | (predicate, actions) :: rest =>
    if predicateHolds truth predicate then some (listOutcome machineId truth actions)
    else optionsOutcome machineId truth rest

/-- What the default comes to, nothing if there is none. -/
def defaultOutcome (machineId : String) (truth : String → Bool) : Option (List Action) → List Data
  | none => []
  | some actions => listOutcome machineId truth actions

end

end Action

/-- What a document does: the first rule that applies is run. -/
def Document.run (d : Document) (s : Situation) : List Data :=
  match d.rules.find? (s.appliesTo d.machineId) with
  | none => []
  | some r => Action.listOutcome d.machineId s.truth r.actions

end HomeAutomaton
