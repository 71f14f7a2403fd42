import HomeAutomaton.Rule.Template

/-!
# Actions of rules

What a rule does is a list of actions: those of the model's fragments, changes of state, and decisions
between alternatives, which hold lists of actions themselves.

* `Action.data` writes an action as the home-automation system reads it.
-/

namespace HomeAutomaton

/-- A step of a rule. -/
inductive Action where
  /-- An action of a fragment, as it is. -/
  | given (d : Data)
  /-- The machine is put into the state with this identifier. -/
  | setState (stateId : String)
  /-- The first alternative whose predicate holds, or else the default if there is one. -/
  | choose (options : List (String × List Action)) (default? : Option (List Action))
  deriving Repr, Inhabited

namespace Action

mutual

/-- The action as data. -/
def data (machineId : String) : Action → Data
  | given d => d
  | setState stateId => setStateCall machineId stateId
  | choose options default? =>
    .ofFields (("choose", .list (optionsData machineId options)) ::
      match default? with
      | none => []
      | some actions => [("default", .list (listData machineId actions))])

/-- A list of actions as data. -/
def listData (machineId : String) : List Action → List Data
  | [] => []
  | a :: rest => data machineId a :: listData machineId rest

/-- The alternatives of a decision as data. -/
def optionsData (machineId : String) : List (String × List Action) → List Data
  | [] => []
  | (predicate, actions) :: rest =>
    .ofFields [("conditions", .list [templateCondition predicate]),
        ("sequence", .list (listData machineId actions))] ::
      optionsData machineId rest

end

end Action

end HomeAutomaton
