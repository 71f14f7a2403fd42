import HomeAutomaton.Rule.Resolution

/-!
# Rules

A rule says what happens when an event arrives in a state. There is one for every transition out of a
state that has an event, in the order of the states and of the transitions out of each; a transition
that does nothing at all has none.

* `Scope.rules` gives the rules of a machine.
* `Rule.data` writes a rule as the home-automation system reads it.
-/

namespace HomeAutomaton

/-- What happens when an event arrives in a state. -/
structure Rule where
  /-- The identifier of the state. -/
  state : String
  event : String
  actions : List Action

/-- The rule as data. -/
def Rule.data (machineId : String) (r : Rule) : Data :=
  .ofFields
    [("conditions", .list [stateCondition machineId r.state, eventCondition r.event]),
      ("sequence", .list (Action.listData machineId r.actions))]

namespace Scope

variable (scope : Scope)

/-- The actions of a transition out of a state; `none` for a kind that is not triggered by events. -/
def actionsFrom (state : Node) (t : Transition) : Logged (Option (List Action)) :=
  match t.kind with
  | .external => do
    let leaving ← Fragment.listed (.exitOf state.path) (state.attr? "Exit")
    let actions ← scope.resolve t
    pure (some (leaving.map .given ++ actions))
  | .internal => do
    (t.requireTitle : Except Fault Unit)
    let actions ← Fragment.listed (.transition t.title) (t.attr? "Action")
    pure (some (actions.map .given))
  | .initial => pure none

/-- The rule of a transition out of a state, if it has one. -/
def rule? (state : Node) (stateId : String) (t : Transition) : Logged (Option Rule) := do
  match ← (t.event? : Except Fault (Option String)) with
  | none => pure none
  | some event =>
    match ← scope.actionsFrom state t with
    | none => pure none
    | some [] =>
      Logged.report (.ruleDropped stateId event)
      pure none
    | some actions => pure (some { state := stateId, event, actions })

/-- The rules of a state. -/
def rulesOf (state : Node) : Logged (List Rule) := do
  let stateId ← (identifierAt scope.identifiers state.path : Except Fault String)
  let rules ← (scope.machine.outgoing state.path).mapM (scope.rule? state stateId)
  pure (rules.filterMap id)

/-- The rules of a machine. -/
def rules : Logged (List Rule) := do
  let rules ← scope.machine.states.mapM scope.rulesOf
  pure rules.flatten

end Scope

end HomeAutomaton
