import HomeAutomaton.Text.Lowercase

/-!
# Kinds of nodes and transitions

A model names the kind of a record in its type text, in several spellings: case and everything that
is not a letter are ignored, so `State Machine`, `state-machine` and `StateMachine` are the same type.
-/

namespace HomeAutomaton

/-- What a node of the machine is. -/
inductive NodeKind where
  /-- The machine itself. -/
  | stateMachine
  /-- A state. -/
  | state
  /-- A state in which the machine has ended. -/
  | endState
  /-- A branching point: the first outgoing transition whose guard holds is taken. -/
  | choice
  /-- The point where the machine starts. -/
  | initial
  deriving DecidableEq, Repr

/-- What a transition of the machine is. -/
inductive TransitionKind where
  /-- Leaves its source. -/
  | external
  /-- Runs its action and stays in its source. -/
  | internal
  /-- Leads from a start marker to the first state. -/
  | initial
  deriving DecidableEq, Repr

/-- The letters of a type text, in lower case. -/
def typeKey (typeText : String) : List Char :=
  (Text.lowercase typeText.toList).filter fun c => 'a' ≤ c && c ≤ 'z'

namespace NodeKind

/-- The name of the kind in messages and exports. -/
def name : NodeKind → String
  | stateMachine => "StateMachine"
  | state => "State"
  | endState => "EndState"
  | choice => "ChoiceBranch"
  | initial => "InitialMarker"

/-- The name of the kind as a constant of its enumeration. -/
def constant : NodeKind → String
  | stateMachine => "STATE_MACHINE"
  | state => "STATE"
  | endState => "END_STATE"
  | choice => "CHOICE"
  | initial => "INITIAL"

/-- Can the machine rest in a node of this kind? -/
def isState : NodeKind → Bool
  | state | endState => true
  | _ => false

/-- All kinds. -/
def all : List NodeKind := [stateMachine, state, endState, choice, initial]

/-- The type keys of node records. -/
def typeKeys : List (String × NodeKind) :=
  [("statemachine", stateMachine), ("state", state), ("endstate", endState), ("choice", choice),
   ("choicepseudostate", choice), ("choicebranch", choice), ("initial", initial),
   ("initialmarker", initial), ("initialpseudostate", initial)]

/-- The kind that a type text names. -/
def ofType? (typeText : String) : Option NodeKind :=
  (typeKeys.find? (·.1.toList == typeKey typeText)).map (·.2)

end NodeKind

namespace TransitionKind

/-- The type keys of transition records. -/
def typeKeys : List (String × TransitionKind) :=
  [("externaltransition", external), ("internaltransition", internal),
   ("initialtransition", initial)]

/-- The kind that a type text names. -/
def ofType? (typeText : String) : Option TransitionKind :=
  (typeKeys.find? (·.1.toList == typeKey typeText)).map (·.2)

end TransitionKind

end HomeAutomaton
