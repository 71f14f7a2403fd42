import HomeAutomaton.Rule.Descent

/-!
# Walking the machine

What a machine does when an event arrives in a state, read off its nodes and transitions directly: the
first transition with the event is taken, and at every choice on its way the first transition whose
guard is true, or else the first without one. Nothing is compiled, and of each choice only the branch
that is taken is looked at.

* `Fragment.listedActions` and `Fragment.apartActions` are the actions of a fragment, none if it is not
  usable.
* `Scope.walk` lists what a transition does.
* `Scope.reacts` says which transitions react to an event: those that do nothing at all do not.
* `Scope.respond` lists what is done in a state when an event arrives.
-/

namespace HomeAutomaton

namespace Fragment

/-- The actions of a fragment; none if it is not usable. -/
def actionsOf (text : Option String) : Actions :=
  match (read none (ofAttribute text)).result with
  | .ok actions => actions
  | .error _ => {}

/-- The actions of a fragment as they stand in their list. -/
def listedActions (text : Option String) : List Data := (actionsOf text).listed

/-- The actions of a fragment, each on its own. -/
def apartActions (text : Option String) : List Data := (actionsOf text).apart

end Fragment

namespace Scope

variable (scope : Scope) (machineId : String) (truth : String → Bool)

/-- The state at a node is entered. -/
def enterState (target : Node) : List Data :=
  ((scope.identifiers.get? target.path).map (setStateCall machineId)).toList
    ++ Fragment.apartActions (target.attr? "Entry")

/-- Has a transition a guard that is true? -/
def guardHolds (t : Transition) : Bool :=
  (t.attr? "Guard").any fun guard => truth (guardPredicate guard)

/-- The transition that is taken out of a choice: the first with a guard that is true, or else the first
without a guard. -/
def takenArm? (outgoing : List Transition) : Option Transition :=
  (outgoing.find? (guardHolds truth)).or (outgoing.find? fun b => (b.attr? "Guard").isNone)

/-- What a transition does, given the paths of the choices on the way to it: its own actions, and those
where it leads. -/
def walk (visited : List Data) (t : Transition) : List Data :=
  Fragment.apartActions (t.attr? "Action") ++
    match _hfind : scope.machine.find? t.dst with
    | none => []
    | some target =>
      match _hkind : target.kind with
      | .state | .endState => scope.enterState machineId target
      | .choice =>
        -- a circle of choices ends the walk
        if _hnew : visited.any fun path => path.same target.path then []
        else
          match takenArm? truth (scope.machine.outgoing target.path (some [.external])) with
          | none => []
          | some b => walk (target.path :: visited) b
      | .stateMachine | .initial => []
termination_by (scope.unvisited visited).length
decreasing_by
  all_goals exact scope.unvisited_length_lt (Machine.find?_eq_some _hfind).1 _hkind _hnew

/-- What is done where a transition leads. -/
def walkOn (visited : List Data) (t : Transition) : List Data :=
  match scope.machine.find? t.dst with
  | none => []
  | some target =>
    match target.kind with
    | .state | .endState => scope.enterState machineId target
    | .choice =>
      if visited.any fun path => path.same target.path then []
      else
        match takenArm? truth (scope.machine.outgoing target.path (some [.external])) with
        | none => []
        | some b => scope.walk machineId truth (target.path :: visited) b
    | .stateMachine | .initial => []

theorem walk_eq (visited : List Data) (t : Transition) :
    scope.walk machineId truth visited t
      = Fragment.apartActions (t.attr? "Action") ++ scope.walkOn machineId truth visited t := by
  rw [walk, walkOn]
  refine congrArg _ ?_
  split
  next h => rw [h]
  next target h =>
    rw [h]
    dsimp only
    split <;> rename_i hkind <;> simp only [hkind]
    split <;> rfl

/-- Does a transition lead to something that can be entered? -/
def leadsSomewhere (t : Transition) : Bool :=
  match scope.machine.find? t.dst with
  | none => false
  | some target => target.kind != .stateMachine && target.kind != .initial

/-- Does a transition out of a state do nothing at all? -/
def isNoOp (state : Node) (t : Transition) : Bool :=
  match t.kind with
  | .internal => (Fragment.listedActions (t.attr? "Action")).isEmpty
  | _ =>
    (Fragment.listedActions (state.attr? "Exit")).isEmpty &&
      (Fragment.apartActions (t.attr? "Action")).isEmpty && !scope.leadsSomewhere t

/-- Does a transition out of a state react to an event? -/
def reacts (state : Node) (event : String) (t : Transition) : Bool :=
  t.kind != .initial && (match t.event? with
    | .ok (some own) => own == event
    | _ => false) && !scope.isNoOp state t

/-- What a transition out of a state comes to when it is triggered. -/
def reaction (state : Node) (t : Transition) : List Data :=
  match t.kind with
  | .internal => Fragment.listedActions (t.attr? "Action")
  | _ => Fragment.listedActions (state.attr? "Exit") ++ scope.walk machineId truth [] t

/-- What is done in a state when an event arrives: the first transition that reacts is triggered. -/
def respond (state : Node) (event : String) : List Data :=
  match (scope.machine.outgoing state.path).find? (scope.reacts state event) with
  | none => []
  | some t => scope.reaction machineId truth state t

end Scope

end HomeAutomaton
