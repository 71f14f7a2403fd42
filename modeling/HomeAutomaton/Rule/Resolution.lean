import HomeAutomaton.Fragment
import HomeAutomaton.Machine.Guard
import HomeAutomaton.Machine.Identifier
import HomeAutomaton.Rule.Action

/-!
# What a transition does

A transition runs its own action and then enters its destination. Entering a state changes the current
state and runs the state's entry actions. Entering a choice is a decision between the transitions out
of it: those with a guard in their order, and the first one without as the default. So the actions of a
transition form a tree. A choice that is reached again from itself ends its branch; two branches that
meet at a choice both go on from there.

The tree is built with a stack of branches still to be resolved, each with the choices on the way to it
and the number of the list that its actions go into. A decision stands in its list as soon as it is
met, with lists for its alternatives that are empty at first; each is filled when its branch comes off
the stack. At the end the tree is read off the lists.

* `Scope.expand` resolves one branch.
* `Scope.work` resolves all branches from a stack.
* `actionsAt` reads the actions of a list, with those of the lists that it refers to.
* `Scope.resolve` gives the actions of a transition.
-/

namespace HomeAutomaton

/-- What actions are resolved against. -/
structure Scope where
  machine : Machine
  /-- The identifiers of the states by their paths. -/
  identifiers : Table String

/-- An action in a list that is being built. The alternatives of a decision have lists of their own,
which it refers to by their numbers. -/
inductive Draft where
  | given (d : Data)
  | setState (stateId : String)
  | choose (options : List (String × Nat)) (default? : Option Nat)

/-- A transition to be resolved, with the paths of the choices on the way to it. -/
structure Branch where
  transition : Transition
  visited : List Data := []
  /-- The number of the list that its actions go into. -/
  out : Nat := 0

/-- The lists that are being built, and the branches still to be resolved, the next one first. -/
structure Workspace where
  lists : List (List Draft)
  pending : List Branch

namespace Workspace

/-- The workspace in which only a transition is to be resolved, into list 0. -/
def start (t : Transition) : Workspace := { lists := [[]], pending := [{ transition := t }] }

/-- Actions go into the list of a branch, and other branches onto the stack, each with a new empty
list. -/
def fill (lists : List (List Draft)) (stack : List Branch) (b : Branch) (drafts : List Draft)
    (branches : List Branch) : Workspace :=
  { lists := lists.modify b.out (· ++ drafts) ++ List.replicate branches.length []
    pending := branches ++ stack }

end Workspace

namespace Scope

variable (scope : Scope)

/-- A transition in messages. -/
def placeOf (t : Transition) : Place := .transition t.title

/-- The transitions out of a choice with a guard, and those without. -/
def alternatives (choice : Node) : List Transition × List Transition :=
  (scope.machine.outgoing choice.path (some [.external])).partition fun t => (t.attr? "Guard").isSome

/-- The predicate of a transition with a guard. -/
def predicateOf (t : Transition) : String := guardPredicate ((t.attr? "Guard").getD "")

/-- Transitions as branches, into the lists from number `next` on. -/
def branchesFrom (visited : List Data) (next : Nat) (arms : List Transition) : List Branch :=
  (arms.zipIdx next).map fun arm => { transition := arm.1, visited, out := arm.2 }

/-- The decision at a choice, whose alternatives get the lists from number `next` on, and the branches
in the order of their lists. -/
def decisionAt (choice : Node) (visited : List Data) (next : Nat) : Logged (Draft × List Branch) := do
  let (guarded, unguarded) := scope.alternatives choice
  if guarded.isEmpty && unguarded.isEmpty then
    Logged.report (.choiceWithoutExit choice.path)
  match unguarded with
  | first :: _ :: _ => do
    (first.makeTitle : Except Fault Unit)
    Logged.report (.severalDefaults choice.path unguarded.length first.title)
  | _ => pure ()
  let options := (guarded.zipIdx next).map fun arm => (predicateOf arm.1, arm.2)
  let default? := unguarded.head?.map fun _ => next + guarded.length
  pure (.choose options default?, branchesFrom visited next (guarded ++ unguarded.take 1))

/-- The destination of a transition is entered: the actions there, and the branches that are left. New
lists have the numbers from `next` on. -/
def enter (b : Branch) (next : Nat) : Logged (List Draft × List Branch) := do
  let place := placeOf b.transition
  match ← (scope.machine.node? b.transition.dst : Except Fault (Option Node)) with
  | none =>
    Logged.report (.destinationMissing b.transition.dst place)
    pure ([], [])
  | some target =>
    match target.kind with
    | .state | .endState =>
      let stateId ← (identifierAt scope.identifiers target.path : Except Fault String)
      let entry ← Fragment.apart (.entryOf target.path) (target.attr? "Entry")
      pure (.setState stateId :: entry.map .given, [])
    | .choice =>
      if b.visited.any fun path => path.same target.path then do
        Logged.report (.choiceCycle target.path place)
        pure ([], [])
      else
        let (decision, branches) ← scope.decisionAt target (target.path :: b.visited) next
        pure ([decision], branches)
    | kind =>
      Logged.report (.notEnterable kind target.path place)
      pure ([], [])

/-- One branch is resolved: its own actions with those at its destination, and the branches that are
left. The words for its place are made first. -/
def expand (b : Branch) (next : Nat) : Logged (List Draft × List Branch) := do
  (b.transition.requireTitle : Except Fault Unit)
  let own ← Fragment.apart (placeOf b.transition) (b.transition.attr? "Action")
  let (drafts, branches) ← scope.enter b next
  pure (own.map .given ++ drafts, branches)

/-- The workspace after the branches on its stack, and all that come out of them, are resolved. The
first argument bounds the number of steps. -/
def work : Nat → Workspace → Logged Workspace
  | 0, w => pure w
  | steps + 1, w =>
    match w.pending with
    | [] => pure w
    | b :: stack => do
      let (drafts, branches) ← scope.expand b w.lists.length
      work steps (.fill w.lists stack b drafts branches)

/-- The number of choices of the machine. -/
def choiceCount : Nat := (scope.machine.nodes.filter fun n => n.kind == .choice).length

/-- The number of steps that a branch can take with at most `depth` choices still to be entered: each
of them has no more branches than the machine has transitions. -/
def stepBound (width : Nat) : Nat → Nat
  | 0 => 1
  | depth + 1 => 1 + width * stepBound width depth

/-- A number of steps that suffices to resolve a transition. -/
def enoughSteps : Nat := stepBound scope.machine.transitions.length scope.choiceCount

end Scope

/-- The action that a draft stands for, where `read` gives the actions of the lists by their number. -/
def Draft.action (read : Nat → List Action) : Draft → Action
  | given d => .given d
  | setState stateId => .setState stateId
  | choose options default? => .choose (options.map fun o => (o.1, read o.2)) (default?.map read)

@[simp] theorem Draft.map_action_given (read : Nat → List Action) (ds : List Data) :
    (ds.map Draft.given).map (Draft.action read) = ds.map .given := by
  rw [List.map_map]
  rfl

/-- The actions of a list, read off the lists that it refers to. The first number bounds how far
decisions are inside one another. -/
def actionsAt (lists : List (List Draft)) : Nat → Nat → List Action
  | 0, _ => []
  | depth + 1, number => (lists.getD number []).map (Draft.action (actionsAt lists depth))

namespace Scope

variable (scope : Scope)

/-- The actions of a transition. Decisions inside one another are at different choices. -/
def resolve (t : Transition) : Logged (List Action) := do
  let w ← scope.work scope.enoughSteps (.start t)
  pure (actionsAt w.lists (scope.choiceCount + 1) 0)

end Scope

end HomeAutomaton
