import HomeAutomaton.Data.Text
import HomeAutomaton.Fault
import HomeAutomaton.Text.Blank

/-!
# State machines

The nodes and transitions of a machine, as they are collected from a model of either shape. Nodes are
found by their path; of several nodes with one path the first counts. Transitions are listed in the
order in which they were met, each once.

Paths are texts in a well-formed model. A model may put any value there, so they are held as data;
a list or mapping in the place of a path is a fault as soon as it is looked up.

* `Machine.addNode` and `Machine.addTransition` collect; each tells whether it added anything.
* `Machine.node?`, `Machine.states`, `Machine.outgoing` and `Machine.initialTransition?` look up.
* `Machine.markInitial` makes every transition out of a start marker an initial one.
-/

namespace HomeAutomaton

/-- The text of a value is needed. An integer that is too long keeps a value from having one. -/
def Data.requireText (d : Data) : Except Fault Unit :=
  if d.hasLongNumber then .error .numberTooLong else .ok ()

/-- The text of an attribute, unless it is missing, blank or not a text. -/
def textAttribute? (attributes : Table Data) (key : String) : Option String :=
  match attributes.get? (.str key) with
  | some (.str s) => if Text.isBlankText s then none else some s
  | _ => none

/-- A node of a machine. -/
structure Node where
  kind : NodeKind
  path : Data
  name : String := ""
  attributes : Table Data := []

namespace Node

/-- The text of an attribute of the node. -/
def attr? (n : Node) (key : String) : Option String := textAttribute? n.attributes key

/-- Can the machine rest in the node? -/
def isState (n : Node) : Bool := n.kind.isState

end Node

/-- A transition of a machine. A path that is missing is null. -/
structure Transition where
  kind : TransitionKind
  src : Data := .null
  dst : Data := .null
  attributes : Table Data := []
  path : Data := .null
  /-- The name of the event group that the transition stands in. -/
  eventName : Data := .null

namespace Transition

/-- The text of an attribute of the transition. -/
def attr? (t : Transition) (key : String) : Option String := textAttribute? t.attributes key

/-- The event of a group with this name, unless the name is missing or blank. -/
def groupEvent? : Data → Except Fault (Option String)
  | .str s => .ok (if Text.isBlankText s then none else some (Text.trim s))
  | .bytes bs => if bs.all Text.isBlankByte then .ok none else .error .eventNotText
  | d => if d.isFilled then .error .eventNameNotText else .ok none

/-- The event that triggers the transition: its own, or else that of its group. -/
def event? (t : Transition) : Except Fault (Option String) :=
  match t.attr? "Event" with
  | some event => .ok (some (Text.trim event))
  | none => groupEvent? t.eventName

/-- What the transition is called in messages: its path, or else its ends. -/
def title (t : Transition) : Data :=
  if t.path.isFilled then t.path else .str (t.src.text ++ " -> " ++ t.dst.text)

/-- The title is made, for which the ends need texts where there is no path. -/
def makeTitle (t : Transition) : Except Fault Unit :=
  if t.path.isFilled then .ok ()
  else do
    t.src.requireText
    t.dst.requireText

/-- The title is made and put into words. -/
def requireTitle (t : Transition) : Except Fault Unit := do
  t.makeTitle
  t.title.requireText

end Transition

/-- What a transition is told apart by. -/
inductive TransitionKey where
  /-- A path, or a key that was chosen for it. -/
  | path (d : Data)
  /-- The record that it was read from. -/
  | record (label : Nat)
  /-- Nothing: it is like no other. -/
  | unique

namespace TransitionKey

/-- Are the two keys equal? -/
def same : TransitionKey → TransitionKey → Bool
  | path d, path e => d.same e
  | record l, record m => l == m
  | _, _ => false

/-- Can the key be looked up? -/
def isKey : TransitionKey → Bool
  | path d => d.isKey
  | _ => true

/-- The path of a transition if it has one, and otherwise the given key. -/
def ofPath (d : Data) (otherwise : TransitionKey) : TransitionKey :=
  if d.isFilled then path d else otherwise

end TransitionKey

/-- No two of the nodes have the same path. -/
def DistinctPaths (nodes : List Node) : Prop :=
  nodes.Pairwise fun n later => n.path.same later.path = false

theorem DistinctPaths.nil : DistinctPaths [] := List.Pairwise.nil

/-- A node whose path none of the others has keeps the paths distinct. -/
theorem DistinctPaths.concat {nodes : List Node} {n : Node} (h : DistinctPaths nodes)
    (hnew : ¬ nodes.any (fun other => other.path.same n.path) = true) :
    DistinctPaths (nodes ++ [n]) := by
  refine List.pairwise_append.mpr ⟨h, List.pairwise_singleton _ _, fun other hother later hlater => ?_⟩
  obtain rfl := List.mem_singleton.mp hlater
  simp only [Bool.not_eq_true, List.any_eq_false] at hnew
  exact hnew other hother

/-- The nodes and transitions of a machine, in the order in which they were met. -/
structure Machine where
  nodes : List Node := []
  distinct : DistinctPaths nodes := by exact DistinctPaths.nil
  transitions : List Transition := []
  /-- The keys of the transitions. -/
  keys : List TransitionKey := []

namespace Machine

/-- The node with a path. Nothing has the path null. -/
def find? (m : Machine) (path : Data) : Option Node :=
  match path with
  | .null => none
  | path => m.nodes.find? fun n => n.path.same path

/-- The node with a path, which must be a value that can be looked up. -/
def node? (m : Machine) (path : Data) : Except Fault (Option Node) :=
  if path.isKey then .ok (m.find? path) else .error .notKey

/-- A node that is found is one of the machine's, with the path that was looked up. -/
theorem find?_eq_some {m : Machine} {path : Data} {n : Node} (h : m.find? path = some n) :
    n ∈ m.nodes ∧ n.path.same path = true := by
  unfold find? at h
  split at h
  · cases h
  · exact ⟨List.mem_of_find?_eq_some h, (List.find?_eq_some_iff_append.mp h).1⟩

theorem node?_eq_ok {m : Machine} {path : Data} {n : Option Node} (h : m.node? path = .ok n) :
    path.isKey = true ∧ m.find? path = n := by
  unfold node? at h
  split at h
  · exact ⟨by assumption, Except.ok.inj h⟩
  · cases h

theorem mem_of_node? {m : Machine} {path : Data} {n : Node} (h : m.node? path = .ok (some n)) :
    n ∈ m.nodes :=
  (find?_eq_some (node?_eq_ok h).2).1

/-- The machine with one more node, unless it has one with that path. -/
def addNode (m : Machine) (n : Node) : Except Fault (Bool × Machine) :=
  if !n.path.isKey then .error .notKey
  else if hsame : m.nodes.any fun other => other.path.same n.path then .ok (false, m)
  else .ok (true, { m with nodes := m.nodes ++ [n], distinct := m.distinct.concat hsame })

/-- The machine with one more transition, unless it has one with that key. -/
def addTransition (m : Machine) (t : Transition) (key : TransitionKey) :
    Except Fault (Bool × Machine) :=
  if !key.isKey then .error .notKey
  else if m.keys.any key.same then .ok (false, m)
  else .ok (true, { m with transitions := m.transitions ++ [t], keys := m.keys ++ [key] })

/-- The node that stands for the machine itself: the first of its kind. -/
def root? (m : Machine) : Option Node := m.nodes.find? fun n => n.kind == .stateMachine

/-- The nodes in which the machine can rest. -/
def states (m : Machine) : List Node := m.nodes.filter (·.isState)

/-- The transitions whose source equals a path, of the given kinds if any are given. -/
def outgoing (m : Machine) (path : Data) (kinds : Option (List TransitionKind) := none) :
    List Transition :=
  m.transitions.filter fun t =>
    t.src.equal path && (match kinds with
      | none => true
      | some kinds => kinds.contains t.kind)

/-- Every transition has a title that can be put into words. -/
def Titled (m : Machine) : Prop := ∀ t ∈ m.transitions, t.requireTitle = .ok ()

/-- The transition that says where the machine starts: the first of its kind. -/
def initialTransition? (m : Machine) : Option Transition :=
  m.transitions.find? fun t => t.kind == .initial

/-- Transitions out of a start marker become initial ones. -/
def markInitial (m : Machine) : Except Fault Machine := do
  let transitions ← m.transitions.mapM fun t => do
    match ← m.node? t.src with
    | some source => .ok (if source.kind = .initial then { t with kind := .initial } else t)
    | none => .ok t
  .ok { m with transitions }

end Machine

end HomeAutomaton
