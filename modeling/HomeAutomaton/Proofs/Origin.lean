import HomeAutomaton.Proofs.Behaviour
import Mathlib.Data.List.Forall2

/-!
# Where the parts of a resolved transition come from

What a transition is resolved into is a tree: decisions stand in lists of actions, and have lists of
actions for their alternatives and for the default. Nothing in the tree says where it comes from. Read
together with the machine it can be told: a decision is made at the choice that its transition leads to,
and its alternatives are the transitions with a guard out of that choice, its default is the first one
without.

* `Action.Inside` says what stands inside a list of actions, at any depth, with the predicates on the way.
* `Scope.Leads` says of which transition a list is, and which choices are on the way to it.
* `Scope.decidedAt_of_choose` is the step: a decision of a resolved transition has the resolved
  transitions out of its choice for its alternatives, each under its own predicate.
* `Scope.descend_of_leads` runs the step down the tree, and `Scope.exists_leads_of_inside` says that
  nothing in the tree is left without an origin.
-/

namespace HomeAutomaton

/-- The list stands inside the actions, as an alternative or the default of a decision, at any depth. On
the way to it are these predicates; a default has none. -/
inductive Action.Inside : List Action → List (Option String) → List Action → Prop where
  | here (actions : List Action) : Inside actions [] actions
  | option {actions arm inner : List Action} {options : List (String × List Action)}
      {default? : Option (List Action)} {predicate : String} {predicates : List (Option String)} :
      .choose options default? ∈ actions → (predicate, arm) ∈ options →
      Inside arm predicates inner → Inside actions (some predicate :: predicates) inner
  | default {actions arm inner : List Action} {options : List (String × List Action)}
      {predicates : List (Option String)} :
      .choose options (some arm) ∈ actions → Inside arm predicates inner →
      Inside actions (none :: predicates) inner

/-- The way into one alternative of a decision. -/
structure Turn where
  /-- The choice that the decision is made at. -/
  choice : Node
  /-- The predicate of the alternative; the default has none. -/
  predicate? : Option String

/-- From the actions of one transition, these turns lead to the actions of another. The `i`th alternative
of a decision is that of the `i`th transition with a guard out of its choice. -/
inductive Scope.Leads (scope : Scope) :
    Transition → List Action → List Turn → Transition → List Action → Prop where
  | here (t : Transition) (actions : List Action) : Leads scope t actions [] t actions
  | option {t b last : Transition} {actions arm inner : List Action} {choice : Node} {i : Nat}
      {options : List (String × List Action)} {default? : Option (List Action)} {predicate : String}
      {turns : List Turn} :
      scope.machine.find? t.dst = some choice → .choose options default? ∈ actions →
      (scope.guardedArms choice)[i]? = some b → options[i]? = some (predicate, arm) →
      Leads scope b arm turns last inner →
      Leads scope t actions (⟨choice, some predicate⟩ :: turns) last inner
  | default {t b last : Transition} {actions arm inner : List Action} {choice : Node}
      {options : List (String × List Action)} {turns : List Turn} :
      scope.machine.find? t.dst = some choice → .choose options (some arm) ∈ actions →
      scope.defaultArm? choice = some b → Leads scope b arm turns last inner →
      Leads scope t actions (⟨choice, none⟩ :: turns) last inner

/-- There is no decision among the actions of a fragment. -/
theorem Action.choose_not_mem_given {options : List (String × List Action)}
    {default? : Option (List Action)} (ds : List Data) :
    Action.choose options default? ∉ ds.map Action.given := by
  intro hmem
  obtain ⟨d, -, hd⟩ := List.mem_map.mp hmem
  cases hd

/-- Nothing stands inside the actions of a fragment but they themselves. -/
theorem Action.Inside.of_given {ds : List Data} {predicates : List (Option String)}
    {inner : List Action} (h : Inside (ds.map .given) predicates inner) :
    predicates = [] ∧ inner = ds.map .given := by
  generalize hactions : ds.map Action.given = actions at h
  cases h with
  | here => exact ⟨rfl, rfl⟩
  | option hmem => exact absurd (hactions ▸ hmem) (choose_not_mem_given ds)
  | default hmem => exact absurd (hactions ▸ hmem) (choose_not_mem_given ds)

/-- From the actions of a fragment no turn leads on. -/
theorem Scope.Leads.of_given {scope : Scope} {t last : Transition} {ds : List Data}
    {turns : List Turn} {inner : List Action} (h : scope.Leads t (ds.map .given) turns last inner) :
    turns = [] ∧ last = t ∧ inner = ds.map .given := by
  generalize hactions : ds.map Action.given = actions at h
  cases h with
  | here => exact ⟨rfl, rfl, rfl⟩
  | option _ hmem => exact absurd (hactions ▸ hmem) (Action.choose_not_mem_given ds)
  | default _ hmem => exact absurd (hactions ▸ hmem) (Action.choose_not_mem_given ds)

namespace Scope

variable {scope : Scope}

/-! ### One decision -/

/-- The decision is made at a choice that can be entered, and its alternatives and its default are what
the transitions out of it are resolved into. -/
structure DecidedAt (scope : Scope) (visited : List Data) (choice : Node)
    (options : List (String × List Action)) (default? : Option (List Action)) : Prop where
  node : choice ∈ scope.machine.nodes
  kind : choice.kind = .choice
  new : ¬ visited.any (fun path => path.same choice.path) = true
  alternatives : List.Forall₂
    (fun b o => o.1 = predicateOf b ∧ (scope.descend (choice.path :: visited) b).result = .ok o.2)
    (scope.guardedArms choice) options
  default : List.Forall₂ (fun b arm => (scope.descend (choice.path :: visited) b).result = .ok arm)
    (scope.defaultArm? choice).toList default?.toList

namespace DecidedAt

variable {visited : List Data} {choice : Node} {options : List (String × List Action)}
  {default? : Option (List Action)}

/-- After the choice is entered there is one choice less to enter. -/
theorem unvisited_lt (h : scope.DecidedAt visited choice options default?) :
    (scope.unvisited (choice.path :: visited)).length < (scope.unvisited visited).length :=
  scope.unvisited_length_lt h.node h.kind h.new

/-- An alternative is what its transition is resolved into, under the predicate of its guard. -/
theorem option (h : scope.DecidedAt visited choice options default?) {i : Nat} {b : Transition}
    {predicate : String} {arm : List Action} (hb : (scope.guardedArms choice)[i]? = some b)
    (harm : options[i]? = some (predicate, arm)) :
    predicate = predicateOf b ∧ (scope.descend (choice.path :: visited) b).result = .ok arm := by
  obtain ⟨hi, hb⟩ := List.getElem?_eq_some_iff.mp hb
  obtain ⟨hi', harm⟩ := List.getElem?_eq_some_iff.mp harm
  have hpair := h.alternatives.get hi hi'
  rw [List.get_eq_getElem, List.get_eq_getElem, hb, harm] at hpair
  exact hpair

/-- The default is what the first transition without a guard is resolved into. -/
theorem of_default {arm : List Action} (h : scope.DecidedAt visited choice options (some arm))
    {b : Transition} (hb : scope.defaultArm? choice = some b) :
    (scope.descend (choice.path :: visited) b).result = .ok arm := by
  have hdefault := h.default
  rw [hb] at hdefault
  exact (List.forall₂_cons.mp hdefault).1

end DecidedAt

/-- What is computed for each item stands at its place. -/
theorem forall₂_of_mapM {α β : Type} {f : α → Logged β} {as : List α} {bs : List β}
    (h : (as.mapM f).result = .ok bs) : List.Forall₂ (fun a b => (f a).result = .ok b) as bs := by
  induction as generalizing bs with
  | nil =>
    obtain rfl := Except.ok.inj h
    exact .nil
  | cons a as ih =>
    rw [List.mapM_cons] at h
    obtain ⟨b, hb, h⟩ := Logged.bind_eq_ok.mp h
    obtain ⟨rest, hrest, h⟩ := Logged.bind_eq_ok.mp h
    obtain rfl := Except.ok.inj h
    exact .cons hb (ih hrest)

/-- A decision among the actions of a resolved transition is made at the choice that the transition
leads to. What stands before the actions is given by fragments, and holds no decision. -/
theorem decidedAt_of_choose (before : List Data) {visited : List Data} {t : Transition}
    {resolved : List Action} {options : List (String × List Action)} {default? : Option (List Action)}
    (h : (scope.descend visited t).result = .ok resolved)
    (hmem : .choose options default? ∈ before.map .given ++ resolved) :
    ∃ choice, scope.machine.find? t.dst = some choice ∧
      scope.DecidedAt visited choice options default? := by
  obtain ⟨own, there, -, hthere, rfl⟩ := scope.descend_eq_ok h
  rw [List.mem_append, List.mem_append] at hmem
  -- the decision is neither among what comes before nor an action of the transition itself
  replace hmem := (hmem.resolve_left (Action.choose_not_mem_given before)).resolve_left
    (Action.choose_not_mem_given own)
  -- only at a choice there is a decision
  cases arrives_of_arrival hthere with
  | nowhere => cases hmem
  | notEnterable => cases hmem
  | visited => cases hmem
  | @state target stateId hfind hkind hid =>
    rcases List.mem_cons.mp hmem with heq | hmem
    · cases heq
    · exact absurd hmem (Action.choose_not_mem_given _)
  | @choice target options' default?' hnode hkind hnew hoptions hdefault =>
    obtain ⟨rfl, rfl⟩ := Action.choose.inj (List.mem_singleton.mp hmem)
    refine ⟨target, (Machine.node?_eq_ok hnode).2, Machine.mem_of_node? hnode, hkind, hnew, ?_, ?_⟩
    · refine (forall₂_of_mapM hoptions).imp fun b o ho => ?_
      obtain ⟨actions, hactions, ho⟩ := Logged.bind_eq_ok.mp ho
      obtain rfl := Except.ok.inj ho
      exact ⟨rfl, hactions⟩
    · rw [defaultArm?]
      cases hfirst : (scope.machine.outgoing target.path (some [.external])).find? fun b =>
          (b.attr? "Guard").isNone with
      | none =>
        rw [hfirst] at hdefault
        obtain rfl := Except.ok.inj hdefault
        exact .nil
      | some b =>
        rw [hfirst, Option.mapM_some, map_eq_pure_bind] at hdefault
        obtain ⟨arm, harm, hdefault⟩ := Logged.bind_eq_ok.mp hdefault
        obtain rfl := Except.ok.inj hdefault
        exact .cons harm .nil

/-! ### The whole tree -/

/-- The paths of the choices on the way, the last one first, after those visited before. -/
def visitedAfter (visited : List Data) (turns : List Turn) : List Data :=
  (turns.map (·.choice.path)).reverse ++ visited

/-- The first choice, and those after it. -/
theorem visitedAfter_cons (visited : List Data) (turn : Turn) (turns : List Turn) :
    visitedAfter visited (turn :: turns) = visitedAfter (turn.choice.path :: visited) turns := by
  simp [visitedAfter]

/-- What stands before the actions of the first transition stands before those of no other. -/
def beforeAfter (before : List Data) : List Turn → List Data
  | [] => before
  | _ :: _ => []

theorem beforeAfter_nil (turns : List Turn) : beforeAfter [] turns = [] := by
  cases turns <;> rfl

/-- **Every list in the tree is a resolved transition.** Where turns lead from a resolved transition to
another one, the list there is what that transition is resolved into, with the choices on the way
visited. Only the list of the first transition has more actions before it. -/
theorem descend_of_leads (before : List Data) {visited : List Data} {t last : Transition}
    {resolved inner : List Action} {turns : List Turn}
    (h : (scope.descend visited t).result = .ok resolved)
    (hleads : scope.Leads t (before.map .given ++ resolved) turns last inner) :
    ∃ resolved' : List Action, inner = (beforeAfter before turns).map .given ++ resolved' ∧
      (scope.descend (visitedAfter visited turns) last).result = .ok resolved' := by
  generalize hactions : before.map .given ++ resolved = actions at hleads
  -- down the tree; before the actions of a transition further down nothing stands
  induction hleads generalizing visited before resolved with
  | here t actions => exact ⟨resolved, hactions.symm, h⟩
  | option hfind hmem hb harm _ ih =>
    obtain ⟨choice, hfind', hdecided⟩ := decidedAt_of_choose before h (hactions ▸ hmem)
    obtain rfl := Option.some.inj (hfind.symm.trans hfind')
    obtain ⟨resolved', rfl, hresolved⟩ := ih [] (hdecided.option hb harm).2 rfl
    rw [visitedAfter_cons, beforeAfter_nil]
    exact ⟨resolved', rfl, hresolved⟩
  | default hfind hmem hb _ ih =>
    obtain ⟨choice, hfind', hdecided⟩ := decidedAt_of_choose before h (hactions ▸ hmem)
    obtain rfl := Option.some.inj (hfind.symm.trans hfind')
    obtain ⟨resolved', rfl, hresolved⟩ := ih [] (hdecided.of_default hb) rfl
    rw [visitedAfter_cons, beforeAfter_nil]
    exact ⟨resolved', rfl, hresolved⟩

/-- Where turns lead from a resolved transition to another one, the list there ends with what that
transition is resolved into. -/
theorem leads_of_descend (before : List Data) {visited : List Data} {t last : Transition}
    {resolved inner : List Action} {turns : List Turn}
    (h : (scope.descend visited t).result = .ok resolved)
    (hleads : scope.Leads t (before.map .given ++ resolved) turns last inner) :
    ∃ (before' : List Data) (resolved' : List Action), inner = before'.map .given ++ resolved' ∧
      (scope.descend (visitedAfter visited turns) last).result = .ok resolved' := by
  obtain ⟨resolved', hinner, hresolved⟩ := descend_of_leads before h hleads
  exact ⟨_, resolved', hinner, hresolved⟩

/-- **Nothing in the tree is without an origin.** Every list inside the actions of a resolved transition
is reached by turns with the same predicates. -/
theorem exists_leads_of_inside (before : List Data) {visited : List Data} {t : Transition}
    {resolved inner : List Action} {predicates : List (Option String)}
    (h : (scope.descend visited t).result = .ok resolved)
    (hinside : Action.Inside (before.map .given ++ resolved) predicates inner) :
    ∃ turns last, scope.Leads t (before.map .given ++ resolved) turns last inner ∧
      turns.map (·.predicate?) = predicates := by
  generalize hactions : before.map .given ++ resolved = actions at hinside
  -- down the lists; each of them is that of a transition out of the choice
  induction hinside generalizing visited t before resolved with
  | here actions =>
    subst hactions
    exact ⟨[], t, .here _ _, rfl⟩
  | option hmem harm _ ih =>
    obtain ⟨choice, hfind, hdecided⟩ := decidedAt_of_choose before h (hactions ▸ hmem)
    -- the alternative stands at the same place as its transition
    obtain ⟨i, hi⟩ := List.mem_iff_getElem?.mp harm
    obtain ⟨hlt, -⟩ := List.getElem?_eq_some_iff.mp hi
    rw [← hdecided.alternatives.length_eq] at hlt
    have hb := List.getElem?_eq_getElem hlt
    obtain ⟨turns, last, hleads, rfl⟩ := ih [] (hdecided.option hb hi).2 rfl
    subst hactions
    exact ⟨⟨choice, some _⟩ :: turns, last, .option hfind hmem hb hi hleads, rfl⟩
  | @default _ arm _ _ _ hmem _ ih =>
    obtain ⟨choice, hfind, hdecided⟩ := decidedAt_of_choose before h (hactions ▸ hmem)
    cases hb : scope.defaultArm? choice with
    | none =>
      have hdefault := hdecided.default
      rw [hb] at hdefault
      cases hdefault
    | some b =>
      obtain ⟨turns, last, hleads, rfl⟩ := ih [] (hdecided.of_default hb) rfl
      subst hactions
      exact ⟨⟨choice, none⟩ :: turns, last, .default hfind hmem hb hleads, rfl⟩

end Scope

end HomeAutomaton
