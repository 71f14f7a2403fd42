import HomeAutomaton.Proofs.Closure
import HomeAutomaton.Proofs.EventLiterals
import HomeAutomaton.Rule.Run
import HomeAutomaton.Rule.Walk
import Mathlib.Data.List.Find

/-!
# Compiling preserves behaviour

Whatever the state, the event and the predicates that are true, running the document of a machine gives
what walking the machine gives (`Model.compile_run`). The two have little in common on the way: the
document finds its rule by comparing texts, with the identifier of the state in one condition and a
literal of the event in the other, and evaluates decisions that were built for every branch; the walk
knows nodes and follows a single branch.

* `Situation.appliesTo_eq` reads the conditions of a rule back: the state and the event are those of the
  rule. What makes this work is that literals can be read back (`unquoteEvent?_quoteEvent`).
* `Scope.outcome_of_descend` is the simulation: what a resolved transition comes to is what the walk
  gives, by induction on the choices that are left to enter.
* `Scope.rule?_of_reacts` and `Scope.rule?_of_not_reacts` say which transitions have a rule.
* Rules of other states never apply, since no two states have one identifier.
-/

namespace HomeAutomaton

/-! ### Conditions -/

/-- A literal is read back as the event name it was written for. -/
theorem unquoteEvent?_quoteEvent (event : String) :
    unquoteEvent? (quoteEvent event).toList = some (event.toList, []) := by
  rw [quoteEvent, String.toList_ofList]
  exact (spells_flatMap_escapeEventChar event.toList).literalRest?_eq []

/-- The expression of a template is found between its braces. -/
theorem templateExpression?_templateText (expression : String) :
    templateExpression? (templateText expression) = some expression := by
  have hchars : (templateText expression).toList
      = '\x7b' :: '\x7b' :: ' ' :: (expression.toList ++ [' ', '\x7d', '\x7d']) := by
    simp [templateText]
  simp [templateExpression?, hchars]

theorem conditionExpression?_templateCondition (expression : String) :
    conditionExpression? (templateCondition expression) = some expression := by
  have hkind : (templateCondition expression).textOf? "condition" = some "template" := rfl
  have htemplate : (templateCondition expression).textOf? "value_template"
      = some (templateText expression) := rfl
  rw [conditionExpression?, if_pos hkind, htemplate]
  exact templateExpression?_templateText expression

/-- The event that an expression compares with is read out of its literal. -/
theorem comparedEvent?_eventExpression (event : String) :
    comparedEvent? (eventExpression event) = some event := by
  have hchars : (eventExpression event).toList = eventComparison ++ (quoteEvent event).toList :=
    String.toList_append
  rw [comparedEvent?, hchars]
  -- what the expression starts with does not matter, as long as it is dropped again
  generalize eventComparison = start
  have hstart : start.isPrefixOf (start ++ (quoteEvent event).toList) = true :=
    List.isPrefixOf_iff_prefix.mpr (List.prefix_append _ _)
  rw [if_pos hstart, List.drop_left, unquoteEvent?_quoteEvent]
  exact congrArg some String.ofList_toList

/-- A rule applies in its state, to its event. -/
theorem Situation.appliesTo_eq (s : Situation) (machineId : String) (r : Rule) :
    s.appliesTo machineId r = (r.state == s.current && r.event == s.event) := by
  have hconditions : (r.data machineId).conditions
      = [stateCondition machineId r.state, eventCondition r.event] := rfl
  have hstate : s.meets machineId (stateCondition machineId r.state) = (r.state == s.current) := by
    have hkind : (stateCondition machineId r.state).textOf? "condition" = some "state" := rfl
    have hentity : (stateCondition machineId r.state).textOf? "entity_id"
        = some (entityId machineId) := rfl
    have hoption : (stateCondition machineId r.state).textOf? "state" = some r.state := rfl
    rw [meets, if_pos hkind, hentity, hoption]
    simp
  have hevent : s.meets machineId (eventCondition r.event) = (r.event == s.event) := by
    -- a condition about the event is never taken for one about the state
    have hkind : ¬ (eventCondition r.event).textOf? "condition" = some "state" := by
      have htemplate : (eventCondition r.event).textOf? "condition" = some "template" := rfl
      rw [htemplate]
      decide
    rw [meets, if_neg hkind, eventCondition, conditionExpression?_templateCondition,
      Option.bind_some, comparedEvent?_eventExpression]
    simp
  rw [appliesTo, hconditions]
  simp [hstate, hevent]

/-- A guard holds in its template exactly if it is true. -/
theorem predicateHolds_eq (truth : String → Bool) (predicate : String) :
    predicateHolds truth predicate = truth predicate := by
  rw [predicateHolds, conditionExpression?_templateCondition]
  rfl

/-! ### Actions -/

namespace Action

variable {machineId : String} {truth : String → Bool}

/-- Lists of actions are run one behind the other. -/
theorem listOutcome_append (actions more : List Action) :
    listOutcome machineId truth (actions ++ more)
      = listOutcome machineId truth actions ++ listOutcome machineId truth more := by
  induction actions with
  | nil => rfl
  | cons a actions ih =>
    rw [List.cons_append, listOutcome, listOutcome, ih, List.append_assoc]

/-- What is given by a fragment is done as it is. -/
theorem listOutcome_given (ds : List Data) :
    listOutcome machineId truth (ds.map .given) = ds := by
  induction ds with
  | nil => rfl
  | cons d ds ih =>
    rw [List.map_cons, listOutcome, outcome, ih]
    rfl

end Action

namespace Fragment

variable {place : Place} {text : Option String} {ds : List Data}

/-- Reading a fragment for its list gives the actions in it. -/
theorem eq_listedActions (h : (listed place text).result = .ok ds) : ds = listedActions text := by
  obtain ⟨actions, hread, hds⟩ := Logged.bind_eq_ok.mp h
  rw [read_result] at hread
  obtain rfl := Except.ok.inj hds
  rw [listedActions, actionsOf, hread]

/-- Reading it for the actions themselves does as well. -/
theorem eq_apartActions (h : (apart place text).result = .ok ds) : ds = apartActions text := by
  obtain ⟨actions, hread, hds⟩ := Logged.bind_eq_ok.mp h
  rw [read_result] at hread
  obtain rfl := Except.ok.inj hds
  rw [apartActions, actionsOf, hread]

end Fragment

namespace Scope

variable {scope : Scope} {machineId : String} {truth : String → Bool}

/-! ### Decisions -/

/-- Of the alternatives that transitions with guards stand for, the one is run whose transition comes
first among those with a true guard. -/
theorem optionsOutcome_of_mapM {f : Transition → Logged (List Action)} {w : Transition → List Data}
    {guarded : List Transition} {options : List (String × List Action)}
    (hf : ∀ b ∈ guarded, ∀ actions, (f b).result = .ok actions →
      Action.listOutcome machineId truth actions = w b)
    (h : (guarded.mapM fun b => do
      let actions ← f b
      pure (guardPredicate ((b.attr? "Guard").getD ""), actions)).result = .ok options) :
    Action.optionsOutcome machineId truth options
      = (guarded.find? fun b => truth (guardPredicate ((b.attr? "Guard").getD ""))).map w := by
  induction guarded generalizing options with
  | nil =>
    obtain rfl := Except.ok.inj h
    rfl
  | cons b guarded ih =>
    rw [List.mapM_cons] at h
    obtain ⟨o, ho, h⟩ := Logged.bind_eq_ok.mp h
    obtain ⟨actions, hactions, ho⟩ := Logged.bind_eq_ok.mp ho
    obtain rfl := Except.ok.inj ho
    obtain ⟨rest, hrest, h⟩ := Logged.bind_eq_ok.mp h
    obtain rfl := Except.ok.inj h
    rw [Action.optionsOutcome, predicateHolds_eq, List.find?_cons]
    cases htrue : truth (guardPredicate ((b.attr? "Guard").getD "")) with
    -- the guard of the first transition is true: it is the one found
    | true =>
      rw [if_pos rfl, hf b List.mem_cons_self actions hactions]
      rfl
    -- it is not, and the others decide
    | false => exact ih (fun b hb => hf b (List.mem_cons_of_mem _ hb)) hrest

/-- The transition with a true guard is found among those with a guard. -/
theorem find?_guardHolds (outgoing : List Transition) :
    outgoing.find? (guardHolds truth)
      = (outgoing.filter fun b => (b.attr? "Guard").isSome).find? fun b =>
          truth (guardPredicate ((b.attr? "Guard").getD "")) := by
  rw [List.find?_filter]
  refine congrArg (List.find? · outgoing) (funext fun b : Transition => ?_)
  rw [guardHolds]
  cases b.attr? "Guard" <;> simp

/-- A decision between the transitions out of a choice comes to what the transition taken comes to. -/
theorem outcome_choose {f : Transition → Logged (List Action)} {w : Transition → List Data}
    {outgoing : List Transition} {options : List (String × List Action)}
    {default? : Option (List Action)}
    (hf : ∀ b ∈ outgoing, ∀ actions, (f b).result = .ok actions →
      Action.listOutcome machineId truth actions = w b)
    (hoptions : ((outgoing.filter fun b : Transition => (b.attr? "Guard").isSome).mapM fun b => do
      let actions ← f b
      pure (guardPredicate ((b.attr? "Guard").getD ""), actions)).result = .ok options)
    (hdefault : ((outgoing.find? fun b : Transition => (b.attr? "Guard").isNone).mapM f).result
      = .ok default?) :
    Action.outcome machineId truth (.choose options default?)
      = match takenArm? truth outgoing with
        | none => []
        | some b => w b := by
  -- options first, the default only where none of them is run, which is what `takenArm?` does
  have hguarded := optionsOutcome_of_mapM (fun b hb => hf b (List.mem_of_mem_filter hb)) hoptions
  rw [Action.outcome, hguarded, takenArm?, find?_guardHolds]
  cases (outgoing.filter fun b => (b.attr? "Guard").isSome).find? fun b : Transition =>
      truth (guardPredicate ((b.attr? "Guard").getD "")) with
  | some b => rfl
  | none =>
    cases hfirst : outgoing.find? fun b => (b.attr? "Guard").isNone with
    | none =>
      rw [hfirst] at hdefault
      obtain rfl := Except.ok.inj hdefault
      rfl
    | some b =>
      rw [hfirst, Option.mapM_some, map_eq_pure_bind] at hdefault
      obtain ⟨actions, hactions, hdefault⟩ := Logged.bind_eq_ok.mp hdefault
      obtain rfl := Except.ok.inj hdefault
      exact hf b (List.mem_of_find?_eq_some hfirst) actions hactions

/-! ### Transitions -/

/-- An identifier that is looked up is in the table. -/
theorem get?_of_identifierAt {identifiers : Table String} {path : Data} {stateId : String}
    (h : identifierAt identifiers path = .ok stateId) : identifiers.get? path = some stateId := by
  rw [identifierAt] at h
  split at h
  next identifier hget => rw [hget, Except.ok.inj h]
  next => cases h

/-- What is found where a transition leads, and the actions there. -/
inductive Arrives (scope : Scope) (visited : List Data) (t : Transition) : List Action → Prop where
  | nowhere (hfind : scope.machine.find? t.dst = none) : Arrives scope visited t []
  | notEnterable {target : Node} (hfind : scope.machine.find? t.dst = some target)
      (hkind : target.kind = .stateMachine ∨ target.kind = .initial) : Arrives scope visited t []
  | state {target : Node} {stateId : String} (hfind : scope.machine.find? t.dst = some target)
      (hkind : target.kind = .state ∨ target.kind = .endState)
      (hid : scope.identifiers.get? target.path = some stateId) :
      Arrives scope visited t
        (.setState stateId :: (Fragment.apartActions (target.attr? "Entry")).map .given)
  | visited {target : Node} (hfind : scope.machine.find? t.dst = some target)
      (hkind : target.kind = .choice)
      (hold : visited.any (fun path => path.same target.path) = true) : Arrives scope visited t []
  | choice {target : Node} {options : List (String × List Action)}
      {default? : Option (List Action)} (hfind : scope.machine.node? t.dst = .ok (some target))
      (hkind : target.kind = .choice)
      (hnew : ¬ visited.any (fun path => path.same target.path) = true)
      (hoptions : (((scope.machine.outgoing target.path (some [.external])).filter fun b : Transition =>
        (b.attr? "Guard").isSome).mapM fun b => do
          let actions ← scope.descend (target.path :: visited) b
          pure (guardPredicate ((b.attr? "Guard").getD ""), actions)).result = .ok options)
      (hdefault : (((scope.machine.outgoing target.path (some [.external])).find? fun b : Transition =>
        (b.attr? "Guard").isNone).mapM (scope.descend (target.path :: visited))).result
          = .ok default?) :
      Arrives scope visited t [.choose options default?]

/-- Resolving a destination has arrived somewhere. -/
theorem arrives_of_arrival {visited : List Data} {t : Transition} {there : List Action}
    (h : (scope.arrival visited t).result = .ok there) : Arrives scope visited t there := by
  rw [arrival] at h
  obtain ⟨found, hnode, h⟩ := Logged.bind_eq_ok.mp h
  have hfind := (Machine.node?_eq_ok hnode).2
  cases found with
  | none =>
    -- without a destination nothing is done
    obtain rfl := Except.ok.inj h
    exact .nowhere hfind
  | some target =>
    -- the two kinds of states are entered alike
    have hstate : (do
        let stateId ← (identifierAt scope.identifiers target.path : Except Fault String)
        let entry ← Fragment.apart (.entryOf target.path) (target.attr? "Entry")
        pure (.setState stateId :: entry.map .given) : Logged (List Action)).result = .ok there →
        (target.kind = .state ∨ target.kind = .endState) → Arrives scope visited t there := by
      intro h hkind
      obtain ⟨stateId, hid, h⟩ := Logged.bind_eq_ok.mp h
      obtain ⟨entry, hentry, h⟩ := Logged.bind_eq_ok.mp h
      obtain rfl := Except.ok.inj h
      rw [Fragment.eq_apartActions hentry]
      exact .state hfind hkind (get?_of_identifierAt hid)
    -- by what stands at the destination
    cases hkind : target.kind with
    | state =>
      simp only [hkind] at h
      exact hstate h (.inl hkind)
    | endState =>
      simp only [hkind] at h
      exact hstate h (.inr hkind)
    | choice =>
      simp only [hkind] at h
      split at h
      next hold =>
        obtain rfl := Except.ok.inj h
        exact .visited hfind hkind hold
      next hnew =>
        -- the first default is named, and reports are made
        obtain ⟨_, -, h⟩ := Logged.bind_eq_ok.mp h
        obtain ⟨_, -, h⟩ := Logged.bind_eq_ok.mp h
        obtain ⟨options, hoptions, h⟩ := Logged.bind_eq_ok.mp h
        obtain ⟨default?, hdefault, h⟩ := Logged.bind_eq_ok.mp h
        obtain rfl := Except.ok.inj h
        exact .choice hnode hkind hnew hoptions hdefault
    | stateMachine =>
      simp only [hkind] at h
      obtain rfl := Except.ok.inj h
      exact .notEnterable hfind (.inl hkind)
    | initial =>
      simp only [hkind] at h
      obtain rfl := Except.ok.inj h
      exact .notEnterable hfind (.inr hkind)

/-- What is done at the destination comes to what the walk does there, if it does where a choice not
visited yet leads. -/
theorem outcome_of_arrives {visited : List Data} {t : Transition} {there : List Action}
    (ih : ∀ target, scope.machine.node? t.dst = .ok (some target) → target.kind = .choice →
      ¬ visited.any (fun path => path.same target.path) = true →
      ∀ b actions, (scope.descend (target.path :: visited) b).result = .ok actions →
        Action.listOutcome machineId truth actions
          = scope.walk machineId truth (target.path :: visited) b)
    (h : Arrives scope visited t there) :
    Action.listOutcome machineId truth there = scope.walkOn machineId truth visited t := by
  rw [walkOn]
  -- nothing is done, a state is entered, or a choice decides between the ways on
  cases h with
  | nowhere hfind => rw [hfind]; rfl
  | notEnterable hfind hkind =>
    rw [hfind]
    rcases hkind with hkind | hkind <;> simp only [hkind] <;> rfl
  | state hfind hkind hid =>
    rw [hfind, Action.listOutcome, Action.listOutcome_given, Action.outcome]
    rcases hkind with hkind | hkind <;> simp only [hkind, enterState, hid] <;> rfl
  | visited hfind hkind hold =>
    rw [hfind]
    simp only [hkind, hold]
    rfl
  | @choice target options default? hnode hkind hnew hoptions hdefault =>
    rw [(Machine.node?_eq_ok hnode).2, Action.listOutcome, Action.listOutcome, List.append_nil]
    simp only [hkind, if_neg hnew]
    exact outcome_choose (fun b _ actions hactions => ih target hnode hkind hnew b actions hactions)
      hoptions hdefault

/-- Nothing is done at the destination exactly if it is none that can be entered. -/
theorem isEmpty_of_arrives {t : Transition} {there : List Action} (h : Arrives scope [] t there) :
    there.isEmpty = !scope.leadsSomewhere t := by
  rw [leadsSomewhere]
  cases h with
  | nowhere hfind => rw [hfind]; rfl
  | notEnterable hfind hkind =>
    rw [hfind]
    rcases hkind with hkind | hkind <;> simp only [hkind] <;> rfl
  | state hfind hkind hid =>
    rw [hfind]
    rcases hkind with hkind | hkind <;> simp only [hkind] <;> rfl
  -- no choice is visited yet
  | visited hfind hkind hold => cases hold
  | choice hnode hkind =>
    rw [(Machine.node?_eq_ok hnode).2]
    simp only [hkind]
    rfl

/-- **The simulation.** What a resolved transition comes to is what the walk gives. -/
theorem outcome_of_descend (visited : List Data) (t : Transition) (actions : List Action)
    (h : (scope.descend visited t).result = .ok actions) :
    Action.listOutcome machineId truth actions = scope.walk machineId truth visited t := by
  refine descend.induct scope (fun visited t => ∀ actions,
    (scope.descend visited t).result = .ok actions →
      Action.listOutcome machineId truth actions = scope.walk machineId truth visited t)
    (fun visited t ih actions h => ?_) visited t actions h
  obtain ⟨own, there, hown, hthere, rfl⟩ := scope.descend_eq_ok h
  rw [Action.listOutcome_append, Action.listOutcome_given, walk_eq, Fragment.eq_apartActions hown,
    outcome_of_arrives ih (arrives_of_arrival hthere)]

/-! ### Rules -/

variable (machineId truth)

/-- Lists are empty together exactly if each of them is. -/
theorem isEmpty_append {α : Type} (as bs : List α) :
    (as ++ bs).isEmpty = (as.isEmpty && bs.isEmpty) := by
  cases as <;> rfl

/-- What a transition is resolved into comes to the walk, and is empty exactly if the transition has no
actions and leads nowhere. -/
theorem outcome_of_resolve {t : Transition} {actions : List Action}
    (h : (scope.resolve t).result = .ok actions) :
    Action.listOutcome machineId truth actions = scope.walk machineId truth [] t ∧
      actions.isEmpty
        = ((Fragment.apartActions (t.attr? "Action")).isEmpty && !scope.leadsSomewhere t) := by
  rw [resolve_eq] at h
  refine ⟨outcome_of_descend [] t actions h, ?_⟩
  obtain ⟨own, there, hown, hthere, rfl⟩ := scope.descend_eq_ok h
  rw [isEmpty_append, List.isEmpty_map, Fragment.eq_apartActions hown,
    isEmpty_of_arrives (arrives_of_arrival hthere)]

/-- The actions of a transition out of a state come to its reaction, and there are none exactly if the
transition does nothing. -/
theorem outcome_of_actionsFrom {state : Node} {t : Transition} {actions : List Action}
    (h : (scope.actionsFrom state t).result = .ok (some actions)) :
    t.kind ≠ .initial ∧ actions.isEmpty = scope.isNoOp state t ∧
      Action.listOutcome machineId truth actions = scope.reaction machineId truth state t := by
  rw [actionsFrom] at h
  rw [isNoOp, reaction]
  -- leaving the state comes first for a transition to elsewhere; one that stays does its action alone
  cases hkind : t.kind with
  | external =>
    simp only [hkind] at h
    obtain ⟨leaving, hleaving, h⟩ := Logged.bind_eq_ok.mp h
    obtain ⟨resolved, hresolved, h⟩ := Logged.bind_eq_ok.mp h
    obtain rfl := Option.some.inj (Except.ok.inj h)
    obtain ⟨houtcome, hempty⟩ := outcome_of_resolve machineId truth hresolved
    refine ⟨by decide, ?_, ?_⟩
    · rw [isEmpty_append, List.isEmpty_map, Fragment.eq_listedActions hleaving, hempty,
        Bool.and_assoc]
    · rw [Action.listOutcome_append, Action.listOutcome_given, houtcome,
        Fragment.eq_listedActions hleaving]
  | internal =>
    simp only [hkind] at h
    obtain ⟨_, -, h⟩ := Logged.bind_eq_ok.mp h
    obtain ⟨ds, hds, h⟩ := Logged.bind_eq_ok.mp h
    obtain rfl := Option.some.inj (Except.ok.inj h)
    refine ⟨by decide, ?_, ?_⟩
    · rw [List.isEmpty_map, Fragment.eq_listedActions hds]
    · rw [Action.listOutcome_given, Fragment.eq_listedActions hds]
  | initial =>
    simp only [hkind] at h
    cases Except.ok.inj h

/-- Only an initial transition has no actions at all, not even an empty list. -/
theorem kind_of_actionsFrom {state : Node} {t : Transition}
    (h : (scope.actionsFrom state t).result = .ok none) : t.kind = .initial := by
  rw [actionsFrom] at h
  cases hkind : t.kind with
  | external =>
    simp only [hkind] at h
    obtain ⟨leaving, -, h⟩ := Logged.bind_eq_ok.mp h
    obtain ⟨resolved, -, h⟩ := Logged.bind_eq_ok.mp h
    cases Except.ok.inj h
  | internal =>
    simp only [hkind] at h
    obtain ⟨_, -, h⟩ := Logged.bind_eq_ok.mp h
    obtain ⟨ds, -, h⟩ := Logged.bind_eq_ok.mp h
    cases Except.ok.inj h
  | initial => rfl

/-- A transition that reacts to an event has a rule for the event, which comes to its reaction; one that
does not has none. -/
theorem rule_of_transition (event : String) {state : Node} {stateId : String} {t : Transition}
    {r? : Option Rule} (h : (scope.rule? state stateId t).result = .ok r?) :
    (scope.reacts state event t = true ∧ ∃ r, r? = some r ∧ r.event = event ∧
      Action.listOutcome machineId truth r.actions = scope.reaction machineId truth state t) ∨
    (scope.reacts state event t = false ∧ ∀ r, r? = some r → r.event ≠ event) := by
  rw [rule?] at h
  rw [reacts]
  obtain ⟨event?, hevent, h⟩ := Logged.bind_eq_ok.mp h
  rw [show t.event? = .ok event? from hevent]
  cases event? with
  | none =>
    obtain rfl := Except.ok.inj h
    exact .inr ⟨by simp, by simp⟩
  | some own =>
    obtain ⟨actions?, hactions, h⟩ := Logged.bind_eq_ok.mp h
    cases actions? with
    | none =>
      obtain rfl := Except.ok.inj h
      exact .inr ⟨by simp [kind_of_actionsFrom hactions], by simp⟩
    | some actions =>
      obtain ⟨hkind, hempty, houtcome⟩ := outcome_of_actionsFrom machineId truth hactions
      cases actions with
      -- a transition that does nothing has no rule, and is passed over by the walk too
      | nil =>
        obtain rfl := Except.ok.inj h
        exact .inr ⟨by simp [← hempty], by simp⟩
      | cons a actions =>
        obtain rfl := Except.ok.inj h
        by_cases hown : own = event
        -- the event is the one that arrived, or another
        · exact .inl ⟨by simp [hkind, hown, ← hempty], _, rfl, hown, houtcome⟩
        · refine .inr ⟨by simp [hown], ?_⟩
          rintro _ ⟨⟩
          exact hown

/-- The rule of a transition: what it is about, and that there is something to do. -/
theorem rule?_eq_some_iff {state : Node} {stateId : String} {t : Transition} {r : Rule} :
    (scope.rule? state stateId t).result = .ok (some r) ↔
      r.state = stateId ∧ t.event? = .ok (some r.event) ∧
        (scope.actionsFrom state t).result = .ok (some r.actions) ∧ r.actions ≠ [] := by
  constructor
  · intro h
    obtain ⟨event?, hevent, h⟩ := Logged.bind_eq_ok.mp h
    cases event? with
    | none => cases Except.ok.inj h
    | some event =>
      obtain ⟨actions?, hactions, h⟩ := Logged.bind_eq_ok.mp h
      -- a kind that is not triggered, or no action, and there is no rule
      rcases actions? with _ | _ | ⟨a, actions⟩
      · cases Except.ok.inj h
      · cases Except.ok.inj h
      · obtain rfl := Option.some.inj (Except.ok.inj h)
        exact ⟨rfl, hevent, hactions, List.cons_ne_nil a actions⟩
  · rintro ⟨rfl, hevent, hactions, hne⟩
    rw [rule?, hevent, Logged.liftM_ok, Logged.bind_done]
    dsimp only
    rw [Logged.bind_of_ok hactions, Logged.after_result]
    obtain ⟨stateId, event, _ | ⟨a, actions⟩⟩ := r
    · exact absurd rfl hne
    · rfl

/-- A rule is about the state that it was made for. -/
theorem state_of_rule? {state : Node} {stateId : String} {t : Transition} {r : Rule}
    (h : (scope.rule? state stateId t).result = .ok (some r)) : r.state = stateId :=
  (rule?_eq_some_iff.mp h).1

/-- The first rule for an event comes to the reaction of the first transition that reacts to it. -/
theorem find?_of_mapM_rule? {state : Node} {stateId event : String} {ts : List Transition}
    {rules : List (Option Rule)} (h : (ts.mapM (scope.rule? state stateId)).result = .ok rules) :
    ((rules.filterMap id).find? fun r => r.event == event).map
        (fun r => Action.listOutcome machineId truth r.actions)
      = (ts.find? (scope.reacts state event)).map (scope.reaction machineId truth state) := by
  induction ts generalizing rules with
  | nil =>
    obtain rfl := Except.ok.inj h
    rfl
  | cons t ts ih =>
    rw [List.mapM_cons] at h
    obtain ⟨r?, hr?, h⟩ := Logged.bind_eq_ok.mp h
    obtain ⟨rest, hrest, h⟩ := Logged.bind_eq_ok.mp h
    obtain rfl := Except.ok.inj h
    rcases rule_of_transition machineId truth event hr? with
      ⟨hreacts, r, rfl, hevent, houtcome⟩ | ⟨hreacts, hother⟩
    -- either both lists have their first one here, or both go on
    · simp [hreacts, hevent, houtcome]
    · cases r? with
      | none => simpa [hreacts] using ih hrest
      | some r => simpa [hreacts, hother r rfl] using ih hrest

/-- The rules of a state are about the state, and the first of them for an event comes to the reaction of
the first transition that reacts to it. -/
theorem find?_of_rulesOf (event : String) {state : Node} {rules : List Rule}
    (h : (scope.rulesOf state).result = .ok rules) :
    ∃ stateId, scope.identifiers.get? state.path = some stateId ∧ (∀ r ∈ rules, r.state = stateId) ∧
      (rules.find? fun r => r.event == event).map
          (fun r => Action.listOutcome machineId truth r.actions)
        = ((scope.machine.outgoing state.path).find? (scope.reacts state event)).map
            (scope.reaction machineId truth state) := by
  obtain ⟨stateId, hid, h⟩ := Logged.bind_eq_ok.mp h
  obtain ⟨rules?, hrules?, h⟩ := Logged.bind_eq_ok.mp h
  obtain rfl := Except.ok.inj h
  refine ⟨stateId, get?_of_identifierAt hid, fun r hr => ?_,
    find?_of_mapM_rule? machineId truth hrules?⟩
  -- each rule of the state was made of one transition out of it
  obtain ⟨r?, hr?, hsome⟩ := List.mem_filterMap.mp hr
  obtain rfl : r? = some r := hsome
  obtain ⟨t, -, ht⟩ := (Logged.mapM_mem hrules?).1 _ hr?
  exact state_of_rule? ht

end Scope

/-! ### Documents -/

/-- A search that gives one result or none for every item gives that result, if it does for one of
them. -/
theorem findSome?_eq {α β : Type} {f : α → Option β} {x : Option β} {as : List α}
    (hall : ∀ a ∈ as, f a = x ∨ f a = none) (hsome : ∃ a ∈ as, f a = x) : as.findSome? f = x := by
  cases x with
  | none => exact List.findSome?_eq_none_iff.mpr fun a ha => (hall a ha).elim id id
  | some b =>
    induction as with
    | nil =>
      obtain ⟨_, ha, -⟩ := hsome
      cases ha
    | cons a as ih =>
      rw [List.findSome?_cons]
      -- the first item has the result, or has none and the search goes on to the one that does
      rcases hall a List.mem_cons_self with hfound | hnone
      · rw [hfound]
      · rw [hnone]
        obtain ⟨a', ha', hx⟩ := hsome
        rcases List.mem_cons.mp ha' with rfl | ha'
        · rw [hnone] at hx
          cases hx
        · exact ih (fun a ha => hall a (List.mem_cons_of_mem _ ha)) ⟨a', ha', hx⟩

/-- Of all rules, the first one for a state and an event comes to the reaction of the first transition out
of the state that reacts to the event. -/
theorem Scope.find?_of_rules {scope : Scope} (machineId : String) (truth : String → Bool)
    (event : String) (hpaths : ∀ n ∈ scope.machine.nodes, n.path.IsText)
    (htable : scope.identifiers = identifierTable scope.machine.states) {rules : List Rule}
    (hrules : scope.rules.result = .ok rules) {state : Node} (hstate : state ∈ scope.machine.states) :
    ∃ stateId, scope.identifiers.get? state.path = some stateId ∧
      (rules.find? fun r => r.state == stateId && r.event == event).map
          (fun r => Action.listOutcome machineId truth r.actions)
        = ((scope.machine.outgoing state.path).find? (scope.reacts state event)).map
            (scope.reaction machineId truth state) := by
  obtain ⟨lists, hlists, hflatten⟩ := Logged.bind_eq_ok.mp hrules
  obtain rfl := Except.ok.inj hflatten
  obtain ⟨hfrom, hto⟩ := Logged.mapM_mem hlists
  obtain ⟨own, hown, hownRules⟩ := hto state hstate
  obtain ⟨stateId, hid, hownStates, hfirst⟩ := find?_of_rulesOf machineId truth event hownRules
  refine ⟨stateId, hid, ?_⟩
  have hstates := Machine.states_paths hpaths
  -- rules of another state have another identifier in their condition
  have hall : ∀ l ∈ lists,
      (l.find? fun r => r.state == stateId && r.event == event)
          = own.find? (fun r => r.state == stateId && r.event == event) ∨
        (l.find? fun r => r.state == stateId && r.event == event) = none := by
    intro l hl
    obtain ⟨other, hother, hotherRules⟩ := hfrom l hl
    obtain ⟨otherId, hotherId, hotherStates, -⟩ :=
      find?_of_rulesOf machineId truth event hotherRules
    -- one identifier is one path and so one state, whose rules are `own`
    by_cases hsame : otherId = stateId
    · subst hsame
      rw [htable] at hid hotherId
      have hpath := path_eq_of_get?_eq hstates (hstates other hother) (hstates state hstate)
        hotherId hid
      obtain rfl := List.inj_on_of_nodup_map (Machine.states_nodup hpaths) hother hstate hpath
      rw [hownRules] at hotherRules
      rw [Except.ok.inj hotherRules]
      exact .inl rfl
    -- another identifier in the condition: the rule does not apply
    · refine .inr (List.find?_eq_none.mpr fun r hr => ?_)
      simp [hotherStates r hr, hsame]
  -- among the rules of the state itself the condition about the state holds anyway
  have hevent : own.find? (fun r => r.state == stateId && r.event == event)
      = own.find? fun r => r.event == event :=
    List.find?_congr fun r hr => by simp [hownStates r hr]
  rw [← hfirst, ← hevent, List.find?_flatten, findSome?_eq hall ⟨own, hown, rfl⟩]

/-- **Compiling preserves behaviour.** If a model is compiled and the paths of its nodes are texts, then
in every state, with every event and whatever predicates are true, the document does what the machine
does. -/
theorem Model.compile_run {model : Model} {appearance : Appearance} {c : Compiled}
    (hc : (model.compile appearance).result = .ok c) (hpaths : ∀ n ∈ c.machine.nodes, n.path.IsText)
    {state : Node} (hstate : state ∈ c.machine.states) (event : String) (truth : String → Bool) :
    ∃ stateId, c.identifiers.get? state.path = some stateId ∧
      c.document.run { current := stateId, event, truth }
        = c.scope.respond c.document.machineId truth state event := by
  -- of all that compiling does, identifiers and rules matter here
  obtain ⟨-, hidentifiers, root, initial, rules, options, -, -, hrules, -, hdocument⟩ :=
    compile_eq_ok.mp hc
  rw [identifiersOf_eq (Machine.states_paths hpaths)] at hidentifiers
  obtain ⟨stateId, hid, hfirst⟩ := Scope.find?_of_rules c.document.machineId truth event hpaths
    (Except.ok.inj hidentifiers).symm hrules hstate
  refine ⟨stateId, hid, ?_⟩
  have hrules' : c.document.rules = rules := by rw [hdocument]
  rw [Document.run, Scope.respond, funext (Situation.appliesTo_eq _ _), hrules']
  -- the document has a rule for the event exactly if a transition reacts
  dsimp only
  cases hreacts : (c.scope.machine.outgoing state.path).find? (c.scope.reacts state event) with
  | none =>
    rw [hreacts, Option.map_none, Option.map_eq_none_iff] at hfirst
    rw [hfirst]
  | some t =>
    rw [hreacts, Option.map_some] at hfirst
    obtain ⟨r, hr, houtcome⟩ := Option.map_eq_some_iff.mp hfirst
    rw [hr]
    exact houtcome

/-- The door is compiled, and its document does two things when a locked door is pushed. -/
theorem doorModel_compile :
    (doorModel.compile.result.toOption.map fun c =>
      c.machine.nodes.all (·.path.str?.isSome) &&
        c.machine.states.any (·.path.str? == some "/open") &&
        c.identifiers.get? (.str "/open") == some "open_open" &&
        (c.document.run
          { current := "open_open", event := "push", truth := (· == "locked") }).length == 2)
      = some true := by
  decide +kernel

/-- In the state of an open door, the document rings and shuts the door if it is locked. -/
theorem Model.compile_run_door :
    ∃ c state, doorModel.compile.result = .ok c ∧ (∀ n ∈ c.machine.nodes, n.path.IsText) ∧
      state ∈ c.machine.states ∧ c.identifiers.get? state.path = some "open_open" ∧
      (c.document.run
        { current := "open_open", event := "push", truth := (· == "locked") }).length = 2 ∧
      c.document.run { current := "open_open", event := "push", truth := (· == "locked") }
        = c.scope.respond c.document.machineId (· == "locked") state "push" := by
  have hchecked := doorModel_compile
  -- what was computed says which state is open and what is done in it
  cases hc : doorModel.compile.result with
  | error e => rw [hc] at hchecked; cases hchecked
  | ok c =>
    rw [hc] at hchecked
    simp only [Except.toOption, Option.map_some, Option.some.injEq, Bool.and_eq_true,
      List.all_eq_true, List.any_eq_true, beq_iff_eq] at hchecked
    obtain ⟨⟨⟨htexts, state, hstate, hopen⟩, hid⟩, hlength⟩ := hchecked
    have hpaths : ∀ n ∈ c.machine.nodes, n.path.IsText := by
      intro n hn
      obtain ⟨s, hs⟩ := Option.isSome_iff_exists.mp (htexts n hn)
      exact ⟨s, Data.eq_str_of_str? hs⟩
    obtain ⟨stateId, hstateId, hrun⟩ :=
      compile_run hc hpaths hstate "push" (· == "locked")
    rw [← Data.eq_str_of_str? hopen] at hid
    obtain rfl := Option.some.inj (hstateId.symm.trans hid)
    exact ⟨c, state, rfl, hpaths, hstate, hid, hlength, hrun⟩

end HomeAutomaton
