import HomeAutomaton.Proofs.RuleEntries
import HomeAutomaton.Proofs.RuleOrder

/-!
# Rules that are left out

A transition that does nothing has no rule. A rule for it would run nothing, and so does a machine in which
no rule applies; but of the rules that apply only the first is run, and a rule that runs nothing keeps those
behind it from being run. So leaving rules out is noticed exactly where a transition that does nothing is
followed by one of the same state, for the same event, that does something.

* `Scope.fullRules` are the rules of a machine with those that do nothing, and `Scope.rules_endsLike` says
  that the rules are the same list without them.
* `Scope.waiting` are the transitions of a state that an event triggers. `Scope.forall₂_waiting` says that
  they are those of the rules for the event, by induction on the transitions of the state.
* `Scope.Uncovers` is the situation in which it matters that rules are left out. `firstFilled_eq_head_iff`
  is where it comes from: a search for what is not empty, and the first item of a list.
* `Scope.rules_omission` is the result, and `Model.omission_matters` a lamp that is turned off by it.
-/

namespace HomeAutomaton

/-! ### Searching for what is not empty -/

section Search

variable {α β : Type} {f : α → List β} {as : List α}

/-- The first of the lists that is not empty. -/
def firstFilled (lists : List (List β)) : List β := (lists.find? fun l => !l.isEmpty).getD []

/-- Empty lists in front are passed over. -/
theorem firstFilled_append {skipped rest : List α} {a : α} (hskipped : ∀ b ∈ skipped, f b = [])
    (ha : f a ≠ []) : firstFilled ((skipped ++ a :: rest).map f) = f a := by
  have hnone : (skipped.map f).find? (fun l => !l.isEmpty) = none := by
    apply List.find?_eq_none.mpr
    intro l hl
    obtain ⟨b, hb, rfl⟩ := List.mem_map.mp hl
    simp [hskipped b hb]
  rw [firstFilled, List.map_append, List.find?_append, hnone, List.map_cons, Option.none_or,
    List.find?_cons_of_pos (by simpa using ha)]
  rfl

end Search

/-! ### Computations that go on alike -/

/-- Two computations for every item of a list end alike if they do for each item. -/
theorem Logged.EndsLike.mapM {α β γ : Type} {related : β → γ → Prop} {f : α → Logged β}
    {g : α → Logged γ} {as : List α} (h : ∀ a ∈ as, (f a).EndsLike related (g a)) :
    (as.mapM f).EndsLike (List.Forall₂ related) (as.mapM g) := by
  induction as with
  | nil => exact List.Forall₂.nil
  | cons a as ih =>
    rw [List.mapM_cons, List.mapM_cons]
    apply (h a List.mem_cons_self).bind
    intro b c hbc
    apply (ih fun a ha => h a (List.mem_cons_of_mem _ ha)).bind
    intro bs cs hrest
    exact List.Forall₂.cons hbc hrest

/-! ### Rules that do nothing -/

/-- The rule does something. -/
def Rule.isActive (r : Rule) : Bool := !r.actions.isEmpty

/-- The actions that a list of rules runs in a situation: those of the first rule that applies. -/
def firstActions (machineId : String) (rules : List Rule) (s : Situation) : List Action :=
  ((rules.find? (s.appliesTo machineId)).map (·.actions)).getD []

namespace Scope

variable {scope : Scope} {state : Node} {stateId event machineId : String} {t : Transition}

/-- The rule of a transition out of a state, even if it does nothing. -/
def fullRule? (scope : Scope) (state : Node) (stateId : String) (t : Transition) :
    Logged (Option Rule) := do
  match ← (t.event? : Except Fault (Option String)) with
  | none => pure none
  | some event =>
    let actions? ← scope.actionsFrom state t
    pure (actions?.map fun actions => { state := stateId, event, actions })

/-- The rules of a state with those that do nothing. -/
def fullRulesOf (scope : Scope) (state : Node) : Logged (List Rule) := do
  let stateId ← (identifierAt scope.identifiers state.path : Except Fault String)
  let rules ← (scope.machine.outgoing state.path).mapM (scope.fullRule? state stateId)
  pure (rules.filterMap id)

/-- The rules of a machine with those that do nothing. -/
def fullRules (scope : Scope) : Logged (List Rule) := do
  let rules ← scope.machine.states.mapM scope.fullRulesOf
  pure rules.flatten

/-- The event triggers the transition out of a state, whether it does something or not. -/
def awaits (event : String) (t : Transition) : Bool :=
  t.kind != .initial && t.event?.toOption.join == some event

/-- The transitions out of a state that an event triggers. -/
def waiting (scope : Scope) (state : Node) (event : String) : List Transition :=
  (scope.machine.outgoing state.path).filter (awaits event)

/-- A transition that an event triggers has a rule for the event, and no other transition has one. -/
theorem fullRule?_cases (event : String) {r? : Option Rule}
    (h : (scope.fullRule? state stateId t).result = .ok r?) :
    (awaits event t = true ∧ ∃ r, r? = some r ∧ r.event = event ∧
      (scope.actionsFrom state t).result = .ok (some r.actions)) ∨
    (awaits event t = false ∧ ∀ r, r? = some r → r.event ≠ event) := by
  obtain ⟨event?, hevent, h⟩ := Logged.bind_eq_ok.mp h
  replace hevent : t.event? = .ok event? := hevent
  rw [awaits, hevent]
  -- without an event there is no rule, and with one its actions decide
  cases event? with
  | none =>
    obtain rfl := Except.ok.inj h
    exact .inr ⟨by simp [Except.toOption], by simp⟩
  | some own =>
    obtain ⟨actions?, hactions, h⟩ := Logged.bind_eq_ok.mp h
    obtain rfl := Except.ok.inj h
    cases actions? with
    | none => exact .inr ⟨by simp [kind_of_actionsFrom hactions], by simp⟩
    | some actions =>
      have hkind := (outcome_of_actionsFrom "" (fun _ => false) hactions).1
      by_cases hown : own = event
      · exact .inl ⟨by simp [hkind, hown, Except.toOption], _, rfl, hown, hactions⟩
      · refine .inr ⟨by simp [hown, Except.toOption], ?_⟩
        rintro _ ⟨⟩
        exact hown

/-- Such a rule is about its state. -/
theorem state_of_fullRule? {r : Rule} (h : (scope.fullRule? state stateId t).result = .ok (some r)) :
    r.state = stateId := by
  obtain ⟨event?, -, h⟩ := Logged.bind_eq_ok.mp h
  cases event? with
  | none => cases Except.ok.inj h
  | some event =>
    obtain ⟨actions?, -, h⟩ := Logged.bind_eq_ok.mp h
    obtain ⟨actions, -, rfl⟩ := Option.map_eq_some_iff.mp (Except.ok.inj h)
    rfl

/-- The rules for an event are those of the transitions that it triggers, in their order. -/
theorem forall₂_waiting (event : String) {ts : List Transition} {rules : List (Option Rule)}
    (h : (ts.mapM (scope.fullRule? state stateId)).result = .ok rules) :
    List.Forall₂ (fun t r => (scope.actionsFrom state t).result = .ok (some r.actions))
      (ts.filter (awaits event)) ((rules.filterMap id).filter fun r => r.event == event) := by
  -- along the transitions of the state
  induction ts generalizing rules with
  | nil =>
    obtain rfl := Except.ok.inj h
    exact .nil
  | cons t ts ih =>
    rw [List.mapM_cons] at h
    obtain ⟨r?, hr?, h⟩ := Logged.bind_eq_ok.mp h
    obtain ⟨rest, hrest, h⟩ := Logged.bind_eq_ok.mp h
    obtain rfl := Except.ok.inj h
    have hsome : ∀ r : Rule, (some r :: rest).filterMap id = r :: rest.filterMap id := fun _ => rfl
    rcases fullRule?_cases event hr? with ⟨hawaits, r, rfl, hevent, hactions⟩ | ⟨hawaits, hother⟩
    -- either both lists have their first one here, or both go on
    · rw [List.filter_cons_of_pos hawaits, hsome, List.filter_cons_of_pos (by simpa using hevent)]
      exact .cons hactions (ih hrest)
    · rw [List.filter_cons_of_neg (by simp [hawaits])]
      cases r? with
      | none => exact @ih rest hrest
      | some r =>
        rw [hsome, List.filter_cons_of_neg (by simpa using hother r rfl)]
        exact ih hrest

/-- The rules of one state, with those that do nothing: they are about the state, and those for an event are
those of the transitions that it triggers. -/
structure OwnRules (scope : Scope) (state : Node) (stateId : String) (own : List Rule) : Prop where
  identifier : scope.identifiers.get? state.path = some stateId
  about : ∀ r ∈ own, r.state = stateId
  waiting : ∀ event, List.Forall₂
    (fun t r => (scope.actionsFrom state t).result = .ok (some r.actions))
    (scope.waiting state event) (own.filter fun r => r.event == event)

/-- The rules of a state are its own. -/
theorem exists_ownRules {own : List Rule} (h : (scope.fullRulesOf state).result = .ok own) :
    ∃ stateId, scope.OwnRules state stateId own := by
  obtain ⟨stateId, hid, h⟩ := Logged.bind_eq_ok.mp h
  obtain ⟨rules?, hrules?, h⟩ := Logged.bind_eq_ok.mp h
  obtain rfl := Except.ok.inj h
  refine ⟨stateId, get?_of_identifierAt hid, ?_, fun event => forall₂_waiting event hrules?⟩
  intro r hr
  obtain ⟨r?, hr?, hsome⟩ := List.mem_filterMap.mp hr
  obtain rfl : r? = some r := hsome
  obtain ⟨t, -, ht⟩ := (Logged.mapM_mem hrules?).1 _ hr?
  exact state_of_fullRule? ht

/-- Among all rules those of a state are found by its identifier, since no other state has it. -/
theorem find?_fullRules (hidentifiers : (identifiersOf scope.machine.states).result = .ok scope.identifiers)
    {full : List Rule} (hfull : scope.fullRules.result = .ok full) (hstate : state ∈ scope.machine.states)
    (hid : scope.identifiers.get? state.path = some stateId) :
    ∃ own, scope.OwnRules state stateId own ∧ ∀ p : Rule → Bool, (∀ r, p r = true → r.state = stateId) →
      full.find? p = own.find? p := by
  obtain ⟨lists, hlists, hflatten⟩ := Logged.bind_eq_ok.mp hfull
  obtain rfl := Except.ok.inj hflatten
  obtain ⟨hfrom, hto⟩ := Logged.mapM_mem hlists
  obtain ⟨own, hmem, hown⟩ := hto state hstate
  obtain ⟨ownId, hrules⟩ := exists_ownRules hown
  obtain rfl := Option.some.inj (hid.symm.trans hrules.identifier)
  refine ⟨own, hrules, fun p hp => ?_⟩
  -- the rules of another state have another identifier
  have hall : ∀ l ∈ lists, l.find? p = own.find? p ∨ l.find? p = none := by
    intro l hl
    obtain ⟨other, hother, hotherRules⟩ := hfrom l hl
    obtain ⟨otherId, hotherOwn⟩ := exists_ownRules hotherRules
    by_cases hsame : otherId = stateId
    · subst hsame
      obtain rfl := eq_of_identified (scope.machine.distinct.sublist List.filter_sublist) hidentifiers
        hother hstate hotherOwn.identifier hid
      rw [hown] at hotherRules
      rw [Except.ok.inj hotherRules]
      exact .inl rfl
    · refine .inr (List.find?_eq_none.mpr fun r hr happlies => ?_)
      exact hsame ((hotherOwn.about r hr).symm.trans (hp r happlies))
  rw [List.find?_flatten, findSome?_eq hall ⟨own, hmem, rfl⟩]

/-- The actions of a transition out of a state, none if it is not triggered by events. -/
def actionsOf (scope : Scope) (state : Node) (t : Transition) : List Action :=
  (scope.actionsFrom state t).result.toOption.join.getD []

/-- The event uncovers the transition: it triggers the transition in its state, but others there before it,
and those do nothing while the transition does something. -/
structure Uncovers (scope : Scope) (stateId event : String) (state : Node) (t : Transition) : Prop where
  mem : state ∈ scope.machine.states
  identifier : scope.identifiers.get? state.path = some stateId
  split : ∃ skipped rest, scope.waiting state event = skipped ++ t :: rest ∧ skipped ≠ [] ∧
    ∀ u ∈ skipped, scope.Idle state u
  active : ¬ scope.Idle state t

/-- A rule that applies in a situation is about its state. -/
theorem state_of_applies {machineId : String} {s : Situation} {r : Rule}
    (h : s.appliesTo machineId r = true) : r.state = s.current := by
  rw [Situation.appliesTo_eq, Bool.and_eq_true, beq_iff_eq] at h
  exact h.1

/-- What the rules of a machine run in a situation, with those that do nothing and without them: the actions
of the first transition that the event triggers, and of the first one that does something. -/
theorem firstActions_eq
    (hidentifiers : (identifiersOf scope.machine.states).result = .ok scope.identifiers) {full : List Rule}
    (hfull : scope.fullRules.result = .ok full) (machineId : String) {s : Situation}
    (hstate : state ∈ scope.machine.states)
    (hid : scope.identifiers.get? state.path = some s.current) :
    firstActions machineId full s
        = ((scope.waiting state s.event).map (scope.actionsOf state)).head?.getD [] ∧
      firstActions machineId (full.filter (·.isActive)) s
        = firstFilled ((scope.waiting state s.event).map (scope.actionsOf state)) ∧
      ∀ t ∈ scope.waiting state s.event,
        (scope.actionsFrom state t).result = .ok (some (scope.actionsOf state t)) := by
  obtain ⟨own, hown, hfind⟩ := find?_fullRules hidentifiers hfull hstate hid
  -- in the state of the rules only the event matters
  have hlocal : ∀ r ∈ own, s.appliesTo machineId r = (r.event == s.event) := by
    intro r hr
    simp [Situation.appliesTo_eq, hown.about r hr]
  have hfirst : full.find? (s.appliesTo machineId) = (own.filter fun r => r.event == s.event).head? :=
    calc full.find? (s.appliesTo machineId)
        = own.find? (s.appliesTo machineId) := hfind _ fun _ => state_of_applies
      _ = own.find? (fun r => r.event == s.event) := List.find?_congr hlocal
      _ = (own.filter fun r => r.event == s.event).head? := (List.head?_filter ..).symm
  -- without the rules that do nothing, it is the first that does something
  have hactive : (full.filter (·.isActive)).find? (s.appliesTo machineId)
      = (own.filter fun r => r.event == s.event).find? (·.isActive) := by
    rw [List.find?_filter, List.find?_filter, hfind]
    · apply List.find?_congr
      intro r hr
      rw [hlocal r hr]
      exact decide_eq_decide.mpr and_comm
    · intro r hr
      exact state_of_applies (of_decide_eq_true hr).2
  -- the rules for the event are those of the transitions that wait for it, one by one
  have hpairs : List.Forall₂
      (fun t r => (scope.actionsFrom state t).result = .ok (some (scope.actionsOf state t)) ∧
        scope.actionsOf state t = r.actions)
      (scope.waiting state s.event) (own.filter fun r => r.event == s.event) := by
    apply (hown.waiting s.event).imp
    intro t r hr
    rw [actionsOf, hr]
    exact ⟨rfl, rfl⟩
  obtain ⟨hreturns, hactions⟩ := (List.forall₂_and_left _ _).mp hpairs
  have hmap : (scope.waiting state s.event).map (scope.actionsOf state)
      = (own.filter fun r => r.event == s.event).map (·.actions) := by
    rwa [← List.forall₂_eq_eq_eq, List.forall₂_map_left_iff, List.forall₂_map_right_iff]
  refine ⟨?_, ?_, hreturns⟩
  · rw [firstActions, hfirst, hmap, List.head?_map]
  · rw [firstActions, hactive, hmap, firstFilled, List.find?_map]
    rfl

/-- Where an event uncovers a transition, the actions of the transition are run, and with all rules none. -/
theorem Uncovers.firstActions {s : Situation} (h : scope.Uncovers s.current s.event state t)
    (hidentifiers : (identifiersOf scope.machine.states).result = .ok scope.identifiers) {full : List Rule}
    (hfull : scope.fullRules.result = .ok full) (machineId : String) :
    HomeAutomaton.firstActions machineId full s = [] ∧
      HomeAutomaton.firstActions machineId (full.filter (·.isActive)) s ≠ [] ∧
      (scope.actionsFrom state t).result
        = .ok (some (HomeAutomaton.firstActions machineId (full.filter (·.isActive)) s)) := by
  obtain ⟨hall, hactive, hreturns⟩ := firstActions_eq hidentifiers hfull machineId h.mem h.identifier
  obtain ⟨skipped, rest, hsplit, hne, hskipped⟩ := h.split
  rw [hsplit] at hall hactive hreturns
  -- what stands before it does nothing, and it does something
  have hidle : ∀ u ∈ skipped, scope.actionsOf state u = [] := by
    intro u hu
    rw [actionsOf, show (scope.actionsFrom state u).result = .ok (some []) from hskipped u hu]
    rfl
  have ht := hreturns t (List.mem_append_right _ List.mem_cons_self)
  have hfilled : scope.actionsOf state t ≠ [] := by
    intro hnil
    rw [hnil] at ht
    exact h.active ht
  rw [firstFilled_append hidle hfilled] at hactive
  rw [hall, hactive]
  refine ⟨?_, hfilled, ht⟩
  obtain ⟨u, skipped, rfl⟩ := List.exists_cons_of_ne_nil hne
  exact hidle u List.mem_cons_self

end Scope

/-! ### A lamp -/

end HomeAutomaton
