import HomeAutomaton.Proofs.ActionRecords
import HomeAutomaton.Proofs.Drawing
import HomeAutomaton.Proofs.Offers

/-!
# Rules and transitions

The rules of a machine are made state by state, and for each state in the order of the transitions. Some
transitions have none: those that do not leave a state, that have no event, that are only there to say where
the machine starts, and those that would do nothing at all. Every other one has exactly one rule
(`Scope.rules_correspond`).

* `Scope.CallsForRule` is what a transition needs to have a rule, and `Scope.RuleFor` which rule that is.
* `RuleEntry` is a rule with the positions of its state and of its transition. `Scope.entries` are the
  entries of a machine; they are read off two lists, so that their order is that of positions
  (`Scope.entries_ordered`), and `Scope.map_rule_entries` says that their rules are the rules of the machine.
* `Scope.idle_internal_iff` and `Scope.idle_external_iff` say which transitions do nothing.
-/

namespace HomeAutomaton

/-- A rule, with the position of its state among the states and that of its transition among the
transitions. -/
structure RuleEntry where
  state : ℕ
  transition : ℕ
  rule : Rule

/-- Entries are in the order of the states, and those of one state in the order of the transitions. -/
def RuleEntry.Before (e later : RuleEntry) : Prop :=
  e.state < later.state ∨ e.state = later.state ∧ e.transition < later.transition

/-! ### Computations for lists -/

/-- What is computed for every item of a list is the list of what is computed for the items. -/
theorem Logged.eq_map_of_mapM {α β : Type} {f : α → Logged β} {g : α → β} {as : List α} {bs : List β}
    (h : (as.mapM f).result = .ok bs) (hg : ∀ a b, (f a).result = .ok b → g a = b) :
    bs = as.map g := by
  have hall : List.Forall₂ (fun a b => g a = b) as bs := (Scope.forall₂_of_mapM h).imp hg
  rw [← List.forall₂_map_left_iff, List.forall₂_eq_eq_eq] at hall
  exact hall.symm

/-- The positions in a list are in their order. -/
theorem pairwise_zipIdx {α : Type} (as : List α) : as.zipIdx.Pairwise fun p q => p.2 < q.2 := by
  rw [← List.pairwise_map (f := Prod.snd) (R := (· < ·)), List.zipIdx_map_snd]
  exact List.pairwise_lt_range'

/-- A function that does not look at the positions gives what it does without them. -/
theorem filterMap_zipIdx {α β : Type} (f : α → Option β) (as : List α) :
    as.zipIdx.filterMap (fun p => f p.1) = as.filterMap f :=
  calc as.zipIdx.filterMap (fun p => f p.1)
      = (as.zipIdx.map Prod.fst).filterMap f := List.filterMap_map.symm
    _ = as.filterMap f := by rw [List.zipIdx_map_fst]

theorem flatMap_zipIdx {α β : Type} (f : α → List β) (as : List α) :
    as.zipIdx.flatMap (fun p => f p.1) = as.flatMap f :=
  calc as.zipIdx.flatMap (fun p => f p.1)
      = (as.zipIdx.map Prod.fst).flatMap f := (List.flatMap_map ..).symm
    _ = as.flatMap f := by rw [List.zipIdx_map_fst]

/-- A fragment has no actions in a list exactly if it has none on their own. -/
theorem Fragment.apartActions_eq_nil_iff (text : Option String) :
    apartActions text = [] ↔ listedActions text = [] := by
  rw [apartActions, listedActions]
  by_cases hholds : ∃ m, Holds text m
  · obtain ⟨m, hm⟩ := hholds
    rcases hm.actionsOf_eq with ⟨items, values, hdata, hvalues, hactions⟩ | ⟨entries, -, hactions⟩ |
        ⟨-, -, hactions⟩
    · obtain ⟨label, -, -, rfl⟩ := Model.root_of_list hdata hvalues
      rw [hactions, List.map_eq_nil_iff, List.map_eq_nil_iff]
    · rw [hactions]
    · rw [hactions]
  · rw [actionsOf_of_not_holds (not_exists.mp hholds)]

/-- A path that is missing or a text equals a text if it is that text. -/
theorem Data.IsTextOrNull.equal_iff {d e : Data} (hd : d.IsTextOrNull) (he : e.IsText) :
    d.equal e = true ↔ d = e := by
  have hequal : d.equal e = d.same e := by rcases hd with rfl | ⟨s, rfl⟩ <;> rfl
  rw [hequal, Data.same_iff' he]

namespace Scope

variable {scope : Scope} {state : Node} {t : Transition} {r : Rule}

/-! ### Which transitions have rules -/

/-- The transition does nothing at all: leaving the state, its own actions and those where it leads come to
no action. -/
def Idle (scope : Scope) (state : Node) (t : Transition) : Prop :=
  (scope.actionsFrom state t).result = .ok (some [])

/-- The transition calls for a rule: it leaves the state or stays in it, there is an event that triggers it,
and it does something. -/
structure CallsForRule (scope : Scope) (state : Node) (t : Transition) : Prop where
  source : scope.machine.find? t.src = some state
  isState : state.isState = true
  event : ∃ event, t.event? = .ok (some event)
  kind : t.kind = .external ∨ t.kind = .internal
  active : ¬ scope.Idle state t

/-- The rule is that of the transition out of the state: it is about the identifier of the state and the
event of the transition, and does what the transition does. -/
structure RuleFor (scope : Scope) (state : Node) (t : Transition) (r : Rule) : Prop where
  identifier : scope.identifiers.get? state.path = some r.state
  event : t.event? = .ok (some r.event)
  actions : (scope.actionsFrom state t).result = .ok (some r.actions)

/-! ### The entries of a machine -/

/-- The rule of a transition, if it leaves the state and has one. -/
def ruleAt? (scope : Scope) (state : Node) (t : Transition) : Option Rule :=
  if t.src.equal state.path then
    (scope.rule? state ((scope.identifiers.get? state.path).getD "") t).result.toOption.join
  else none

/-- The rules of a machine with their positions. -/
def entries (scope : Scope) : List RuleEntry :=
  scope.machine.states.zipIdx.flatMap fun s =>
    scope.machine.transitions.zipIdx.filterMap fun t =>
      (scope.ruleAt? s.1 t.1).map fun r => { state := s.2, transition := t.2, rule := r }

/-- The rules of a state are those of the transitions that leave it. -/
theorem rulesOf_eq {own : List Rule} (h : (scope.rulesOf state).result = .ok own) :
    scope.machine.transitions.filterMap (scope.ruleAt? state) = own := by
  obtain ⟨stateId, hid, h⟩ := Logged.bind_eq_ok.mp h
  obtain ⟨rules?, hrules?, h⟩ := Logged.bind_eq_ok.mp h
  obtain rfl := Except.ok.inj h
  have hget : (scope.identifiers.get? state.path).getD "" = stateId := by
    rw [get?_of_identifierAt hid]
    rfl
  -- every transition out of the state has a result, so that nothing is lost without the faults
  have hmap : rules? = (scope.machine.outgoing state.path).map fun t =>
      (scope.rule? state stateId t).result.toOption.join := by
    apply Logged.eq_map_of_mapM hrules?
    intro t r? hr?
    rw [hr?]
    rfl
  rw [hmap, List.filterMap_map, Machine.outgoing, List.filterMap_filter]
  simp only [Bool.and_true, Function.comp_apply, id, ← hget]
  rfl

/-- Without their positions, the entries of a machine are its rules. -/
theorem map_rule_entries {rules : List Rule} (h : scope.rules.result = .ok rules) :
    scope.entries.map (·.rule) = rules := by
  obtain ⟨lists, hlists, h⟩ := Logged.bind_eq_ok.mp h
  obtain rfl := Except.ok.inj h
  -- the same for one state
  have hstate : ∀ (s : Node) (k : ℕ), (scope.machine.transitions.zipIdx.filterMap fun t =>
      (scope.ruleAt? s t.1).map fun r => { state := k, transition := t.2, rule := r }).map
        RuleEntry.rule = scope.machine.transitions.filterMap (scope.ruleAt? s) := by
    intro s k
    simp only [List.map_filterMap, Option.map_map, Function.comp_def, Option.map_id']
    exact filterMap_zipIdx _ _
  rw [Logged.eq_map_of_mapM hlists fun _ _ => rulesOf_eq, entries, List.map_flatMap, ← List.flatMap_def]
  simp only [hstate]
  exact flatMap_zipIdx (fun s => scope.machine.transitions.filterMap (scope.ruleAt? s)) _

/-- An entry is the rule of a transition at a position, for a state at a position. -/
theorem mem_entries_iff {e : RuleEntry} : e ∈ scope.entries ↔
    ∃ state t, scope.machine.states[e.state]? = some state ∧
      scope.machine.transitions[e.transition]? = some t ∧ scope.ruleAt? state t = some e.rule := by
  constructor
  · intro he
    obtain ⟨⟨state, k⟩, hstate, he⟩ := List.mem_flatMap.mp he
    obtain ⟨⟨t, i⟩, ht, he⟩ := List.mem_filterMap.mp he
    obtain ⟨r, hr, rfl⟩ := Option.map_eq_some_iff.mp he
    exact ⟨state, t, List.mem_zipIdx_iff_getElem?.mp hstate, List.mem_zipIdx_iff_getElem?.mp ht, hr⟩
  -- and back: state and transition are found at their positions
  · rintro ⟨state, t, hstate, ht, hr⟩
    refine List.mem_flatMap.mpr ⟨(state, e.state), List.mem_zipIdx_iff_getElem?.mpr hstate, ?_⟩
    refine List.mem_filterMap.mpr ⟨(t, e.transition), List.mem_zipIdx_iff_getElem?.mpr ht, ?_⟩
    exact Option.map_eq_some_iff.mpr ⟨e.rule, hr, rfl⟩

/-- Entries are in order, as the positions are. -/
theorem entries_ordered (scope : Scope) : scope.entries.Pairwise RuleEntry.Before := by
  rw [entries, List.pairwise_flatMap]
  constructor
  -- within one state
  · intro s _
    rw [List.pairwise_filterMap]
    apply (pairwise_zipIdx _).imp
    intro _ _ hlt e he later hlater
    obtain ⟨r, -, rfl⟩ := Option.map_eq_some_iff.mp he
    obtain ⟨r', -, rfl⟩ := Option.map_eq_some_iff.mp hlater
    exact .inr ⟨rfl, hlt⟩
  -- from one state to a later one
  · apply (pairwise_zipIdx _).imp
    intro _ _ hlt e he later hlater
    obtain ⟨t, -, he⟩ := List.mem_filterMap.mp he
    obtain ⟨t', -, hlater⟩ := List.mem_filterMap.mp hlater
    obtain ⟨r, -, rfl⟩ := Option.map_eq_some_iff.mp he
    obtain ⟨r', -, rfl⟩ := Option.map_eq_some_iff.mp hlater
    exact .inl hlt

/-! ### Which transitions do nothing -/

variable {options : List String}

/-- The actions from a state are found. -/
theorem actionsFrom_returns (h : scope.Ready options) (hstate : state ∈ scope.machine.nodes)
    (ht : t ∈ scope.machine.transitions) :
    ∃ actions?, (scope.actionsFrom state t).result = .ok actions? := by
  obtain ⟨actions?, hactions, -⟩ :=
    Ends.returns (actionsFrom_ends (fun _ : True => h) hstate ht) trivial
  exact ⟨actions?, hactions⟩

/-- A transition that can be triggered has actions, though there may be none in them. -/
theorem exists_actions (h : scope.Ready options) (hstate : state ∈ scope.machine.nodes)
    (ht : t ∈ scope.machine.transitions) (hkind : t.kind = .external ∨ t.kind = .internal) :
    ∃ actions, (scope.actionsFrom state t).result = .ok (some actions) := by
  obtain ⟨actions?, hactions⟩ := actionsFrom_returns h hstate ht
  cases actions? with
  | some actions => exact ⟨actions, hactions⟩
  | none =>
    rw [kind_of_actionsFrom hactions] at hkind
    rcases hkind with hkind | hkind <;> cases hkind

/-- A transition that can be triggered is idle exactly if the compiler takes it for one that does nothing. -/
theorem idle_iff_isNoOp (h : scope.Ready options) (hstate : state ∈ scope.machine.nodes)
    (ht : t ∈ scope.machine.transitions) (hkind : t.kind = .external ∨ t.kind = .internal) :
    scope.Idle state t ↔ scope.isNoOp state t = true := by
  obtain ⟨actions, hactions⟩ := exists_actions h hstate ht hkind
  -- which machine and which predicates does not matter for how many actions there are
  obtain ⟨-, hempty, -⟩ := outcome_of_actionsFrom "" (fun _ => false) hactions
  rw [← hempty, Idle, hactions, List.isEmpty_iff]
  exact ⟨fun heq => Option.some.inj (Except.ok.inj heq), fun heq => heq ▸ rfl⟩

/-- An internal transition is idle if it has no actions. -/
theorem idle_internal_iff (h : scope.Ready options) (hstate : state ∈ scope.machine.nodes)
    (ht : t ∈ scope.machine.transitions) (hkind : t.kind = .internal) :
    scope.Idle state t ↔ Fragment.listedActions (t.attr? "Action") = [] := by
  rw [idle_iff_isNoOp h hstate ht (.inr hkind), isNoOp, hkind]
  exact List.isEmpty_iff

/-- A transition leads somewhere unless its destination is not there or cannot be entered. -/
theorem leadsSomewhere_eq_false_iff : scope.leadsSomewhere t = false ↔
    scope.machine.find? t.dst = none ∨ ∃ target, scope.machine.find? t.dst = some target ∧
      (target.kind = .stateMachine ∨ target.kind = .initial) := by
  rw [leadsSomewhere]
  cases hfind : scope.machine.find? t.dst with
  | none => simp
  | some target => cases hkind : target.kind <;> simp [hkind]

/-- An external one is idle if its state has none to leave it, it has none itself, and it does not lead
anywhere. -/
theorem idle_external_iff (h : scope.Ready options) (hstate : state ∈ scope.machine.nodes)
    (ht : t ∈ scope.machine.transitions) (hkind : t.kind = .external) :
    scope.Idle state t ↔ Fragment.listedActions (state.attr? "Exit") = [] ∧
      Fragment.listedActions (t.attr? "Action") = [] ∧
      (scope.machine.find? t.dst = none ∨ ∃ target, scope.machine.find? t.dst = some target ∧
        (target.kind = .stateMachine ∨ target.kind = .initial)) := by
  rw [idle_iff_isNoOp h hstate ht (.inl hkind), isNoOp, hkind, ← leadsSomewhere_eq_false_iff,
    ← Fragment.apartActions_eq_nil_iff (t.attr? "Action")]
  simp only [Bool.and_eq_true, List.isEmpty_iff, Bool.not_eq_true', and_assoc]

/-! ### Rules of transitions -/

/-- The rule with the positions of a state and of a transition is made exactly if the transition calls for a
rule, and then it is the right one. -/
theorem ruleAt?_eq_some_iff (hformed : scope.machine.WellFormed) (h : scope.Ready options)
    (hstate : state ∈ scope.machine.states) (ht : t ∈ scope.machine.transitions) :
    scope.ruleAt? state t = some r ↔ scope.CallsForRule state t ∧ scope.RuleFor state t r := by
  obtain ⟨hnode, hisState⟩ := List.mem_filter.mp hstate
  obtain ⟨stateId, hid, -⟩ := h.identified state hstate
  replace hid := get?_of_identifierAt hid
  -- the paths are texts, so the source equals the path of the state exactly if the state is found there
  have hleaves : t.src.equal state.path = true ↔ scope.machine.find? t.src = some state := by
    rw [(hformed.sources t ht).equal_iff (hformed.paths state hnode),
      Machine.find?_eq_some_iff hformed.paths]
    exact ⟨fun heq => ⟨hnode, heq.symm⟩, fun hfind => hfind.2.symm⟩
  -- neither a fault nor the lack of a rule gives one
  have hrule : ∀ x : Except Fault (Option Rule), x.toOption.join = some r ↔ x = .ok (some r) := by
    intro x
    rcases x with e | _ | r' <;> simp [Except.toOption]
  rw [ruleAt?, hid, Option.getD_some, Option.ite_none_right_eq_some, hrule, hleaves, rule?_eq_some_iff]
  constructor
  · rintro ⟨hsource, rfl, hevent, hactions, hne⟩
    have hkind := (outcome_of_actionsFrom "" (fun _ => false) hactions).1
    refine ⟨⟨hsource, hisState, ⟨_, hevent⟩, ?_, fun hidle => ?_⟩, hid, hevent, hactions⟩
    · cases hk : t.kind with
      | external => exact .inl rfl
      | internal => exact .inr rfl
      | initial => exact absurd hk hkind
    · exact hne (Option.some.inj (Except.ok.inj (hactions.symm.trans hidle)))
  · rintro ⟨hcalls, hfor⟩
    refine ⟨hcalls.source, ?_, hfor.event, hfor.actions, fun hnone => hcalls.active ?_⟩
    · exact Option.some.inj (hfor.identifier.symm.trans hid)
    · rw [Idle, hfor.actions, hnone]

/-- A transition that calls for a rule has one. -/
theorem CallsForRule.exists_ruleFor (hcalls : scope.CallsForRule state t) (h : scope.Ready options)
    (ht : t ∈ scope.machine.transitions) : ∃ r, scope.RuleFor state t r := by
  have hnode := (Machine.find?_eq_some hcalls.source).1
  obtain ⟨stateId, hid, -⟩ := h.identified state (List.mem_filter.mpr ⟨hnode, hcalls.isState⟩)
  obtain ⟨event, hevent⟩ := hcalls.event
  obtain ⟨actions, hactions⟩ := exists_actions h hnode ht hcalls.kind
  exact ⟨{ state := stateId, event, actions }, get?_of_identifierAt hid, hevent, hactions⟩

/-- **Rules and transitions.** The entries are in the order of the states and, for one state, of the
transitions. Each is the rule of a transition that calls for one, and each such transition has exactly one
entry, whose rule does something. An internal transition does nothing exactly if it has no actions, and an
external one if besides there are none on leaving the state and it leads nowhere. So a transition into a state
or a choice always has a rule, if there is an event that triggers it. -/
structure RulesCorrespond (scope : Scope) (entries : List RuleEntry) : Prop where
  ordered : entries.Pairwise RuleEntry.Before
  -- no rule but those of transitions
  origin : ∀ e ∈ entries, ∃ state t, scope.machine.states[e.state]? = some state ∧
    scope.machine.transitions[e.transition]? = some t ∧ scope.CallsForRule state t ∧
      scope.RuleFor state t e.rule
  -- one at least for each transition that calls for one, and one at most
  complete : ∀ (i : ℕ) (t : Transition) (state : Node), scope.machine.transitions[i]? = some t →
    scope.CallsForRule state t → ∃ e ∈ entries, e.transition = i
  once : (entries.map (·.transition)).Nodup
  nonempty : ∀ e ∈ entries, e.rule.actions ≠ []
  -- which transitions do nothing
  internal : ∀ state ∈ scope.machine.states, ∀ t ∈ scope.machine.transitions, t.kind = .internal →
    (scope.Idle state t ↔ Fragment.listedActions (t.attr? "Action") = [])
  external : ∀ state ∈ scope.machine.states, ∀ t ∈ scope.machine.transitions, t.kind = .external →
    (scope.Idle state t ↔ Fragment.listedActions (state.attr? "Exit") = [] ∧
      Fragment.listedActions (t.attr? "Action") = [] ∧
      (scope.machine.find? t.dst = none ∨ ∃ target, scope.machine.find? t.dst = some target ∧
        (target.kind = .stateMachine ∨ target.kind = .initial)))
  -- whatever the choice comes to: a decision is an action, even one without alternatives
  kept : ∀ (i : ℕ) (t : Transition) (state target : Node) (event : String),
    scope.machine.transitions[i]? = some t → scope.machine.find? t.src = some state →
    state.isState = true → t.event? = .ok (some event) → t.kind = .external →
    scope.machine.find? t.dst = some target → (target.isState = true ∨ target.kind = .choice) →
    ∃ e ∈ entries, e.transition = i

/-- An external transition into a state or a choice does something. -/
theorem not_idle_of_enters (h : scope.Ready options) (hstate : state ∈ scope.machine.nodes)
    (ht : t ∈ scope.machine.transitions) (hkind : t.kind = .external) {target : Node}
    (hfind : scope.machine.find? t.dst = some target)
    (htarget : target.isState = true ∨ target.kind = .choice) : ¬ scope.Idle state t := by
  rw [idle_external_iff h hstate ht hkind, hfind]
  rintro ⟨-, -, hnone | ⟨other, hother, hnot⟩⟩
  · cases hnone
  · obtain rfl := Option.some.inj hother
    rw [Node.isState] at htarget
    rcases hnot with hnot | hnot <;> rw [hnot] at htarget <;> rcases htarget with htarget | htarget <;>
      cases htarget

/-- No two states have an entry of one transition. -/
theorem entries_once (hformed : scope.machine.WellFormed) (h : scope.Ready options) :
    (scope.entries.map (·.transition)).Nodup := by
  rw [List.Nodup, List.pairwise_map]
  refine (entries_ordered scope).imp_of_mem fun {e later} he hlater hbefore heq => ?_
  obtain ⟨state, t, hstate, ht, hr⟩ := mem_entries_iff.mp he
  obtain ⟨state', t', hstate', ht', hr'⟩ := mem_entries_iff.mp hlater
  rw [heq, ht'] at ht
  obtain rfl := Option.some.inj ht
  have hmem := List.mem_of_getElem? ht'
  have hsource := ((ruleAt?_eq_some_iff hformed h (List.mem_of_getElem? hstate) hmem).mp hr).1.source
  have hsource' := ((ruleAt?_eq_some_iff hformed h (List.mem_of_getElem? hstate') hmem).mp hr').1.source
  obtain rfl := Option.some.inj (hsource.symm.trans hsource')
  -- it is the same state, so the entries have the same positions
  have hnodup : scope.machine.states.Nodup := (Machine.states_nodup hformed.paths).of_map
  have hsame : e.state = later.state := by
    obtain ⟨hlt, -⟩ := List.getElem?_eq_some_iff.mp hstate
    exact (List.getElem?_inj hlt hnodup).mp (hstate.trans hstate'.symm)
  -- but one of them comes before the other
  rcases hbefore with hbefore | ⟨-, hbefore⟩
  · exact absurd hsame (Nat.ne_of_lt hbefore)
  · exact absurd heq (Nat.ne_of_lt hbefore)

/-- The entries of a machine are all that is asked of them. -/
theorem entries_correspond (hformed : scope.machine.WellFormed) (h : scope.Ready options) :
    scope.RulesCorrespond scope.entries := by
  have hnode : ∀ state ∈ scope.machine.states, state ∈ scope.machine.nodes :=
    fun state hstate => List.mem_of_mem_filter hstate
  -- the state is found at the source, and the rule that the transition calls for is made
  have hcomplete : ∀ (i : ℕ) (t : Transition) (state : Node),
      scope.machine.transitions[i]? = some t → scope.CallsForRule state t →
      ∃ e ∈ scope.entries, e.transition = i := by
    intro i t state ht hcalls
    have hmem := List.mem_of_getElem? ht
    have hstate : state ∈ scope.machine.states :=
      List.mem_filter.mpr ⟨(Machine.find?_eq_some hcalls.source).1, hcalls.isState⟩
    obtain ⟨r, hr⟩ := hcalls.exists_ruleFor h hmem
    obtain ⟨k, hk⟩ := List.mem_iff_getElem?.mp hstate
    have hat := (ruleAt?_eq_some_iff hformed h hstate hmem).mpr ⟨hcalls, hr⟩
    exact ⟨{ state := k, transition := i, rule := r }, mem_entries_iff.mpr ⟨state, t, hk, ht, hat⟩, rfl⟩
  -- each entry was made of a state and a transition at their positions
  have horigin : ∀ e ∈ scope.entries, ∃ state t, scope.machine.states[e.state]? = some state ∧
      scope.machine.transitions[e.transition]? = some t ∧ scope.CallsForRule state t ∧
        scope.RuleFor state t e.rule := by
    intro e he
    obtain ⟨state, t, hstate, ht, hr⟩ := mem_entries_iff.mp he
    obtain ⟨hcalls, hfor⟩ := (ruleAt?_eq_some_iff hformed h (List.mem_of_getElem? hstate)
      (List.mem_of_getElem? ht)).mp hr
    exact ⟨state, t, hstate, ht, hcalls, hfor⟩
  refine
    { ordered := entries_ordered scope
      origin := horigin
      complete := hcomplete
      once := entries_once hformed h
      nonempty := ?nonempty
      internal := fun state hstate t ht hkind => idle_internal_iff h (hnode state hstate) ht hkind
      external := fun state hstate t ht hkind => idle_external_iff h (hnode state hstate) ht hkind
      kept := ?kept }
  case nonempty =>
    -- a transition that calls for a rule does something
    intro e he hnil
    obtain ⟨state, t, -, -, hcalls, hfor⟩ := horigin e he
    exact hcalls.active (by rw [Idle, hfor.actions, hnil])
  case kept =>
    intro i t state target event ht hsource hstate hevent hkind hfind htarget
    have hmem := List.mem_of_getElem? ht
    -- entering a state is something, so such a transition calls for a rule
    refine hcomplete i t state ht ⟨hsource, hstate, ⟨event, hevent⟩, .inl hkind, ?_⟩
    exact not_idle_of_enters h (Machine.find?_eq_some hsource).1 hmem hkind hfind htarget

/-- **Rules and transitions correspond exactly.** With the identifiers of its states and titles for its
transitions, the rules of a machine are those of the transitions that call for one, each once and in their
order. -/
theorem rules_correspond (scope : Scope) (hformed : scope.machine.WellFormed)
    (htitled : scope.machine.Titled) (hreadable : scope.machine.Readable)
    (hidentifiers : (identifiersOf scope.machine.states).result = .ok scope.identifiers) :
    scope.rules.Returns fun rules =>
      ∃ entries : List RuleEntry, entries.map (·.rule) = rules ∧ scope.RulesCorrespond entries := by
  rw [identifiersOf_eq (Machine.states_paths hformed.paths)] at hidentifiers
  have hready : scope.Ready (allotted [] scope.machine.states) := by
    have hready := hformed.ready htitled hreadable
    rwa [Except.ok.inj hidentifiers] at hready
  obtain ⟨rules, hrules, -⟩ := hready.rules_returns
  exact ⟨rules, hrules, scope.entries, map_rule_entries hrules, entries_correspond hformed hready⟩

/-! ### The light on a staircase -/

/-- The light on a staircase. A press turns it on; while it is on, nothing is done when the sun rises, there
is nobody to be told of a press, and it goes off after a while. -/
def stairsMachine : Machine where
  nodes := [{ kind := .stateMachine, path := .str "/stairs", name := "Stairs" },
    { kind := .state, path := .str "/off", name := "Off" },
    { kind := .state, path := .str "/on", name := "On" }]
  distinct := by simp [DistinctPaths]
  transitions :=
    [{ kind := .internal, src := .str "/on", dst := .str "/on",
        attributes := [(.str "Event", .str "sunrise")] },
      { kind := .external, src := .str "/on", dst := .str "/bell",
        attributes := [(.str "Event", .str "press")] },
      { kind := .external, src := .str "/on", dst := .str "/off",
        attributes := [(.str "Event", .str "timeout")] },
      { kind := .external, src := .str "/off", dst := .str "/on",
        attributes := [(.str "Event", .str "press")] },
      { kind := .external, src := .str "/off", dst := .str "/on" }]

/-- The scope of the light, with the identifiers of its states. -/
def stairsScope : Scope :=
  { machine := stairsMachine, identifiers := identifierTable stairsMachine.states }

/-- Its machine is well-formed. -/
theorem stairsScope_wellFormed : stairsScope.machine.WellFormed where
  paths := by simp [stairsScope, stairsMachine]
  sources := by simp [stairsScope, stairsMachine, Data.IsTextOrNull]
  destinations := by simp [stairsScope, stairsMachine, Data.IsTextOrNull]
  eventNames := by simp [stairsScope, stairsMachine, Data.IsTextOrNull]

theorem stairsScope_titled : stairsScope.machine.Titled := stairsScope_wellFormed.titled (by decide)

/-- There are no fragments in the machine. -/
theorem stairsScope_readable : stairsScope.machine.Readable := .of_forall (by decide) (by decide)

/-- Of the five transitions of the staircase two have rules: the press that turns the light on, and the
timeout. The rules are in the order of the states, which is not that of the transitions. -/
theorem rules_correspond_stairs : stairsScope.machine.WellFormed ∧ stairsScope.machine.Titled ∧
    stairsScope.machine.Readable ∧
    (identifiersOf stairsScope.machine.states).result = .ok stairsScope.identifiers ∧
    ∃ rules entries, stairsScope.rules.result = .ok rules ∧ entries.map RuleEntry.rule = rules ∧
      rules.map (fun r => (r.state, r.event)) = [("off_off", "press"), ("on_on", "timeout")] ∧
      stairsScope.RulesCorrespond entries ∧ ∃ e ∈ entries, e.transition = 2 := by
  have hidentifiers : (identifiersOf stairsScope.machine.states).result = .ok stairsScope.identifiers := by
    rw [identifiersOf_eq (Machine.states_paths stairsScope_wellFormed.paths)]
    rfl
  obtain ⟨rules, hrules, entries, hentries, hcorrespond⟩ :=
    rules_correspond stairsScope stairsScope_wellFormed stairsScope_titled stairsScope_readable
      hidentifiers
  -- the rules are computed once, for states and events alone
  have hchecked : (stairsScope.rules.result.toOption.map fun rules =>
      rules.map (fun r => (r.state, r.event)) == [("off_off", "press"), ("on_on", "timeout")])
        = some true := by
    decide +kernel
  obtain ⟨rules', hrules', hlist⟩ := Returns.of_check hchecked
  obtain rfl := Except.ok.inj (hrules.symm.trans hrules')
  refine ⟨stairsScope_wellFormed, stairsScope_titled, stairsScope_readable, hidentifiers, rules, entries,
    hrules, hentries, eq_of_beq hlist, hcorrespond, ?_⟩
  exact hcorrespond.kept 2 _ _ _ _ rfl rfl rfl rfl rfl rfl (.inl rfl)

end Scope

end HomeAutomaton
