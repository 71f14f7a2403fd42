import HomeAutomaton.Diagram
import HomeAutomaton.Proofs.Origin

/-!
# Guards

A guard stands at three places: on its transition, on the edge of the diagram, and as a predicate in the
rules. Only decisions have predicates; a rule itself has a condition on the state and one on the event
and no other. So a guard is kept wherever its transition is followed out of a choice, and it plays no part
for a transition out of a state, which is triggered by its event alone.

* `Action.Runs` says which of the lists inside actions are run, and `Action.mem_listOutcome_iff` that what
  they hold is what the actions come to.
* `Scope.RuleOf` says of which transition a rule is.
* `Scope.guarded_of_leads` finds the predicate of a guard on the way to its transition, by induction on
  the way.
* `Model.compile_guarded` is the result. `Model.guard_not_enclosed` shows why it is about transitions
  that do not leave a state.
-/

namespace HomeAutomaton

/-! ### Which lists are run -/

namespace Action

variable {machineId : String} {truth : String → Bool}

/-- The list is run when the actions are: of every decision on the way to it, it stands in the first
alternative whose predicate is true, or in the default if there is no such alternative. -/
inductive Runs (truth : String → Bool) :
    List Action → List (Option String) → List Action → Prop where
  | here (actions : List Action) : Runs truth actions [] actions
  | option {actions arm inner : List Action} {options : List (String × List Action)}
      {default? : Option (List Action)} {predicate : String} {predicates : List (Option String)} :
      .choose options default? ∈ actions →
      options.find? (fun o => predicateHolds truth o.1) = some (predicate, arm) →
      Runs truth arm predicates inner → Runs truth actions (some predicate :: predicates) inner
  | default {actions arm inner : List Action} {options : List (String × List Action)}
      {predicates : List (Option String)} :
      .choose options (some arm) ∈ actions →
      options.find? (fun o => predicateHolds truth o.1) = none →
      Runs truth arm predicates inner → Runs truth actions (none :: predicates) inner

/-- The predicates on the way to a list that is run are true. -/
theorem Runs.predicate_true {actions inner : List Action} {predicates : List (Option String)}
    (h : Runs truth actions predicates inner) {predicate : String}
    (hmem : some predicate ∈ predicates) : truth predicate = true := by
  -- on the way to the list; only a turn into an alternative has a predicate
  induction h with
  | here => cases hmem
  | option _ hfind _ ih =>
    rcases List.mem_cons.mp hmem with heq | hmem
    · have htrue := (List.find?_eq_some_iff_append.mp hfind).1
      rw [predicateHolds_eq] at htrue
      rw [Option.some.inj heq, htrue]
    · exact ih hmem
  | default _ _ _ ih =>
    rcases List.mem_cons.mp hmem with heq | hmem
    · cases heq
    · exact ih hmem

/-- One of the actions, which is no decision, has this effect. -/
def Effect (machineId : String) (actions : List Action) (d : Data) : Prop :=
  .given d ∈ actions ∨ ∃ stateId, .setState stateId ∈ actions ∧ d = setStateCall machineId stateId

/-- A longer list has the same effects and more. -/
theorem Effect.mono {actions more : List Action} {d : Data} (h : Effect machineId actions d)
    (hsub : ∀ a ∈ actions, a ∈ more) : Effect machineId more d := by
  rcases h with h | ⟨stateId, h, hd⟩
  · exact .inl (hsub _ h)
  · exact .inr ⟨stateId, hsub _ h, hd⟩

/-- The alternative that is run is the first whose predicate holds. -/
theorem optionsOutcome_eq (options : List (String × List Action)) :
    optionsOutcome machineId truth options
      = (options.find? fun o => predicateHolds truth o.1).map fun o =>
          listOutcome machineId truth o.2 := by
  induction options with
  | nil => rfl
  | cons o rest ih =>
    rw [optionsOutcome, List.find?_cons]
    cases predicateHolds truth o.1 with
    | true => rfl
    | false => exact ih

/-- What one action comes to is part of what the list comes to. -/
theorem mem_listOutcome_of_mem {actions : List Action} {a : Action} (ha : a ∈ actions) {d : Data}
    (hd : d ∈ outcome machineId truth a) : d ∈ listOutcome machineId truth actions := by
  induction actions with
  | nil => cases ha
  | cons first rest ih =>
    rw [listOutcome, List.mem_append]
    rcases List.mem_cons.mp ha with rfl | ha
    · exact .inl hd
    · exact .inr (ih ha)

/-- What stands in a list that is run is run. -/
theorem Runs.mem_listOutcome {actions inner : List Action} {predicates : List (Option String)}
    {d : Data} (h : Runs truth actions predicates inner) (hd : Effect machineId inner d) :
    d ∈ listOutcome machineId truth actions := by
  -- on the way; where it turns, the decision runs the list that it turns into
  induction h with
  | here actions =>
    rcases hd with hgiven | ⟨stateId, hset, rfl⟩
    · exact mem_listOutcome_of_mem hgiven List.mem_cons_self
    · exact mem_listOutcome_of_mem hset List.mem_cons_self
  | option hmem hfind _ ih =>
    refine mem_listOutcome_of_mem hmem ?_
    rw [outcome, optionsOutcome_eq, hfind]
    exact ih hd
  | default hmem hfind _ ih =>
    refine mem_listOutcome_of_mem hmem ?_
    rw [outcome, optionsOutcome_eq, hfind]
    exact ih hd

/-- What is run of a list stands in a list that is run, and then it does so for any longer list. -/
theorem exists_runs_of_tail {a : Action} {rest : List Action} {d : Data}
    (h : ∃ predicates inner, Runs truth rest predicates inner ∧ Effect machineId inner d) :
    ∃ predicates inner, Runs truth (a :: rest) predicates inner ∧ Effect machineId inner d := by
  obtain ⟨predicates, inner, hruns, hd⟩ := h
  have hsub : ∀ b ∈ rest, b ∈ a :: rest := fun b hb => List.mem_cons_of_mem a hb
  cases hruns with
  | here => exact ⟨[], _, .here _, hd.mono hsub⟩
  | option hmem hfind hrest => exact ⟨_, inner, .option (hsub _ hmem) hfind hrest, hd⟩
  | default hmem hfind hrest => exact ⟨_, inner, .default (hsub _ hmem) hfind hrest, hd⟩

/-- What is run stands in a list that is run. -/
theorem exists_runs_of_mem {actions : List Action} {d : Data}
    (h : d ∈ listOutcome machineId truth actions) :
    ∃ predicates inner, Runs truth actions predicates inner ∧ Effect machineId inner d := by
  -- a decision goes on to a smaller list
  generalize hn : sizeOf actions = n
  induction n using Nat.strong_induction_on generalizing actions with
  | h n ih =>
    cases actions with
    | nil => cases h
    | cons a rest =>
      rw [List.cons.sizeOf_spec] at hn
      rw [listOutcome, List.mem_append] at h
      -- it comes of the first action, or of the others
      rcases h with h | h
      · cases a with
        | given d' =>
          obtain rfl := List.mem_singleton.mp h
          exact ⟨[], _, .here _, .inl List.mem_cons_self⟩
        | setState stateId =>
          exact ⟨[], _, .here _, .inr ⟨stateId, List.mem_cons_self, List.mem_singleton.mp h⟩⟩
        | choose options default? =>
          rw [choose.sizeOf_spec] at hn
          rw [outcome, optionsOutcome_eq] at h
          -- the first alternative that holds is run, or the default
          cases hfind : options.find? fun o => predicateHolds truth o.1 with
          | some o =>
            obtain ⟨predicate, arm⟩ := o
            rw [hfind] at h
            have hlt := List.sizeOf_lt_of_mem (List.mem_of_find?_eq_some hfind)
            rw [Prod.mk.sizeOf_spec] at hlt
            obtain ⟨predicates, inner, hruns, hd⟩ := ih (sizeOf arm) (by omega) h rfl
            exact ⟨_, inner, .option List.mem_cons_self hfind hruns, hd⟩
          | none =>
            rw [hfind] at h
            cases default? with
            | none => cases h
            | some arm =>
              rw [Option.some.sizeOf_spec] at hn
              obtain ⟨predicates, inner, hruns, hd⟩ := ih (sizeOf arm) (by omega) h rfl
              exact ⟨_, inner, .default List.mem_cons_self hfind hruns, hd⟩
      · exact exists_runs_of_tail (ih (sizeOf rest) (by omega) h rfl)

/-- **What is run.** What actions come to is what the lists hold that are run. -/
theorem mem_listOutcome_iff {actions : List Action} {d : Data} :
    d ∈ listOutcome machineId truth actions ↔
      ∃ predicates inner, Runs truth actions predicates inner ∧ Effect machineId inner d :=
  ⟨exists_runs_of_mem, fun ⟨_, _, hruns, hd⟩ => hruns.mem_listOutcome hd⟩

end Action

namespace Scope

variable {scope : Scope}

/-! ### Which rule is of which transition -/

/-- The rule is that of a transition out of a state. -/
structure RuleOf (scope : Scope) (state : Node) (t : Transition) (r : Rule) : Prop where
  mem : state ∈ scope.machine.states
  leaves : t ∈ scope.machine.outgoing state.path
  rule : (scope.rule? state r.state t).result = .ok (some r)

/-- Every rule is that of a transition out of a state, whose identifier it has. -/
theorem exists_identified_ruleOf {rules : List Rule} (h : scope.rules.result = .ok rules) {r : Rule}
    (hr : r ∈ rules) :
    ∃ state t, scope.RuleOf state t r ∧ scope.identifiers.get? state.path = some r.state := by
  -- rules are made for each state, and there for each transition out of it
  obtain ⟨lists, hlists, h⟩ := Logged.bind_eq_ok.mp h
  obtain rfl := Except.ok.inj h
  obtain ⟨own, hown, hr⟩ := List.mem_flatten.mp hr
  obtain ⟨state, hstate, hown⟩ := (Logged.mapM_mem hlists).1 own hown
  obtain ⟨stateId, hid, hown⟩ := Logged.bind_eq_ok.mp hown
  obtain ⟨rules?, hrules?, hown⟩ := Logged.bind_eq_ok.mp hown
  obtain rfl := Except.ok.inj hown
  obtain ⟨r?, hr?, hsome⟩ := List.mem_filterMap.mp hr
  obtain rfl : r? = some r := hsome
  obtain ⟨t, ht, hrule⟩ := (Logged.mapM_mem hrules?).1 _ hr?
  obtain rfl := state_of_rule? hrule
  exact ⟨state, t, ⟨hstate, ht, hrule⟩, get?_of_identifierAt hid⟩

/-- Every rule is that of a transition out of a state. -/
theorem exists_ruleOf {rules : List Rule} (h : scope.rules.result = .ok rules) {r : Rule}
    (hr : r ∈ rules) : ∃ state t, scope.RuleOf state t r := by
  obtain ⟨state, t, hrule, -⟩ := exists_identified_ruleOf h hr
  exact ⟨state, t, hrule⟩

/-- The actions of a rule are those of its transition, if that is an internal one. An external one leaves
its state: what is done on leaving comes before what the transition is resolved into. -/
theorem RuleOf.parts {state : Node} {t : Transition} {r : Rule} (h : scope.RuleOf state t r) :
    (t.kind = .internal ∧
      r.actions = (Fragment.listedActions (t.attr? "Action")).map .given) ∨
    (t.kind = .external ∧ ∃ resolved : List Action,
      r.actions = (Fragment.listedActions (state.attr? "Exit")).map .given ++ resolved ∧
        (scope.descend [] t).result = .ok resolved) := by
  obtain ⟨-, -, hactions, -⟩ := rule?_eq_some_iff.mp h.rule
  rw [actionsFrom] at hactions
  -- by kind; an initial transition has no actions to make a rule of
  cases hkind : t.kind with
  | external =>
    simp only [hkind] at hactions
    obtain ⟨leaving, hleaving, hactions⟩ := Logged.bind_eq_ok.mp hactions
    obtain ⟨resolved, hresolved, hactions⟩ := Logged.bind_eq_ok.mp hactions
    rw [resolve_eq] at hresolved
    rw [← Fragment.eq_listedActions hleaving]
    exact .inr ⟨rfl, resolved, (Option.some.inj (Except.ok.inj hactions)).symm, hresolved⟩
  | internal =>
    simp only [hkind] at hactions
    obtain ⟨_, -, hactions⟩ := Logged.bind_eq_ok.mp hactions
    obtain ⟨own, hown, hactions⟩ := Logged.bind_eq_ok.mp hactions
    rw [← Fragment.eq_listedActions hown]
    exact .inl ⟨rfl, (Option.some.inj (Except.ok.inj hactions)).symm⟩
  | initial =>
    simp only [hkind] at hactions
    cases Except.ok.inj hactions

/-- The actions of a rule are given by fragments, or come to an end in what its transition is resolved
into. -/
theorem RuleOf.actions {state : Node} {t : Transition} {r : Rule} (h : scope.RuleOf state t r) :
    (∃ own : List Data, r.actions = own.map .given) ∨
    ∃ (leaving : List Data) (resolved : List Action), r.actions = leaving.map .given ++ resolved ∧
      (scope.descend [] t).result = .ok resolved := by
  rcases h.parts with ⟨-, hown⟩ | ⟨-, resolved, hactions, hresolved⟩
  · exact .inl ⟨_, hown⟩
  · exact .inr ⟨_, resolved, hactions, hresolved⟩

/-! ### Guards on the way -/

/-- **The predicate of a guard is on the way to its transition.** Where turns lead from a resolved
transition to one with a guard, they pass its predicate, unless it is the first one itself. -/
theorem guarded_of_leads (before : List Data) {visited : List Data} {t last : Transition}
    {resolved inner : List Action} {turns : List Turn} {guard : String}
    (h : (scope.descend visited t).result = .ok resolved)
    (hleads : scope.Leads t (before.map .given ++ resolved) turns last inner)
    (hguard : last.attr? "Guard" = some guard) :
    (turns = [] ∧ last = t) ∨ some (guardPredicate guard) ∈ turns.map (·.predicate?) := by
  generalize hactions : before.map .given ++ resolved = actions at hleads
  induction hleads generalizing visited before resolved with
  | here t actions => exact .inl ⟨rfl, rfl⟩
  | option hto hdecision hb harm _ ih =>
    obtain ⟨choice', hto', hdecided⟩ := decidedAt_of_choose before h (hactions ▸ hdecision)
    obtain rfl := Option.some.inj (hto.symm.trans hto')
    obtain ⟨rfl, hdescend⟩ := hdecided.option hb harm
    rw [List.map_cons, List.mem_cons]
    rcases ih [] hdescend hguard rfl with ⟨-, rfl⟩ | hmem
    -- the way ends at this alternative, which stands under the predicate of its guard
    · exact .inr (.inl (by rw [predicateOf, hguard, Option.getD_some]))
    · exact .inr (.inr hmem)
  | default hto hdecision hb _ ih =>
    obtain ⟨choice', hto', hdecided⟩ := decidedAt_of_choose before h (hactions ▸ hdecision)
    obtain rfl := Option.some.inj (hto.symm.trans hto')
    rw [List.map_cons, List.mem_cons]
    rcases ih [] (hdecided.of_default hb) hguard rfl with ⟨-, rfl⟩ | hmem
    -- a default has no guard
    · have hnone := (List.find?_eq_some_iff_append.mp hb).1
      rw [hguard] at hnone
      cases hnone
    · exact .inr (.inr hmem)

end Scope

/-! ### The diagram -/

/-- The guard of a transition stands in its label. -/
theorem Transition.guardLabel_of_label {t : Transition} {guard label : String}
    (hguard : t.attr? "Guard" = some guard) (h : t.label = .ok label) :
    ∃ start rest, label = start ++ guardLabel guard ++ rest := by
  obtain ⟨event?, -, rfl⟩ : ∃ event?, t.event? = .ok event? ∧ String.intercalate " "
      (event?.toList ++ ((t.attr? "Guard").map guardLabel).toList ++
        ((t.attr? "Action").map actionLabel).toList) = label := by
    rw [Transition.label] at h
    cases hevent : t.event? with
    | error e => rw [hevent] at h; cases h
    | ok event? => rw [hevent] at h; exact ⟨event?, rfl, Except.ok.inj h⟩
  rw [hguard]
  -- whatever stands before it or after it is parted from it by a blank
  cases event? with
  | none =>
    cases t.attr? "Action" with
    | none => exact ⟨"", "", by rw [String.empty_append, String.append_empty]; rfl⟩
    | some action =>
      exact ⟨"", " " ++ actionLabel action, by rw [String.empty_append, ← String.append_assoc]; rfl⟩
  | some event =>
    cases t.attr? "Action" with
    | none => exact ⟨event ++ " ", "", by rw [String.append_empty]; rfl⟩
    | some action =>
      exact ⟨event ++ " ", " " ++ actionLabel action, by rw [← String.append_assoc]; rfl⟩

/-- The edge of a transition has the label of the transition. -/
theorem label_of_edgeOf {m : Machine} {t : Transition} {e : Edge}
    (h : edgeOf m t = .ok (some e)) : t.label = .ok e.label := by
  rw [edgeOf] at h
  -- everything that is looked up has to be there before the edge is made
  cases hsrc : m.node? t.src with
  | error fault => rw [hsrc] at h; cases h
  | ok source? =>
    rw [hsrc] at h
    cases source? with
    | none => cases Except.ok.inj h
    | some source =>
      cases hdst : m.node? t.dst with
      | error fault => rw [hdst] at h; cases h
      | ok target? =>
        rw [hdst] at h
        cases target? with
        | none => cases Except.ok.inj h
        | some target =>
          cases hlabel : t.label with
          | error fault => rw [hlabel] at h; cases h
          | ok label =>
            rw [hlabel] at h
            cases hstart : vertexId t.src with
            | error fault => rw [hstart] at h; cases h
            | ok start =>
              rw [hstart] at h
              cases hstop : vertexId t.dst with
              | error fault => rw [hstop] at h; cases h
              | ok stop =>
                rw [hstop] at h
                obtain rfl := Option.some.inj (Except.ok.inj h)
                rfl

/-! ### The result -/

/-- **What a compiled model makes of guards.** Whatever stands in a rule stands there for a transition.
Where that transition has a guard and does not leave a state, the predicate of the guard is on the way to
it, so that nothing of it is run while the predicate is false. The guard is also on its edge. -/
structure Compiled.Guarded (c : Compiled) : Prop where
  ofTransitions : ∀ r ∈ c.document.rules, ∃ state t, c.scope.RuleOf state t r
  origins : ∀ state t r predicates inner, c.scope.RuleOf state t r →
    Action.Inside r.actions predicates inner →
      ∃ turns last, c.scope.Leads t r.actions turns last inner ∧
        turns.map (·.predicate?) = predicates
  enclosed : ∀ state t r turns last inner guard, c.scope.RuleOf state t r →
    c.scope.Leads t r.actions turns last inner → last.attr? "Guard" = some guard →
    (∀ s ∈ c.machine.states, last.src.equal s.path = false) →
      some (guardPredicate guard) ∈ turns.map (·.predicate?) ∧
        ∀ truth, truth (guardPredicate guard) = false →
          ¬ Action.Runs truth r.actions (turns.map (·.predicate?)) inner
  runs : ∀ s d, d ∈ c.document.run s → ∃ r ∈ c.document.rules,
    s.appliesTo c.document.machineId r = true ∧ ∃ predicates inner,
      Action.Runs s.truth r.actions predicates inner ∧ Action.Effect c.document.machineId inner d
  drawn : ∀ t ∈ c.machine.transitions, ∀ guard e, t.attr? "Guard" = some guard →
    edgeOf c.machine t = .ok (some e) →
      ∃ start rest, e.label = start ++ guardLabel guard ++ rest

/-- **No guarded transition out of a choice runs unguarded.** -/
theorem Model.compile_guarded {model : Model} {appearance : Appearance} {c : Compiled}
    (hc : (model.compile appearance).result = .ok c) : c.Guarded := by
  obtain ⟨-, -, root, initial, rules, options, -, -, hrules, -, hdocument⟩ := compile_eq_ok.mp hc
  have hrules' : c.document.rules = rules := by rw [hdocument]
  refine ⟨fun r hr => ?_, fun state t r predicates inner hrule hinside => ?_,
    fun state t r turns last inner guard hrule hleads hguard hsource => ?_, fun s d hd => ?_,
    fun t _ guard e hguard hedge => ?_⟩
  · exact Scope.exists_ruleOf hrules (hrules' ▸ hr)
  -- actions that are given hold no decision; the others are resolved
  · rcases hrule.actions with ⟨own, hown⟩ | ⟨leaving, resolved, hactions, hresolved⟩
    · rw [hown] at hinside ⊢
      obtain ⟨rfl, rfl⟩ := hinside.of_given
      exact ⟨[], t, .here _ _, rfl⟩
    · rw [hactions] at hinside ⊢
      exact Scope.exists_leads_of_inside leaving hresolved hinside
  · -- the transition of the rule itself leaves the state of the rule
    have hnot : last ≠ t := by
      rintro rfl
      have hleaves := (List.mem_filter.mp hrule.leaves).2
      rw [hsource state hrule.mem] at hleaves
      cases hleaves
    have hmem : some (guardPredicate guard) ∈ turns.map (·.predicate?) := by
      rcases hrule.actions with ⟨own, hown⟩ | ⟨leaving, resolved, hactions, hresolved⟩
      · rw [hown] at hleads
        exact absurd hleads.of_given.2.1 hnot
      · rw [hactions] at hleads
        rcases Scope.guarded_of_leads leaving hresolved hleads hguard with ⟨-, heq⟩ | hmem
        · exact absurd heq hnot
        · exact hmem
    refine ⟨hmem, fun truth hfalse hruns => ?_⟩
    rw [hruns.predicate_true hmem] at hfalse
    cases hfalse
  -- what a document runs are the actions of the first rule that applies
  · rw [Document.run] at hd
    cases hfind : c.document.rules.find? (s.appliesTo c.document.machineId) with
    | none => rw [hfind] at hd; cases hd
    | some r =>
      rw [hfind] at hd
      exact ⟨r, List.mem_of_find?_eq_some hfind, (List.find?_eq_some_iff_append.mp hfind).1,
        Action.mem_listOutcome_iff.mp hd⟩
  · exact Transition.guardLabel_of_label hguard (label_of_edgeOf hedge)

/-- With the door locked, a push rings the bell and shuts it; with nothing true it is opened again, and
nothing under the predicate `locked` is run. -/
theorem Model.compile_guarded_door :
    ∃ c, doorModel.compile.result = .ok c ∧ c.Guarded ∧
      (c.document.run { current := "open_open", event := "push", truth := (· == "locked") }).map
          (fun d => (d.field? "data").bind (·.textOf? "option")) = [none, some "shut_shut"] ∧
      (c.document.run { current := "open_open", event := "push", truth := fun _ => false }).map
          (fun d => (d.field? "data").bind (·.textOf? "option")) = [none, some "open_open"] := by
  have hchecked : (doorModel.compile.result.toOption.map fun c =>
      ((c.document.run { current := "open_open", event := "push", truth := (· == "locked") }).map
          (fun d => (d.field? "data").bind (·.textOf? "option")) == [none, some "shut_shut"]) &&
        (c.document.run { current := "open_open", event := "push", truth := fun _ => false }).map
          (fun d => (d.field? "data").bind (·.textOf? "option")) == [none, some "open_open"])
        = some true := by
    decide +kernel
  -- the door is compiled, so the theorem applies
  cases hc : doorModel.compile.result with
  | error e => rw [hc] at hchecked; cases hchecked
  | ok c =>
    rw [hc] at hchecked
    simp only [Except.toOption, Option.map_some, Option.some.injEq, Bool.and_eq_true,
      beq_iff_eq] at hchecked
    exact ⟨c, rfl, compile_guarded hc, hchecked⟩

/-! ### Guards of transitions out of states -/

/-- A door that is opened by a push if it is not locked, which a guard on the transition out of the state
says. -/
def lockedModel : Model where
  root := .ref 0
  graph :=
    { cells := #[
        .map [(.str "objects", .ref 1)],
        .map [(.str "/door", .ref 2), (.str "/shut", .ref 3), (.str "/open", .ref 4),
          (.str "/push", .ref 5)],
        .map [(.str "type", .str "State Machine"), (.str "name", .str "Door")],
        .map [(.str "type", .str "State"), (.str "name", .str "Shut")],
        .map [(.str "type", .str "State"), (.str "name", .str "Open")],
        .map [(.str "type", .str "External Transition"), (.str "pointers", .ref 6),
          (.str "attributes", .ref 7)],
        .map [(.str "src", .str "/shut"), (.str "dst", .str "/open")],
        .map [(.str "Event", .str "push"), (.str "Guard", .str "[unlocked]")]] }

/-- A rule has conditions on its state and its event alone. -/
theorem Rule.predicate_not_mem_conditions (machineId : String) (r : Rule) {predicate : String}
    (hne : predicate ≠ eventExpression r.event) :
    templateCondition predicate ∉ (r.data machineId).conditions := by
  have hconditions : (r.data machineId).conditions
      = [stateCondition machineId r.state, eventCondition r.event] := rfl
  rw [hconditions, List.mem_cons, List.mem_singleton]
  -- the one condition is about a state, and the other one is a template about the event
  rintro (hstate | hevent)
  · have hkind := congrArg (·.textOf? "condition") hstate
    have htemplate : (templateCondition predicate).textOf? "condition" = some "template" := rfl
    have hselector : (stateCondition machineId r.state).textOf? "condition" = some "state" := rfl
    rw [htemplate, hselector] at hkind
    exact absurd hkind (by decide)
  · have hread := congrArg conditionExpression? hevent
    rw [eventCondition, conditionExpression?_templateCondition,
      conditionExpression?_templateCondition] at hread
    exact hne (Option.some.inj hread)

/-- The guard of a transition out of a state is neither among the conditions of its rule nor on the way to
its actions, which are run while its predicate is false. -/
theorem Model.guard_not_enclosed :
    ∃ c, lockedModel.compile.result = .ok c ∧
      (∃ state t r, r ∈ c.document.rules ∧ c.scope.RuleOf state t r ∧ t ∈ c.machine.transitions ∧
        t.kind = .external ∧ t.attr? "Guard" = some "[unlocked]" ∧
        c.scope.Leads t r.actions [] t r.actions ∧
        templateCondition (guardPredicate "[unlocked]")
          ∉ (r.data c.document.machineId).conditions) ∧
      (c.document.run { current := "shut_shut", event := "push", truth := fun _ => false }).map
          (fun d => (d.field? "data").bind (·.textOf? "option")) = [some "open_open"] := by
  have hchecked : (lockedModel.compile.result.toOption.map fun c =>
      c.document.rules.any (·.event == "push") &&
        c.document.rules.all (·.event == "push") &&
        c.machine.transitions.all (fun t =>
          t.kind == .external && t.attr? "Guard" == some "[unlocked]") &&
        (c.document.run { current := "shut_shut", event := "push", truth := fun _ => false }).map
          (fun d => (d.field? "data").bind (·.textOf? "option")) == [some "open_open"])
        = some true := by
    decide +kernel
  cases hc : lockedModel.compile.result with
  | error e => rw [hc] at hchecked; cases hchecked
  | ok c =>
    rw [hc] at hchecked
    simp only [Except.toOption, Option.map_some, Option.some.injEq, Bool.and_eq_true,
      List.any_eq_true, List.all_eq_true, beq_iff_eq] at hchecked
    obtain ⟨⟨⟨⟨r, hr, -⟩, hevents⟩, htransitions⟩, hrun⟩ := hchecked
    obtain ⟨-, -, root, initial, rules, options, -, -, hrules, -, hdocument⟩ := compile_eq_ok.mp hc
    have hrules' : c.document.rules = rules := by rw [hdocument]
    obtain ⟨state, t, hrule⟩ := Scope.exists_ruleOf hrules (hrules' ▸ hr)
    have ht := Machine.mem_of_mem_outgoing hrule.leaves
    obtain ⟨hkind, hguard⟩ := htransitions t ht
    refine ⟨c, rfl, ⟨state, t, r, hr, hrule, ht, hkind, hguard, .here _ _, ?_⟩, hrun⟩
    -- conditions of a rule are about its state and its event alone
    refine Rule.predicate_not_mem_conditions _ r ?_
    rw [hevents r hr]
    decide +kernel

end HomeAutomaton
