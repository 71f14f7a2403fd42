import HomeAutomaton.Proofs.Mentions
import HomeAutomaton.Proofs.Refusal
import HomeAutomaton.Proofs.Reporting

/-!
# Transitions that nobody looks at

Rules are made by going through the states. So a transition out of a state that is triggered by an event is
accounted for: it has a rule, or it does nothing, and then it is reported that its rule is dropped. A
transition that leads out of no state and no choice is never looked at. It has no rule, and no diagnostic
names it; this is so if its source is missing from the model or is the machine itself. A destination that is
missing is reported, but a source is not.

* `Scope.rule?_of_event` says what becomes of a transition out of a state.
* `Compiled.Accounts` says what becomes of all transitions, and `Model.compile_accounts` that it holds of every
  well-typed model.
* `Model.stray_unmentioned` is a lamp with a misspelt source.
-/

namespace HomeAutomaton

/-- What leads out of a node that is found is among what leads out of it at its path. -/
theorem Machine.WellFormed.mem_outgoing_of_find? {m : Machine} (h : m.WellFormed) {n : Node}
    {t : Transition} (ht : t ∈ m.transitions) (hfind : m.find? t.src = some n) : t ∈ m.outgoing n.path := by
  obtain ⟨hn, hpath⟩ := (Machine.find?_eq_some_iff h.paths).mp hfind
  have hequal := (Data.IsTextOrNull.equal_iff (h.sources t ht) (h.paths n hn)).mpr hpath.symm
  exact List.mem_filter.mpr ⟨ht, by rw [hequal]; rfl⟩

namespace Scope

variable {scope : Scope} {state : Node} {stateId event : String} {t : Transition}

/-- A transition that an event triggers has a rule, or does nothing and its rule is dropped. -/
theorem rule?_of_event {r? : Option Rule} (h : (scope.rule? state stateId t).result = .ok r?)
    (hkind : t.kind ≠ .initial) (hevent : t.event? = .ok (some event)) :
    (∃ r, r? = some r) ∨
      scope.Idle state t ∧ .ruleDropped stateId event ∈ (scope.rule? state stateId t).log := by
  rw [rule?, hevent, Logged.liftM_ok, Logged.bind_done] at h ⊢
  obtain ⟨actions?, hactions, h⟩ := Logged.bind_eq_ok.mp h
  -- a kind that is not triggered, no action, or some
  rcases actions? with _ | _ | ⟨a, actions⟩
  · exact absurd (kind_of_actionsFrom hactions) hkind
  · exact .inr ⟨hactions, Logged.mem_log_bind_of_ok hactions List.mem_cons_self⟩
  · exact .inl ⟨_, (Except.ok.inj h).symm⟩

/-- What is reported of one transition is reported of the machine. -/
theorem mem_log_rules {rules : List Rule} (hrules : scope.rules.result = .ok rules)
    (hstate : state ∈ scope.machine.states) (ht : t ∈ scope.machine.outgoing state.path) :
    ∃ stateId r?, scope.identifiers.get? state.path = some stateId ∧
      (scope.rule? state stateId t).result = .ok r? ∧
      ∀ d ∈ (scope.rule? state stateId t).log, d ∈ scope.rules.log := by
  -- rules are made state by state, and for each state transition by transition
  obtain ⟨lists, hlists, -⟩ := Logged.bind_eq_ok.mp hrules
  obtain ⟨own, -, hown⟩ := (Logged.mapM_mem hlists).2 state hstate
  obtain ⟨stateId, hid, hmade⟩ := Logged.bind_eq_ok.mp hown
  obtain ⟨rules?, hrules?, -⟩ := Logged.bind_eq_ok.mp hmade
  obtain ⟨r?, -, hr?⟩ := (Logged.mapM_mem hrules?).2 t ht
  refine ⟨stateId, r?, get?_of_identifierAt hid, hr?, fun d hd => ?_⟩
  -- reports go the same way up
  have hown : d ∈ (scope.rulesOf state).log :=
    Logged.mem_log_bind_of_ok hid (Logged.mem_log_bind ((Logged.mem_log_mapM hrules?).mpr ⟨t, ht, hd⟩))
  exact Logged.mem_log_bind ((Logged.mem_log_mapM hlists).mpr ⟨state, hstate, hown⟩)

/-- The rule of a transition has an entry with the position of the transition. -/
theorem exists_entry {i : ℕ} {r : Rule} (hstate : state ∈ scope.machine.states)
    (hi : scope.machine.transitions[i]? = some t) (ht : t ∈ scope.machine.outgoing state.path)
    (hid : scope.identifiers.get? state.path = some stateId)
    (hr : (scope.rule? state stateId t).result = .ok (some r)) :
    ∃ e ∈ scope.entries, e.transition = i ∧ e.rule = r := by
  obtain ⟨k, hk⟩ := List.mem_iff_getElem?.mp hstate
  have hleaves := (Bool.and_eq_true_iff.mp (List.mem_filter.mp ht).2).1
  have hat : scope.ruleAt? state t = some r := by
    rw [ruleAt?, if_pos hleaves, hid, Option.getD_some, hr]
    rfl
  exact ⟨{ state := k, transition := i, rule := r }, mem_entries_iff.mpr ⟨state, t, hk, hi, hat⟩, rfl, rfl⟩

/-- Only a transition out of a state has an entry. -/
theorem owned_of_entry (hformed : scope.machine.WellFormed) {e : RuleEntry} (he : e ∈ scope.entries)
    (hi : scope.machine.transitions[e.transition]? = some t) : scope.machine.Owned t := by
  obtain ⟨state, t', hstate, ht', hat⟩ := mem_entries_iff.mp he
  obtain rfl := Option.some.inj (hi.symm.trans ht')
  obtain ⟨hnode, hisState⟩ := List.mem_filter.mp (List.mem_of_getElem? hstate)
  unfold ruleAt? at hat
  by_cases hleaves : t.src.equal state.path = true
  · have ht : t ∈ scope.machine.outgoing state.path :=
      List.mem_filter.mpr ⟨List.mem_of_getElem? hi, by rw [hleaves]; rfl⟩
    exact ⟨state, hformed.find?_of_mem_outgoing hnode ht, .inl hisState⟩
  · rw [if_neg hleaves] at hat
    cases hat

end Scope

/-! ### Compiled models -/

/-- What becomes of the transitions of a compiled model that are no initial ones. -/
structure Compiled.Accounts (c : Compiled) (log : List Diagnostic) : Prop where
  /-- The entries are the rules of the document, with the transitions that they are made of. -/
  rules : c.scope.entries.map (·.rule) = c.document.rules
  /-- Out of a state there is a rule, or it is reported that it is dropped. -/
  ofState : ∀ (i : ℕ) (t : Transition) (state : Node) (event : String),
    c.machine.transitions[i]? = some t → t.kind ≠ .initial → t.event? = .ok (some event) →
    c.machine.find? t.src = some state → state.isState = true →
      (∃ e ∈ c.scope.entries, e.transition = i ∧ c.scope.RuleFor state t e.rule) ∨
        c.scope.Idle state t ∧ ∃ stateId, c.identifiers.get? state.path = some stateId ∧
          .ruleDropped stateId event ∈ log
  /-- Out of no state and no choice there is neither; if the transition is named, then another one of the same
  name is meant. -/
  stray : ∀ (i : ℕ) (t : Transition), c.machine.transitions[i]? = some t → t.kind ≠ .initial →
    ¬ c.machine.Owned t →
      (∀ e ∈ c.scope.entries, e.transition ≠ i) ∧
        ∀ d ∈ log, d.title? = some t.title →
          ∃ other ∈ c.machine.transitions, other ≠ t ∧ other.title = t.title

/-- The machine of a well-typed model is well formed, with its start markers taken into account. -/
theorem Model.wellFormed_of_machine {model : Model} (h : model.WellTyped) {m : Machine}
    (hm : model.machine.result = .ok m) : m.WellFormed := by
  obtain ⟨raw, hraw, -, hmarked⟩ := exists_of_machine hm
  have hends := rawMachine_wellTyped h
  rw [Logged.Ends, hraw] at hends
  obtain ⟨hformed, -⟩ := hends
  obtain ⟨m', hmarked', hnodes, htransitions⟩ := Machine.markInitial_returns hformed
  obtain rfl := Except.ok.inj (hmarked.symm.trans hmarked')
  exact hformed.marked hnodes htransitions

/-- What is reported of the rules is reported of the model. -/
theorem Model.mem_log_compile {model : Model} {appearance : Appearance} {c : Compiled}
    (hc : (model.compile appearance).result = .ok c) {d : Diagnostic} (hd : d ∈ c.scope.rules.log) :
    d ∈ (model.compile appearance).log := by
  obtain ⟨hm, hidentifiers, root, initial, rules, options, hroot, hinitial, -⟩ := compile_eq_ok.mp hc
  refine Logged.mem_log_bind_of_ok hm ?_
  rw [hroot]
  exact Logged.mem_log_bind_of_ok hidentifiers
    (Logged.mem_log_bind_of_ok hinitial (Logged.mem_log_bind hd))

/-- **What becomes of transitions.** In a well-typed model that is compiled, a transition that an event
triggers is accounted for by a rule or a report if it leads out of a state. If it leads out of no state and no
choice, there is neither. -/
theorem Model.compile_accounts {model : Model} (h : model.WellTyped) {appearance : Appearance} {c : Compiled}
    (hc : (model.compile appearance).result = .ok c) : c.Accounts (model.compile appearance).log := by
  obtain ⟨hm, -, root, initial, rules, options, -, -, hrules, -, hdocument⟩ := compile_eq_ok.mp hc
  have hformed : c.scope.machine.WellFormed := wellFormed_of_machine h hm
  refine { rules := ?rules, ofState := ?ofState, stray := ?stray }
  -- the rules of the document are those that the scope of the model makes
  case rules =>
    rw [Scope.map_rule_entries hrules, hdocument]
  case ofState =>
    intro i t state event hi hkind hevent hfind hisState
    -- the source is a state, so the transition is looked at when the rules of this state are made
    have hstate : state ∈ c.scope.machine.states :=
      List.mem_filter.mpr ⟨(Machine.find?_eq_some hfind).1, hisState⟩
    have ht := hformed.mem_outgoing_of_find? (List.mem_of_getElem? hi) hfind
    obtain ⟨stateId, r?, hid, hr?, hlog⟩ := Scope.mem_log_rules hrules hstate ht
    -- there is a rule, which has its entry, or it is dropped, which is reported
    rcases Scope.rule?_of_event hr? hkind hevent with ⟨r, rfl⟩ | ⟨hidle, hdropped⟩
    · obtain ⟨e, he, htransition, rfl⟩ := Scope.exists_entry hstate hi ht hid hr?
      obtain ⟨rfl, hevent', hactions, -⟩ := Scope.rule?_eq_some_iff.mp hr?
      exact .inl ⟨e, he, htransition, hid, hevent', hactions⟩
    · exact .inr ⟨hidle, stateId, hid, mem_log_compile hc (hlog _ hdropped)⟩
  case stray =>
    intro i t hi hkind hstray
    refine ⟨?_, fun d hd htitle => ?_⟩
    -- an entry belongs to a state, and that would be the source
    · rintro e he rfl
      exact hstray (Scope.owned_of_entry hformed he hi)
    -- a report with a title is about a transition that is looked at
    · obtain ⟨other, hother, hsame, hlooked⟩ := compile_names appearance hm hformed d hd _ htitle
      refine ⟨other, hother, ?_, hsame⟩
      -- what is looked at is not this one
      rintro rfl
      exact hlooked.elim hkind hstray

/-! ### A misspelt source -/

/-- A lamp that is turned off by a press. The transition that would turn it on again leads out of `/of`, which
is no state. -/
def strayLampModel : Model where
  root := .ref 0
  graph :=
    { cells := #[
        .map [(.str "objects", .ref 1)],
        .map [(.str "/lamp", .ref 2), (.str "/on", .ref 3), (.str "/off", .ref 4),
          (.str "/dim", .ref 5), (.str "/light", .ref 6)],
        .map [(.str "type", .str "State Machine"), (.str "name", .str "Lamp")],
        .map [(.str "type", .str "State"), (.str "name", .str "On")],
        .map [(.str "type", .str "State"), (.str "name", .str "Off")],
        .map [(.str "type", .str "External Transition"), (.str "pointers", .ref 7),
          (.str "attributes", .ref 9)],
        .map [(.str "type", .str "External Transition"), (.str "pointers", .ref 8),
          (.str "attributes", .ref 9)],
        .map [(.str "src", .str "/on"), (.str "dst", .str "/off")],
        .map [(.str "src", .str "/of"), (.str "dst", .str "/on")],
        .map [(.str "Event", .str "press")]] }

theorem strayLampModel_wellTyped : strayLampModel.WellTyped := by
  refine .inl ⟨_, rfl, ?_⟩
  simp only [List.forall_mem_cons, Data.isText_str, true_and]
  have hnull : Value.null.IsTextOrNull := .inl rfl
  have htext : ∀ s, (Value.str s).IsTextOrNull := fun s => .inr ⟨s, rfl⟩
  refine ⟨?_, ?_, ?_, ?_, ?_, fun _ h => absurd h List.not_mem_nil⟩ <;> rintro _ ⟨⟩
  -- three nodes, and two transitions with pointers
  · exact ⟨hnull, hnull, htext _, .inl rfl, .inl rfl⟩
  · exact ⟨hnull, hnull, htext _, .inl rfl, .inl rfl⟩
  · exact ⟨hnull, hnull, htext _, .inl rfl, .inl rfl⟩
  · exact ⟨hnull, hnull, hnull, .inr ⟨_, rfl⟩, .inr ⟨_, rfl, .inl (htext _), .inl (htext _)⟩⟩
  · exact ⟨hnull, hnull, hnull, .inr ⟨_, rfl⟩, .inr ⟨_, rfl, .inl (htext _), .inl (htext _)⟩⟩

/-- The transitions of the lamp are accounted for. -/
theorem Model.compile_accounts_lamp :
    strayLampModel.WellTyped ∧ ∃ c, strayLampModel.compile.result = .ok c ∧
      c.Accounts strayLampModel.compile.log := by
  have hreturns : (strayLampModel.compile.result.toOption.map fun _ => true) = some true := by
    decide +kernel
  obtain ⟨c, hc, -⟩ := Returns.of_check hreturns
  exact ⟨strayLampModel_wellTyped, c, hc, compile_accounts strayLampModel_wellTyped hc⟩

/-- The lamp is never turned on. The second transition has an event, and its destination is a state; but the
one rule is that of the first, and no message says anything of the second. -/
theorem Model.stray_unmentioned :
    strayLampModel.WellTyped ∧ ∃ c, strayLampModel.compile.result = .ok c ∧
      (∃ t, c.machine.transitions[1]? = some t ∧ t.kind = .external ∧ t.event? = .ok (some "press") ∧
        t.src.str? = some "/of" ∧ c.machine.find? t.src = none) ∧
      c.scope.entries.map (·.transition) = [0] ∧
      strayLampModel.compile.log.map Diagnostic.message =
        ["Indexed 3 nodes and 2 transitions",
          "No initial transition found, the state selector gets no initial value",
          "Compiled 'Lamp': 2 states, 1 rules"] := by
  -- the second transition, the entries and the messages are computed
  have hchecked : (strayLampModel.compile.result.toOption.map fun c =>
      (c.machine.transitions[1]?.map fun t =>
        t.kind == .external && (t.event?.toOption.map (· == some "press")) == some true &&
          t.src.str? == some "/of" && (c.machine.find? t.src).isNone) == some true &&
        c.scope.entries.map (·.transition) == [0]) = some true := by
    decide +kernel
  have hlog : strayLampModel.compile.log.map Diagnostic.message =
      ["Indexed 3 nodes and 2 transitions",
        "No initial transition found, the state selector gets no initial value",
        "Compiled 'Lamp': 2 states, 1 rules"] := by
    decide +kernel
  obtain ⟨c, hc, hchecked⟩ := Returns.of_check hchecked
  obtain ⟨hstray, hentries⟩ := Bool.and_eq_true_iff.mp hchecked
  obtain ⟨t, ht, hstray⟩ := Option.map_eq_some_iff.mp (eq_of_beq hstray)
  simp only [Bool.and_eq_true, beq_iff_eq, Option.isNone_iff_eq_none] at hstray
  obtain ⟨⟨⟨hkind, hevent⟩, hsrc⟩, hnone⟩ := hstray
  obtain ⟨event?, hevent, hpress⟩ := Returns.of_check hevent
  obtain rfl := eq_of_beq hpress
  exact ⟨strayLampModel_wellTyped, c, hc, ⟨t, ht, hkind, hevent, hsrc, hnone⟩, eq_of_beq hentries, hlog⟩

end HomeAutomaton
