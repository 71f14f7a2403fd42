import HomeAutomaton.Proofs.Guarding
import Mathlib.Data.List.Perm.Basic

/-!
# The order of the rules

Of the rules that apply the first is run, so their order matters as soon as two of them apply at once.
Two rules apply at once exactly if they wait for the same event in the same state, which makes them rules
of two transitions out of one state (`Compiled.Ordered.origin`): no two states have one identifier. Nothing
keeps a model from having two such transitions; then the one that comes first in the model is taken, and
the order of their rules is the order in which they are tried.

* `firstSequence?` is what a list of rules does in a situation.
* `find?_of_filter_eq` and `map_find?_of_perm` are about any list that is searched: its order matters only
  among what is looked for, and there only if not all of it comes to the same.
* `Compiled.Ordered` says how far the rules of a compiled model can be rearranged, and
  `Model.compile_ordered` that it holds of every one.
* `Model.order_matters` is a lamp with two transitions on one event.
-/

namespace HomeAutomaton

/-! ### Searching a list that is rearranged -/

section Search

variable {α β : Type} {p : α → Bool} {as bs : List α}

/-- The order matters only among what is looked for. -/
theorem find?_of_filter_eq (h : as.filter p = bs.filter p) : as.find? p = bs.find? p := by
  rw [← List.head?_filter, ← List.head?_filter, h]

/-- If everything that is looked for comes to the same, the order does not matter. -/
theorem map_find?_of_perm {f : α → β} (hperm : as.Perm bs)
    (hsame : ∀ a ∈ bs, ∀ b ∈ bs, p a = true → p b = true → f a = f b) :
    (as.find? p).map f = (bs.find? p).map f := by
  cases has : as.find? p with
  | none =>
    -- what is found in one of the lists is in the other one too
    have hnone : bs.find? p = none := List.find?_eq_none.mpr fun b hb =>
      List.find?_eq_none.mp has b (hperm.mem_iff.mpr hb)
    rw [hnone]
  | some a =>
    have ha := hperm.mem_iff.mp (List.mem_of_find?_eq_some has)
    have hpa := List.find?_some has
    cases hbs : bs.find? p with
    | none => exact absurd hpa (List.find?_eq_none.mp hbs a ha)
    | some b =>
      have hb := List.mem_of_find?_eq_some hbs
      rw [Option.map_some, Option.map_some, hsame a ha b hb hpa (List.find?_some hbs)]

/-- Whatever is looked for comes first in some order. -/
theorem exists_perm_find? {a : α} (ha : a ∈ bs) (hpa : p a = true) :
    ∃ as : List α, as.Perm bs ∧ as.find? p = some a := by
  obtain ⟨before, after, rfl⟩ := List.append_of_mem ha
  exact ⟨a :: (before ++ after), List.perm_middle.symm, List.find?_cons_of_pos hpa⟩

end Search

/-! ### Rules that apply at once -/

/-- The rules wait for the same event in the same state: they have the same conditions. -/
def Rule.SameTrigger (r r' : Rule) : Prop := r.state = r'.state ∧ r.event = r'.event

/-- What the rules do in a situation: the sequence of the first one whose conditions all hold. -/
def firstSequence? (machineId : String) (rules : List Rule) (s : Situation) : Option (List Data) :=
  (rules.find? (s.appliesTo machineId)).map fun r => Action.listData machineId r.actions

namespace Situation

variable {machineId : String} {r r' : Rule}

/-- Two rules that apply at once have the same conditions. -/
theorem sameTrigger_of_appliesTo {s : Situation} (h : s.appliesTo machineId r = true)
    (h' : s.appliesTo machineId r' = true) : r.SameTrigger r' := by
  simp only [appliesTo_eq, Bool.and_eq_true, beq_iff_eq] at h h'
  exact ⟨h.1.trans h'.1.symm, h.2.trans h'.2.symm⟩

/-- The situation in which a rule applies. -/
def ofRule (r : Rule) : Situation :=
  { current := r.state, event := r.event, truth := fun _ => false }

/-- In the situation of a rule those rules apply that have the same conditions. -/
theorem appliesTo_ofRule :
    (ofRule r).appliesTo machineId r' = true ↔ r'.SameTrigger r := by
  rw [appliesTo_eq, Bool.and_eq_true, beq_iff_eq, beq_iff_eq]
  exact Iff.rfl

end Situation

/-- Rules can be put into any order exactly if those with the same conditions do the same. -/
theorem firstSequence?_perm_iff {machineId : String} {rules : List Rule} :
    (∀ rules' : List Rule, rules'.Perm rules → ∀ s,
        firstSequence? machineId rules' s = firstSequence? machineId rules s) ↔
      ∀ r ∈ rules, ∀ r' ∈ rules, r.SameTrigger r' →
        Action.listData machineId r.actions = Action.listData machineId r'.actions := by
  constructor
  · intro h r hr r' hr' htrigger
    -- each of the two comes first in some order, and no order makes a difference
    have hself : (Situation.ofRule r').appliesTo machineId r' = true :=
      Situation.appliesTo_ofRule.mpr ⟨rfl, rfl⟩
    have hother : (Situation.ofRule r').appliesTo machineId r = true :=
      Situation.appliesTo_ofRule.mpr htrigger
    obtain ⟨front, hfront, hfirst⟩ := exists_perm_find? hr hother
    obtain ⟨front', hfront', hfirst'⟩ := exists_perm_find? hr' hself
    have heq := (h front hfront (.ofRule r')).trans (h front' hfront' (.ofRule r')).symm
    rw [firstSequence?, firstSequence?, hfirst, hfirst'] at heq
    exact Option.some.inj heq
  · intro h rules' hperm s
    exact map_find?_of_perm hperm fun r hr r' hr' happlies happlies' =>
      h r hr r' hr' (Situation.sameTrigger_of_appliesTo happlies happlies')

/-! ### The rules of a machine -/

namespace Scope

variable {scope : Scope}

/-- The rule of a transition is for the event of the transition, and the transition reacts to it. -/
theorem RuleOf.reacts {state : Node} {t : Transition} {r : Rule} (h : scope.RuleOf state t r) :
    scope.reacts state r.event t = true := by
  rcases rule_of_transition "" (fun _ => false) r.event h.rule with ⟨hreacts, -⟩ | ⟨-, hother⟩
  · exact hreacts
  · exact absurd rfl (hother r rfl)

/-- No state has two transitions that react to one event. -/
def Deterministic (scope : Scope) : Prop :=
  ∀ state ∈ scope.machine.states, ∀ t ∈ scope.machine.outgoing state.path,
    ∀ t' ∈ scope.machine.outgoing state.path, ∀ event,
      scope.reacts state event t = true → scope.reacts state event t' = true → t = t'

end Scope

/-- **How far rules can be rearranged.** In every situation a list of the rules does the same as the
document, as long as rules with the same conditions stay in their order; all orders do the same exactly if
rules with the same conditions have the same sequence. Such rules are those of transitions out of one state
that react to one event, so that every order does if no state has two of them. -/
structure Compiled.Ordered (c : Compiled) : Prop where
  stable : ∀ rules : List Rule, rules.Perm c.document.rules →
    (∀ state event, (rules.filter fun r => r.state == state && r.event == event)
      = c.document.rules.filter fun r => r.state == state && r.event == event) →
    ∀ s, firstSequence? c.document.machineId rules s
      = firstSequence? c.document.machineId c.document.rules s
  free_iff : (∀ rules : List Rule, rules.Perm c.document.rules → ∀ s,
      firstSequence? c.document.machineId rules s
        = firstSequence? c.document.machineId c.document.rules s) ↔
    ∀ r ∈ c.document.rules, ∀ r' ∈ c.document.rules, r.SameTrigger r' →
      Action.listData c.document.machineId r.actions
        = Action.listData c.document.machineId r'.actions
  origin : ∀ r ∈ c.document.rules, ∀ r' ∈ c.document.rules, r.SameTrigger r' →
    ∃ state t t', c.scope.RuleOf state t r ∧ c.scope.RuleOf state t' r' ∧
      c.scope.reacts state r.event t = true ∧ c.scope.reacts state r.event t' = true
  deterministic : c.scope.Deterministic → ∀ rules : List Rule, rules.Perm c.document.rules →
    ∀ s, firstSequence? c.document.machineId rules s
      = firstSequence? c.document.machineId c.document.rules s

/-- Rules with the same conditions are those of transitions out of one state that react to one event. -/
theorem Model.exists_ruleOf_of_sameTrigger {model : Model} {appearance : Appearance} {c : Compiled}
    (hc : (model.compile appearance).result = .ok c) {r r' : Rule} (hr : r ∈ c.document.rules)
    (hr' : r' ∈ c.document.rules) (htrigger : r.SameTrigger r') :
    ∃ state t t', c.scope.RuleOf state t r ∧ c.scope.RuleOf state t' r' ∧
      c.scope.reacts state r.event t = true ∧ c.scope.reacts state r.event t' = true := by
  obtain ⟨-, hidentifiers, root, initial, rules, options, -, -, hrules, -, hdocument⟩ :=
    compile_eq_ok.mp hc
  have hrules' : c.document.rules = rules := by rw [hdocument]
  obtain ⟨state, t, hrule, hid⟩ := Scope.exists_identified_ruleOf hrules (hrules' ▸ hr)
  obtain ⟨state', t', hrule', hid'⟩ := Scope.exists_identified_ruleOf hrules (hrules' ▸ hr')
  -- one identifier is one state, whatever the paths are
  rw [← htrigger.1] at hid'
  obtain rfl : state = state' := eq_of_identified (c.machine.distinct.sublist List.filter_sublist)
    hidentifiers hrule.mem hrule'.mem hid hid'
  exact ⟨state, t, t', hrule, hrule', hrule.reacts, htrigger.2 ▸ hrule'.reacts⟩

/-- **The order of rules matters only between transitions of one state and one event.** -/
theorem Model.compile_ordered {model : Model} {appearance : Appearance} {c : Compiled}
    (hc : (model.compile appearance).result = .ok c) : c.Ordered := by
  refine ⟨fun rules _ hkept s => ?_, firstSequence?_perm_iff,
    fun r hr r' hr' htrigger => exists_ruleOf_of_sameTrigger hc hr hr' htrigger, fun hdet => ?_⟩
  · -- what applies in the situation are the rules of its state and event
    have hfilter : rules.filter (s.appliesTo c.document.machineId)
        = c.document.rules.filter (s.appliesTo c.document.machineId) := by
      rw [funext (s.appliesTo_eq c.document.machineId)]
      exact hkept s.current s.event
    rw [firstSequence?, firstSequence?, find?_of_filter_eq hfilter]
  · refine firstSequence?_perm_iff.mpr fun r hr r' hr' htrigger => ?_
    obtain ⟨state, t, t', hrule, hrule', hreacts, hreacts'⟩ :=
      exists_ruleOf_of_sameTrigger hc hr hr' htrigger
    obtain rfl := hdet state hrule.mem t hrule.leaves t' hrule'.leaves r.event hreacts hreacts'
    -- one transition has one rule
    have heq := hrule.rule.symm.trans (htrigger.1 ▸ hrule'.rule)
    rw [Option.some.inj (Except.ok.inj heq)]

/-! ### A lamp -/

/-- A lamp that is turned on by a press; a press while it is on leaves it on or turns it off, for both of
which there is a transition. -/
def lampModel : Model where
  root := .ref 0
  graph :=
    { cells := #[
        .map [(.str "objects", .ref 1)],
        .map [(.str "/lamp", .ref 2), (.str "/on", .ref 3), (.str "/off", .ref 4),
          (.str "/dim", .ref 5), (.str "/quit", .ref 6), (.str "/start", .ref 7)],
        .map [(.str "type", .str "State Machine"), (.str "name", .str "Lamp")],
        .map [(.str "type", .str "State"), (.str "name", .str "On")],
        .map [(.str "type", .str "State"), (.str "name", .str "Off")],
        .map [(.str "type", .str "External Transition"), (.str "pointers", .ref 8),
          (.str "attributes", .ref 11)],
        .map [(.str "type", .str "External Transition"), (.str "pointers", .ref 9),
          (.str "attributes", .ref 11)],
        .map [(.str "type", .str "External Transition"), (.str "pointers", .ref 10),
          (.str "attributes", .ref 11)],
        .map [(.str "src", .str "/on"), (.str "dst", .str "/on")],
        .map [(.str "src", .str "/on"), (.str "dst", .str "/off")],
        .map [(.str "src", .str "/off"), (.str "dst", .str "/on")],
        .map [(.str "Event", .str "press")]] }

/-- The state that the first action of a list of rules leads into, when the lamp is on and is pressed. -/
def firstTarget? (machineId : String) (rules : List Rule) : Option String := do
  let sequence ← firstSequence? machineId rules
    { current := "on_on", event := "press", truth := fun _ => false }
  let call ← sequence.head?
  (← call.field? "data").textOf? "option"

/-- The rules of the lamp, and where a press leads with them and with their reverse. -/
theorem lampModel_compile :
    (lampModel.compile.result.toOption.map fun c =>
      ((c.document.rules.map fun r => (r.state, r.event))
          == [("on_on", "press"), ("on_on", "press"), ("off_off", "press")]) &&
        (firstTarget? c.document.machineId c.document.rules.reverse == some "off_off") &&
        (firstTarget? c.document.machineId c.document.rules == some "on_on")) = some true := by
  decide +kernel

/-- The rule for the lamp that is off can be moved to the front, since the other two stay in their
order. -/
theorem Model.compile_ordered_lamp :
    ∃ c, lampModel.compile.result = .ok c ∧ c.Ordered ∧
      ∃ rules : List Rule, rules.Perm c.document.rules ∧
        rules.map (·.state) = ["off_off", "on_on", "on_on"] ∧
        ∀ s, firstSequence? c.document.machineId rules s
          = firstSequence? c.document.machineId c.document.rules s := by
  obtain ⟨c, hc, hchecked⟩ := Returns.of_check lampModel_compile
  simp only [Bool.and_eq_true, beq_iff_eq] at hchecked
  have hordered := compile_ordered hc
  -- there are three rules, one of them for the lamp that is off
  obtain ⟨dim, quit, start, hrules⟩ : ∃ dim quit start, c.document.rules = [dim, quit, start] :=
    List.length_eq_three.mp (by simpa using congrArg List.length hchecked.1.1)
  rw [hrules] at hchecked
  simp only [List.map_cons, List.map_nil, List.cons.injEq, Prod.mk.injEq] at hchecked
  obtain ⟨⟨⟨⟨hdim, -⟩, ⟨hquit, -⟩, ⟨hstart, -⟩, -⟩, -⟩, -⟩ := hchecked
  have hperm : [start, dim, quit].Perm c.document.rules := by
    rw [hrules]
    exact (List.perm_append_singleton start [dim, quit]).symm
  refine ⟨c, hc, hordered, [start, dim, quit], hperm, by simp [hdim, hquit, hstart],
    hordered.stable _ hperm fun state event => ?_⟩
  -- either the rule that was moved is left out on both sides, or the other two are
  rw [hrules]
  by_cases hstate : state = "off_off"
  · simp [hstate, List.filter_cons, hdim, hquit, hstart]
  · have hnot : ¬ "off_off" = state := fun h => hstate h.symm
    simp [List.filter_cons, hstart, hnot]

/-- A press while the lamp is on does one thing or another, depending on the order of the rules. -/
theorem Model.order_matters :
    ∃ c, lampModel.compile.result = .ok c ∧ ∃ rules : List Rule, rules.Perm c.document.rules ∧
      ∃ s, firstSequence? c.document.machineId rules s
        ≠ firstSequence? c.document.machineId c.document.rules s := by
  obtain ⟨c, hc, hchecked⟩ := Returns.of_check lampModel_compile
  simp only [Bool.and_eq_true, beq_iff_eq] at hchecked
  refine ⟨c, hc, c.document.rules.reverse, List.reverse_perm _,
    { current := "on_on", event := "press", truth := fun _ => false }, fun heq => ?_⟩
  -- backwards the rules turn the lamp off, in their own order they leave it on
  have htarget : firstTarget? c.document.machineId c.document.rules.reverse
      = firstTarget? c.document.machineId c.document.rules := by
    rw [firstTarget?, heq, firstTarget?]
  rw [hchecked.1.2, hchecked.2] at htarget
  exact absurd htarget (by decide)

end HomeAutomaton
