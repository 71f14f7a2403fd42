import HomeAutomaton.Proofs.Guarding

/-!
# Records among the actions

An action of the home-automation system is a record: a mapping of fields. The compiler's own actions are,
but it passes on what fragments hold, and of a fragment only the outermost value is looked at. A fragment
that is a sequence is taken for a list of actions whatever its items are, and nothing is reported; only a
fragment that is neither a mapping nor a sequence is.

* `Fragment.Proper` says that a fragment which is a sequence has mappings for its items.
* `Scope.fragmentsIn` are the fragments whose actions stand in one list of a rule, and
  `Scope.RuleOf.given_eq` says that these actions are all that the list holds besides the compiler's own.
* `Compiled.Recorded` says where in the document something else than a record stands, and
  `Model.compile_recorded` that it holds of every compiled model.
* `Model.item_not_record` is a lamp one of whose actions is a text.
-/

namespace HomeAutomaton

/-! ### Mappings -/

/-- Is the value a mapping? -/
def Data.isMapping : Data → Bool
  | map _ => true
  | _ => false

/-- What is given by a fragment, if the action is. -/
def Action.given? : Action → Option Data
  | given d => some d
  | _ => none

namespace Action

variable {machineId : String}

@[simp] theorem filterMap_given? (ds : List Data) : (ds.map given).filterMap given? = ds := by
  rw [List.filterMap_map]
  exact List.filterMap_some

theorem mem_listData {actions : List Action} {d : Data} :
    d ∈ listData machineId actions ↔ ∃ a ∈ actions, a.data machineId = d := by
  induction actions with
  | nil => simp [listData]
  | cons a rest ih => simp [listData, ih, eq_comm]

/-- The compiler's own actions are mappings. -/
theorem isMapping_data_of_given?_eq_none {a : Action} (h : a.given? = none) :
    (a.data machineId).isMapping = true := by
  cases a with
  | given d => cases h
  | setState stateId => rfl
  | choose options default? => rw [data.eq_def]; rfl

/-- What of a list is not a mapping was given by a fragment. -/
theorem forall_isMapping_iff {actions : List Action} :
    (∀ d ∈ listData machineId actions, d.isMapping = true) ↔
      ∀ d ∈ actions.filterMap given?, d.isMapping = true := by
  constructor
  · intro h d hd
    obtain ⟨a, ha, hgiven⟩ := List.mem_filterMap.mp hd
    refine h d (mem_listData.mpr ⟨a, ha, ?_⟩)
    -- only a given action is one that a fragment gave
    cases a with
    | given d' => rw [data]; exact Option.some.inj hgiven
    | setState stateId => cases hgiven
    | choose options default? => cases hgiven
  · intro h d hd
    obtain ⟨a, ha, rfl⟩ := mem_listData.mp hd
    cases hgiven : a.given? with
    | none => exact isMapping_data_of_given?_eq_none hgiven
    | some d =>
      cases a with
      | given d' =>
        rw [data]
        exact h d' (List.mem_filterMap.mpr ⟨_, ha, rfl⟩)
      | setState stateId => cases hgiven
      | choose options default? => cases hgiven

end Action

/-- What is written out as a mapping is a reference to one that it does not stand in. -/
theorem Graph.isMapping_dataWithin (g : Graph) (depth : Nat) (around : List Nat) (v : Value) :
    (g.dataWithin (depth + 1) around v).isMapping = true ↔
      ∃ label entries, v = .ref label ∧ label ∉ around ∧ g.cell? label = some (.map entries) := by
  cases v with
  | ref label =>
    rw [dataWithin]
    by_cases haround : label ∈ around
    · have hsome : around.idxOf? label ≠ none := mt List.idxOf?_eq_none_iff.mp (not_not.mpr haround)
      obtain ⟨i, hi⟩ := Option.ne_none_iff_exists'.mp hsome
      simp [hi, haround, Data.isMapping]
    · rw [List.idxOf?_eq_none_iff.mpr haround]
      cases hcell : g.cell? label with
      | none => simp [Data.isMapping, hcell]
      | some cell => cases cell <;> simp [Data.isMapping, haround, hcell]
  | _ => simp [dataWithin, Data.isMapping]

/-- A model that is written out as a list is a reference to one. -/
theorem Model.data_eq_list {m : Model} {items : List Data} (h : m.data = .list items) :
    ∃ label values, m.root = .ref label ∧ m.graph.cell? label = some (.list values) ∧
      items = values.map (m.graph.dataWithin m.graph.cells.size [label]) := by
  rw [data, Graph.data] at h
  cases hroot : m.root with
  | ref label =>
    rw [hroot, Graph.dataWithin] at h
    cases hcell : m.graph.cell? label with
    | none => simp [hcell] at h
    | some cell =>
      -- only a list is written out as one
      cases cell with
      | list values =>
        simp only [hcell, List.idxOf?_nil, Data.list.injEq] at h
        exact ⟨label, values, rfl, hcell, h.symm⟩
      | _ => simp [hcell] at h
  | _ => simp [hroot, Graph.dataWithin] at h

/-- The same where the values in the list are known. -/
theorem Model.root_of_list {m : Model} {items : List Data} {values : List Value}
    (hdata : m.data = .list items) (hvalues : m.graph.deref? m.root = some (.list values)) :
    ∃ label, m.root = .ref label ∧ m.graph.cell? label = some (.list values) ∧
      items = values.map (m.graph.dataWithin m.graph.cells.size [label]) := by
  obtain ⟨label, values', hroot, hcell, hitems⟩ := data_eq_list hdata
  rw [hroot, Graph.deref?, hcell] at hvalues
  obtain rfl := Cell.list.inj (Option.some.inj hvalues)
  exact ⟨label, hroot, hcell, hitems⟩

/-! ### What a fragment gives -/

namespace Fragment

variable {text : Option String} {m : Model} {place : Place}

/-- The value that a fragment holds. -/
def Holds (text : Option String) (m : Model) : Prop :=
  ∃ s, text = some s ∧ Text.isBlankText s = false ∧ Model.ofYaml s = .ok m

/-- If the fragment is a sequence, its items are mappings. -/
def Proper (text : Option String) : Prop :=
  ∀ m items, Holds text m → m.data = .list items → ∀ d ∈ items, d.isMapping = true

theorem Holds.unique {m' : Model} (h : Holds text m) (h' : Holds text m') : m = m' := by
  obtain ⟨s, rfl, -, hm⟩ := h
  obtain ⟨s', heq, -, hm'⟩ := h'
  obtain rfl := Option.some.inj heq
  exact Except.ok.inj (hm.symm.trans hm')

/-- Reading a fragment is reading the value that it holds. -/
theorem Holds.read_eq (h : Holds text m) :
    ∃ s, text = some s ∧ ∀ place, read place (ofAttribute text) = ofModel place s m := by
  obtain ⟨s, rfl, hblank, hm⟩ := h
  refine ⟨s, rfl, fun place => ?_⟩
  have hattribute : ofAttribute (some s) = .str s := rfl
  rw [hattribute, read, ofText, hblank, hm]
  rfl

/-- A fragment without a value gives no actions. -/
theorem actionsOf_of_not_holds (h : ∀ m, ¬ Holds text m) : actionsOf text = {} := by
  cases text with
  | none => rfl
  | some s =>
    have hattribute : ofAttribute (some s) = .str s := rfl
    rw [actionsOf, hattribute, read, ofText]
    -- a text that is blank, or that cannot be read
    by_cases hblank : Text.isBlankText s = true
    · rw [if_pos hblank]
      rfl
    · rw [if_neg hblank]
      cases hm : Model.ofYaml s with
      | ok m => exact absurd ⟨s, rfl, Bool.eq_false_iff.mpr hblank, hm⟩ (h m)
      | error e => cases e <;> rfl

/-- The actions of a fragment that holds a value: the items of a sequence, a mapping as the only one, and
none otherwise. -/
theorem Holds.actionsOf_eq (h : Holds text m) :
    (∃ items values, m.data = .list items ∧ m.graph.deref? m.root = some (.list values) ∧
      actionsOf text = { listed := items, apart := values.map m.graph.data }) ∨
    (∃ entries, m.data = .map entries ∧
      actionsOf text = { listed := [.map entries], apart := [.map entries] }) ∨
    ((∀ items, m.data ≠ .list items) ∧ (∀ entries, m.data ≠ .map entries) ∧ actionsOf text = {}) := by
  obtain ⟨s, -, hread⟩ := h.read_eq
  rw [actionsOf, hread, ofModel]
  -- a sequence, a mapping, or anything else
  cases hdata : m.data with
  | list items =>
    obtain ⟨label, values, hroot, hcell, -⟩ := Model.data_eq_list hdata
    have hderef : m.graph.deref? m.root = some (.list values) := by
      rw [hroot]
      exact hcell
    refine .inl ⟨items, values, rfl, hderef, ?_⟩
    rw [hderef]
    rfl
  | map entries => exact .inr (.inl ⟨entries, rfl, rfl⟩)
  | _ => exact .inr (.inr ⟨by simp, by simp, rfl⟩)

/-- The items of a sequence are mappings or not, in it and each on its own. -/
theorem isMapping_listed_iff_apart {items : List Data} {values : List Value}
    (hdata : m.data = .list items) (hvalues : m.graph.deref? m.root = some (.list values)) :
    (∀ d ∈ items, d.isMapping = true) ↔ ∀ d ∈ values.map m.graph.data, d.isMapping = true := by
  obtain ⟨label, -, hcell, rfl⟩ := Model.root_of_list hdata hvalues
  -- there is at least the sequence itself
  obtain ⟨depth, hdepth⟩ : ∃ depth, m.graph.cells.size = depth + 1 := by
    refine Nat.exists_eq_succ_of_ne_zero fun hzero => ?_
    rw [Graph.cell?, Array.getElem?_eq_none (by omega)] at hcell
    cases hcell
  have hitem : ∀ v, (m.graph.dataWithin m.graph.cells.size [label] v).isMapping = true ↔
      (m.graph.data v).isMapping = true := by
    intro v
    rw [Graph.data, hdepth, Graph.isMapping_dataWithin, Graph.isMapping_dataWithin]
    constructor
    · rintro ⟨inner, entries, rfl, -, hinner⟩
      exact ⟨inner, entries, rfl, List.not_mem_nil, hinner⟩
    · rintro ⟨inner, entries, rfl, -, hinner⟩
      refine ⟨inner, entries, rfl, fun hmem => ?_, hinner⟩
      -- an item that is a mapping is not the sequence
      rw [List.mem_singleton.mp hmem, hcell] at hinner
      cases hinner
  simp only [List.forall_mem_map, hitem]

/-- A fragment is proper if its actions in a list are mappings. -/
theorem proper_iff_listed : Proper text ↔ ∀ d ∈ listedActions text, d.isMapping = true := by
  rw [listedActions]
  -- a fragment without a value is proper, as it has no actions
  by_cases hholds : ∃ m, Holds text m
  · obtain ⟨m, hm⟩ := hholds
    rcases hm.actionsOf_eq with ⟨items, values, hdata, -, hactions⟩ | ⟨entries, hdata, hactions⟩ |
        ⟨hlist, -, hactions⟩
    · rw [hactions]
      refine ⟨fun h => h m items hm hdata, fun h m' items' hm' hdata' => ?_⟩
      obtain rfl := hm.unique hm'
      rw [hdata] at hdata'
      exact Data.list.inj hdata' ▸ h
    · rw [hactions]
      refine ⟨fun _ d hd => ?_, fun _ m' items' hm' hdata' => ?_⟩
      · rw [List.mem_singleton.mp hd]
        rfl
      · obtain rfl := hm.unique hm'
        rw [hdata] at hdata'
        cases hdata'
    · rw [hactions]
      refine ⟨fun _ d hd => absurd hd List.not_mem_nil, fun _ m' items' hm' hdata' => ?_⟩
      obtain rfl := hm.unique hm'
      exact absurd hdata' (hlist items')
  · rw [actionsOf_of_not_holds (not_exists.mp hholds)]
    refine ⟨fun _ d hd => ?_, fun _ m items hm => ?_⟩
    · exact absurd hd List.not_mem_nil
    · exact absurd ⟨m, hm⟩ hholds

/-- Whether actions are mappings does not depend on how they are written out. -/
theorem listed_iff_apart : (∀ d ∈ listedActions text, d.isMapping = true) ↔
    ∀ d ∈ apartActions text, d.isMapping = true := by
  rw [listedActions, apartActions]
  by_cases hholds : ∃ m, Holds text m
  · obtain ⟨m, hm⟩ := hholds
    rcases hm.actionsOf_eq with ⟨items, values, hdata, hvalues, hactions⟩ | ⟨entries, -, hactions⟩ |
        ⟨-, -, hactions⟩
    · rw [hactions]
      exact isMapping_listed_iff_apart hdata hvalues
    · rw [hactions]
    · rw [hactions]
  · rw [actionsOf_of_not_holds (not_exists.mp hholds)]

theorem proper_iff_apart : Proper text ↔ ∀ d ∈ apartActions text, d.isMapping = true :=
  proper_iff_listed.trans listed_iff_apart

/-- A sequence is passed on as it is, and nothing is reported. -/
theorem Holds.sequence {items : List Data} (h : Holds text m) (hdata : m.data = .list items) :
    listedActions text = items ∧ (listed place text).log = [] ∧ (apart place text).log = [] := by
  obtain ⟨s, -, hread⟩ := h.read_eq
  refine ⟨?_, ?_, ?_⟩
  · rw [listedActions, actionsOf, hread, ofModel, hdata]
    rfl
  · rw [listed, hread, ofModel, hdata]
    rfl
  · rw [apart, hread, ofModel, hdata]
    rfl

/-- A value that is neither a mapping nor a sequence is reported, and gives no actions. -/
theorem Holds.scalar (h : Holds text m) (hlist : ∀ items, m.data ≠ .list items)
    (hmap : ∀ entries, m.data ≠ .map entries) (hnull : m.data ≠ .null) :
    listedActions text = [] ∧ apartActions text = [] ∧ ∃ s, text = some s ∧
      (listed place text).log = [.fragmentNotActions (some place) m.data.typeName s] ∧
      (apart place text).log = [.fragmentNotActions (some place) m.data.typeName s] := by
  obtain ⟨s, htext, hread⟩ := h.read_eq
  rw [listedActions, apartActions, actionsOf, listed, apart, hread, hread, ofModel, ofModel]
  cases hdata : m.data with
  | null => exact absurd hdata hnull
  | list items => exact absurd hdata (hlist items)
  | map entries => exact absurd hdata (hmap entries)
  | _ => exact ⟨rfl, rfl, s, htext, rfl, rfl⟩

end Fragment

/-! ### What the lists of a rule hold -/

namespace Scope

variable {scope : Scope}

/-- The fragment with the actions on entering the state that a transition leads to. -/
def entryFragment (scope : Scope) (t : Transition) : Option String :=
  (scope.machine.find? t.dst).bind fun target => if target.isState then target.attr? "Entry" else none

/-- The fragments whose actions stand in the list that turns lead to from the rule of a transition: that
of the last transition, for an external one that of the state which it enters, and in the list of the rule
itself that of the state which is left. -/
def fragmentsIn (scope : Scope) (state : Node) (t : Transition) (turns : List Turn)
    (last : Transition) : List (Option String) :=
  if t.kind = .external then
    (if turns.isEmpty then [state.attr? "Exit"] else [])
      ++ [last.attr? "Action", scope.entryFragment last]
  else [last.attr? "Action"]

/-- At its destination a transition runs what is done on entering the state there. -/
theorem given_of_arrives {visited : List Data} {t : Transition} {there : List Action}
    (h : Arrives scope visited t there) :
    there.filterMap Action.given? = Fragment.apartActions (scope.entryFragment t) := by
  -- an attribute that is missing has no actions
  have hnone : Fragment.apartActions none = [] := rfl
  rw [entryFragment]
  cases h with
  | nowhere hfind => rw [hfind, Option.bind_none, hnone]; rfl
  | notEnterable hfind hkind =>
    rw [hfind, Option.bind_some]
    rcases hkind with hkind | hkind <;> rw [Node.isState, hkind] <;> rfl
  | state hfind hkind hid =>
    rw [hfind, Option.bind_some, List.filterMap_cons_none rfl, Action.filterMap_given?]
    rcases hkind with hkind | hkind <;> rw [Node.isState, hkind] <;> rfl
  | visited hfind hkind hold => rw [hfind, Option.bind_some, Node.isState, hkind]; rfl
  | choice hnode hkind hnew hoptions hdefault =>
    rw [(Machine.node?_eq_ok hnode).2, Option.bind_some, Node.isState, hkind]
    rfl

/-- Before what a transition is resolved into stand its own actions. -/
theorem given_of_descend {visited : List Data} {t : Transition} {resolved : List Action}
    (h : (scope.descend visited t).result = .ok resolved) :
    resolved.filterMap Action.given?
      = Fragment.apartActions (t.attr? "Action") ++ Fragment.apartActions (scope.entryFragment t) := by
  obtain ⟨own, there, hown, hthere, rfl⟩ := scope.descend_eq_ok h
  rw [List.filterMap_append, Action.filterMap_given?, Fragment.eq_apartActions hown,
    given_of_arrives (arrives_of_arrival hthere)]

/-- **Every list holds what its fragments give.** In a list inside a rule, at any depth, stand the actions
of its fragments in their order, and between them the compiler's own. -/
theorem RuleOf.given_eq {state : Node} {t last : Transition} {r : Rule} {turns : List Turn}
    {inner : List Action} (h : scope.RuleOf state t r) (hleads : scope.Leads t r.actions turns last inner) :
    (t.kind = .internal ∧
      inner.filterMap Action.given? = Fragment.listedActions (last.attr? "Action")) ∨
    (t.kind = .external ∧
      inner.filterMap Action.given?
        = (if turns.isEmpty then Fragment.listedActions (state.attr? "Exit") else [])
          ++ Fragment.apartActions (last.attr? "Action")
          ++ Fragment.apartActions (scope.entryFragment last)) := by
  rcases h.parts with ⟨hkind, hown⟩ | ⟨hkind, resolved, hactions, hresolved⟩
  · -- an internal transition has no decisions
    rw [hown] at hleads
    obtain ⟨-, rfl, rfl⟩ := hleads.of_given
    exact .inl ⟨hkind, Action.filterMap_given? _⟩
  · rw [hactions] at hleads
    obtain ⟨resolved', rfl, hresolved'⟩ := descend_of_leads _ hresolved hleads
    rw [List.filterMap_append, Action.filterMap_given?, given_of_descend hresolved',
      ← List.append_assoc]
    -- only the list of the rule itself starts with what is done on leaving
    cases turns with
    | nil => exact .inr ⟨hkind, rfl⟩
    | cons turn turns => exact .inr ⟨hkind, rfl⟩

/-- What can be told of fragments from their actions can be told of the fragments for a list from what
they give there, no matter whether they are read in their list or each on its own. -/
theorem RuleOf.forall_given_iff {P : Data → Prop} {F : Option String → Prop}
    (hlisted : ∀ text, F text ↔ ∀ d ∈ Fragment.listedActions text, P d)
    (hapart : ∀ text, F text ↔ ∀ d ∈ Fragment.apartActions text, P d) {state : Node}
    {t last : Transition} {r : Rule} {turns : List Turn} {inner : List Action}
    (h : scope.RuleOf state t r) (hleads : scope.Leads t r.actions turns last inner) :
    (∀ d ∈ inner.filterMap Action.given?, P d) ↔
      ∀ text ∈ scope.fragmentsIn state t turns last, F text := by
  rw [fragmentsIn]
  rcases h.given_eq hleads with ⟨hkind, hgiven⟩ | ⟨hkind, hgiven⟩
  · rw [hgiven, hkind, if_neg (by simp), List.forall_mem_singleton, hlisted]
  · rw [hgiven, hkind, if_pos rfl, List.forall_mem_append, List.forall_mem_append, ← hapart, ← hapart]
    -- only the actions on leaving are read in their list
    cases turns with
    | nil => simp [← hlisted, and_assoc]
    | cons turn turns => simp

/-- A list inside a rule holds mappings alone exactly if the fragments for it are proper. -/
theorem RuleOf.forall_isMapping_iff {machineId : String} {state : Node} {t last : Transition}
    {r : Rule} {turns : List Turn} {inner : List Action} (h : scope.RuleOf state t r)
    (hleads : scope.Leads t r.actions turns last inner) :
    (∀ d ∈ Action.listData machineId inner, d.isMapping = true) ↔
      ∀ text ∈ scope.fragmentsIn state t turns last, Fragment.Proper text := by
  rw [Action.forall_isMapping_iff]
  exact h.forall_given_iff (fun _ => Fragment.proper_iff_listed) (fun _ => Fragment.proper_iff_apart)
    hleads

/-- Where turns lead there is a list, under their predicates. -/
theorem Leads.inside {t last : Transition} {actions inner : List Action} {turns : List Turn}
    (h : scope.Leads t actions turns last inner) :
    Action.Inside actions (turns.map (·.predicate?)) inner := by
  induction h with
  | here t actions => exact .here actions
  | option _ hmem _ harm _ ih => exact .option hmem (List.mem_of_getElem? harm) ih
  | default _ hmem _ _ ih => exact .default hmem ih

/-- The lists inside a rule are those that turns lead to. -/
theorem RuleOf.inside_iff {state : Node} {t : Transition} {r : Rule} (h : scope.RuleOf state t r)
    {predicates : List (Option String)} {inner : List Action} :
    Action.Inside r.actions predicates inner ↔
      ∃ turns last, scope.Leads t r.actions turns last inner ∧
        turns.map (·.predicate?) = predicates := by
  constructor
  -- into a list one gets by turns, if there is anything to turn into
  · intro hinside
    rcases h.actions with ⟨own, hown⟩ | ⟨leaving, resolved, hactions, hresolved⟩
    · rw [hown] at hinside ⊢
      obtain ⟨rfl, rfl⟩ := hinside.of_given
      exact ⟨[], t, .here _ _, rfl⟩
    · rw [hactions] at hinside ⊢
      exact exists_leads_of_inside leaving hresolved hinside
  · rintro ⟨turns, last, hleads, rfl⟩
    exact hleads.inside

end Scope

/-! ### The result -/

/-- **Where something else than a record stands.** Every list that the compiler makes, at any depth of a
rule, holds the actions of certain fragments and its own. All its elements are mappings exactly if those
fragments are proper, so that all lists of the document hold records alone exactly if all fragments that
are used are proper. A fragment that is a sequence is passed on whole without a report. One that is neither
a sequence nor a mapping is reported, and gives nothing. -/
structure Compiled.Recorded (c : Compiled) : Prop where
  /-- Every rule is that of a transition, and its lists are those that turns lead to. -/
  reached : ∀ r ∈ c.document.rules, ∃ state t, c.scope.RuleOf state t r ∧
    ∀ predicates inner, Action.Inside r.actions predicates inner ↔
      ∃ turns last, c.scope.Leads t r.actions turns last inner ∧
        turns.map (·.predicate?) = predicates
  list : ∀ state t r turns last inner, c.scope.RuleOf state t r →
    c.scope.Leads t r.actions turns last inner →
      ((∀ d ∈ Action.listData c.document.machineId inner, d.isMapping = true) ↔
        ∀ text ∈ c.scope.fragmentsIn state t turns last, Fragment.Proper text)
  document : (∀ r ∈ c.document.rules, ∀ predicates inner, Action.Inside r.actions predicates inner →
      ∀ d ∈ Action.listData c.document.machineId inner, d.isMapping = true) ↔
    ∀ r ∈ c.document.rules, ∀ state t turns last inner, c.scope.RuleOf state t r →
      c.scope.Leads t r.actions turns last inner →
        ∀ text ∈ c.scope.fragmentsIn state t turns last, Fragment.Proper text
  sequence : ∀ text m items place, Fragment.Holds text m → m.data = .list items →
    Fragment.listedActions text = items ∧ (Fragment.listed place text).log = [] ∧
      (Fragment.apart place text).log = []
  scalar : ∀ text m place, Fragment.Holds text m → (∀ items, m.data ≠ .list items) →
    (∀ entries, m.data ≠ .map entries) → m.data ≠ .null →
      Fragment.listedActions text = [] ∧ Fragment.apartActions text = [] ∧ ∃ s, text = some s ∧
        (Fragment.listed place text).log = [.fragmentNotActions (some place) m.data.typeName s] ∧
        (Fragment.apart place text).log = [.fragmentNotActions (some place) m.data.typeName s]

/-- Every rule of a compiled model is that of a transition. -/
theorem Compiled.exists_ruleOf {model : Model} {appearance : Appearance} {c : Compiled}
    (hc : (model.compile appearance).result = .ok c) {r : Rule} (hr : r ∈ c.document.rules) :
    ∃ state t, c.scope.RuleOf state t r := by
  obtain ⟨-, -, root, initial, rules, options, -, -, hrules, -, hdocument⟩ :=
    Model.compile_eq_ok.mp hc
  rw [hdocument] at hr
  exact Scope.exists_ruleOf hrules hr

/-- **Lists hold records exactly where fragments do.** -/
theorem Model.compile_recorded {model : Model} {appearance : Appearance} {c : Compiled}
    (hc : (model.compile appearance).result = .ok c) : c.Recorded := by
  refine ⟨fun r hr => ?_, fun state t r turns last inner hrule hleads => ?_, ⟨?_, ?_⟩,
    fun text m items place hm hdata => hm.sequence hdata,
    fun text m place hm hlist hmap hnull => hm.scalar hlist hmap hnull⟩
  · obtain ⟨state, t, hrule⟩ := Compiled.exists_ruleOf hc hr
    exact ⟨state, t, hrule, fun predicates inner => hrule.inside_iff⟩
  · exact hrule.forall_isMapping_iff hleads
  -- every list of a rule is one that turns lead to, and the other way round
  · intro h r hr state t turns last inner hrule hleads
    exact (hrule.forall_isMapping_iff hleads).mp (h r hr _ inner hleads.inside)
  · intro h r hr predicates inner hinside
    obtain ⟨state, t, hrule⟩ := Compiled.exists_ruleOf hc hr
    obtain ⟨turns, last, hleads, -⟩ := hrule.inside_iff.mp hinside
    exact (hrule.forall_isMapping_iff hleads).mpr (h r hr state t turns last inner hrule hleads)

/-- A lamp that can be turned off, with an action on the way. -/
def lampWith (action : String) : Model where
  root := .ref 0
  graph :=
    { cells := #[
        .map [(.str "objects", .ref 1)],
        .map [(.str "/lamp", .ref 2), (.str "/start", .ref 3), (.str "/on", .ref 4),
          (.str "/off", .ref 5), (.str "/init", .ref 6), (.str "/quit", .ref 7)],
        .map [(.str "type", .str "State Machine"), (.str "name", .str "Lamp")],
        .map [(.str "type", .str "Initial")],
        .map [(.str "type", .str "State"), (.str "name", .str "On")],
        .map [(.str "type", .str "State"), (.str "name", .str "Off")],
        .map [(.str "type", .str "External Transition"), (.str "pointers", .ref 8)],
        .map [(.str "type", .str "External Transition"), (.str "pointers", .ref 9),
          (.str "attributes", .ref 10)],
        .map [(.str "src", .str "/start"), (.str "dst", .str "/on")],
        .map [(.str "src", .str "/on"), (.str "dst", .str "/off")],
        .map [(.str "Event", .str "press"), (.str "Action", .str action)]] }

/-- The action of a lamp that rings a bell stands in its rule. -/
theorem Model.compile_recorded_lamp :
    ∃ c, (lampWith "service: bell.ring").compile.result = .ok c ∧ c.Recorded ∧
      ∃ r ∈ c.document.rules, r.actions.length = 2 := by
  have hchecked : ((lampWith "service: bell.ring").compile.result.toOption.map fun c =>
      c.document.rules.any (·.actions.length == 2)) = some true := by
    decide +kernel
  obtain ⟨c, hc, hrule⟩ := Returns.of_check hchecked
  simp only [List.any_eq_true, beq_iff_eq] at hrule
  exact ⟨c, hc, compile_recorded hc, hrule⟩

/-- Of an action that is a sequence with a text in it, the text stands in the rule, and nothing is
reported. -/
theorem Model.item_not_record :
    ∃ c, (lampWith "[ring, {service: bell.ring}]").compile.result = .ok c ∧
      (∃ r ∈ c.document.rules, ∃ d ∈ Action.listData c.document.machineId r.actions,
        d = .str "ring" ∧ d.isMapping = false) ∧
      ∀ d ∈ (lampWith "[ring, {service: bell.ring}]").compile.log, d.level ≠ .warning := by
  have hchecked : ((lampWith "[ring, {service: bell.ring}]").compile.result.toOption.map fun c =>
      c.document.rules.any fun r =>
        (Action.listData c.document.machineId r.actions).any (·.str? == some "ring")) = some true := by
    decide +kernel
  have hlog : (lampWith "[ring, {service: bell.ring}]").compile.log.all (·.level != .warning) = true := by
    decide +kernel
  -- the text is found among the actions of a rule
  obtain ⟨c, hc, hrule⟩ := Returns.of_check hchecked
  simp only [List.any_eq_true, beq_iff_eq] at hrule
  obtain ⟨r, hr, d, hd, htext⟩ := hrule
  obtain rfl := Data.eq_str_of_str? htext
  refine ⟨c, hc, ⟨r, hr, _, hd, rfl, rfl⟩, fun d hd => ?_⟩
  simpa using List.all_eq_true.mp hlog d hd

end HomeAutomaton
