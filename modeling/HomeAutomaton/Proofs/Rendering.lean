import HomeAutomaton.Package
import HomeAutomaton.Proofs.ActionRecords
import HomeAutomaton.Proofs.LoadedValues

/-!
# Which compiled models have a package

A model that compiles has a document, and the document still has to be written. The compiler's own parts of
it can always be written, so it depends on what fragments hold: they are passed on as they are, and a
fragment of YAML can refer to itself. The export of the model writes every object once and ends whatever
the model is; the diagram needs names for its vertices.

* `Fragment.Expressible` says of a fragment that its actions can be written.
* `Action.renders_iff` goes through the decisions of a rule, and `Document.unrenderable?_eq_none_iff` puts
  the document together.
* `Machine.Drawable` says when a machine has a diagram.
* `Model.package_returns_iff` is the result. `Model.endless_not_rendered` is a lamp whose action is a list
  that contains itself.
-/

namespace HomeAutomaton

open Relation

/-! ### Fragments -/

namespace Fragment

variable {text : Option String}

/-- If the fragment gives actions, no integer in them is too long, and nothing in them contains itself. -/
def Expressible (text : Option String) : Prop :=
  ∀ m, Holds text m → ((∃ items, m.data = .list items) ∨ ∃ entries, m.data = .map entries) →
    m.graph.Expressible m.root

/-- A fragment holds plain values alone. -/
theorem Holds.plain {m : Model} (h : Holds text m) : m.graph.Plain ∧ m.root.IsPlain := by
  obtain ⟨s, -, -, hm⟩ := h
  exact Model.ofYaml_plain hm

/-- A fragment that holds a value is expressible if the value is, or gives no actions. -/
theorem Holds.expressible_iff {m : Model} (h : Holds text m) :
    Expressible text ↔ ((∃ items, m.data = .list items) ∨ ∃ entries, m.data = .map entries) →
      m.graph.Expressible m.root := by
  refine ⟨fun hall => hall m h, fun hm m' h' => ?_⟩
  obtain rfl := h.unique h'
  exact hm

/-- A list is expressible if its items are. -/
theorem expressible_list_iff {m : Model} {items : List Data} {values : List Value}
    (hdata : m.data = .list items) (hvalues : m.graph.deref? m.root = some (.list values)) :
    m.graph.Expressible m.root ↔ ∀ v ∈ values, m.graph.Expressible v := by
  obtain ⟨label, hroot, hcell, -⟩ := Model.root_of_list hdata hvalues
  rw [hroot, Graph.expressible_ref_iff hcell]
  refine and_iff_right ?_
  -- a list has no keys
  simp [Graph.HasLongNumber, hcell, Cell.keys]

/-- The actions of a fragment can be written, in their list and each on its own, exactly if the fragment is
expressible. -/
theorem expressible_iff :
    (Expressible text ↔ ∀ d ∈ listedActions text, d.unrenderable? = none) ∧
      (Expressible text ↔ ∀ d ∈ apartActions text, d.unrenderable? = none) := by
  rw [listedActions, apartActions]
  -- a fragment holds a list, a mapping, or something that gives no actions; or it holds nothing
  by_cases hholds : ∃ m, Holds text m
  · obtain ⟨m, hm⟩ := hholds
    obtain ⟨hplain, hroot⟩ := hm.plain
    have hwritten : m.data.unrenderable? = none ↔ m.graph.Expressible m.root :=
      Graph.unrenderable?_data_iff hplain hroot
    rcases hm.actionsOf_eq with ⟨items, values, hdata, hvalues, hactions⟩ | ⟨entries, hdata, hactions⟩ |
        ⟨hlist, hmap, hactions⟩
    · have hsource : Expressible text ↔ m.graph.Expressible m.root := by
        rw [hm.expressible_iff]
        exact ⟨fun h => h (.inl ⟨items, hdata⟩), fun h _ => h⟩
      rw [hactions, hsource]
      constructor
      · rw [← hwritten, hdata, Data.unrenderable?, Data.unrenderableItem?_eq_none]
      · rw [expressible_list_iff hdata hvalues, List.forall_mem_map]
        refine forall₂_congr fun v hv => (Graph.unrenderable?_data_iff hplain ?_).symm
        obtain ⟨label, -, hcell, -⟩ := Model.root_of_list hdata hvalues
        exact (hplain.cell hcell).items v hv
    · have hsource : Expressible text ↔ m.graph.Expressible m.root := by
        rw [hm.expressible_iff]
        exact ⟨fun h => h (.inr ⟨entries, hdata⟩), fun h _ => h⟩
      rw [hactions, hsource, List.forall_mem_singleton, ← hdata, hwritten]
      exact ⟨Iff.rfl, Iff.rfl⟩
    · have hsource : Expressible text := by
        rw [hm.expressible_iff]
        rintro (⟨items, hdata⟩ | ⟨entries, hdata⟩)
        · exact absurd hdata (hlist items)
        · exact absurd hdata (hmap entries)
      rw [hactions]
      exact ⟨iff_of_true hsource (by simp), iff_of_true hsource (by simp)⟩
  -- a fragment that holds nothing has no actions and asks for nothing
  · have hsource : Expressible text := fun m hm => absurd ⟨m, hm⟩ hholds
    rw [actionsOf_of_not_holds (not_exists.mp hholds)]
    exact ⟨iff_of_true hsource (by simp), iff_of_true hsource (by simp)⟩

end Fragment

/-! ### Documents -/

/-- Fields can be written if their values can be. -/
theorem Data.unrenderable?_ofFields {fields : List (String × Data)} :
    (Data.ofFields fields).unrenderable? = none ↔ ∀ f ∈ fields, f.2.unrenderable? = none := by
  rw [ofFields, unrenderable?, unrenderablePair?_eq_none, List.forall_mem_map]
  simp [unrenderable?]

/-- A condition is a mapping of texts. -/
theorem unrenderable?_templateCondition (expression : String) :
    (templateCondition expression).unrenderable? = none := by
  simp [templateCondition, Data.unrenderable?_ofFields, Data.unrenderable?]

/-- A condition about a state is one as well. -/
theorem unrenderable?_stateCondition (machineId stateId : String) :
    (stateCondition machineId stateId).unrenderable? = none := by
  simp [stateCondition, Data.unrenderable?_ofFields, Data.unrenderable?]

theorem unrenderable?_setStateCall (machineId stateId : String) :
    (setStateCall machineId stateId).unrenderable? = none := by
  simp [setStateCall, Data.unrenderable?_ofFields, Data.unrenderable?]

namespace Action

variable {machineId : String}

/-- All of the actions can be written. -/
def Renders (machineId : String) (actions : List Action) : Prop :=
  ∀ d ∈ listData machineId actions, d.unrenderable? = none

/-- Actions can be written if each of them can be. -/
theorem renders_iff_forall {actions : List Action} :
    Renders machineId actions ↔ ∀ a ∈ actions, (a.data machineId).unrenderable? = none := by
  constructor
  · intro h a ha
    exact h _ (mem_listData.mpr ⟨a, ha, rfl⟩)
  · intro h d hd
    obtain ⟨a, ha, rfl⟩ := mem_listData.mp hd
    exact h a ha

/-- A list of actions can be written if they can be. -/
theorem unrenderable?_listData {actions : List Action} :
    (Data.list (listData machineId actions)).unrenderable? = none ↔ Renders machineId actions := by
  rw [Data.unrenderable?, Data.unrenderableItem?_eq_none, Renders]

/-- Alternatives can be written if their actions can be. -/
theorem unrenderable?_optionsData {options : List (String × List Action)} :
    (Data.list (optionsData machineId options)).unrenderable? = none ↔
      ∀ o ∈ options, Renders machineId o.2 := by
  rw [Data.unrenderable?]
  induction options with
  | nil => simp [optionsData, Data.unrenderableItem?]
  | cons o options ih =>
    obtain ⟨predicate, arm⟩ := o
    rw [optionsData, Data.unrenderableItem?, Option.or_eq_none_iff, ih, List.forall_mem_cons]
    refine and_congr_left fun _ => ?_
    -- what stands in front of the actions is the compiler's own
    have hconditions : (Data.list [templateCondition predicate]).unrenderable? = none := by
      simp [Data.unrenderable?, Data.unrenderableItem?, unrenderable?_templateCondition]
    simp [Data.unrenderable?_ofFields, hconditions, unrenderable?_listData]

/-- A decision can be written if its alternatives and its default can be. -/
theorem unrenderable?_choose {options : List (String × List Action)} {default? : Option (List Action)} :
    ((choose options default?).data machineId).unrenderable? = none ↔
      (∀ o ∈ options, Renders machineId o.2) ∧ ∀ arm ∈ default?, Renders machineId arm := by
  cases default? with
  | none => simp [data, Data.unrenderable?_ofFields, unrenderable?_optionsData]
  | some arm =>
    simp [data, Data.unrenderable?_ofFields, unrenderable?_optionsData, unrenderable?_listData]

/-- What a fragment gives can be written where the list that it stands in is inside one that can be. -/
theorem Renders.given {actions inner : List Action} {predicates : List (Option String)}
    (h : Renders machineId actions) (hinside : Inside actions predicates inner) :
    ∀ d ∈ inner.filterMap given?, d.unrenderable? = none := by
  -- on the way into the decisions: the list itself, an alternative or a default
  induction hinside with
  | here actions =>
    intro d hd
    obtain ⟨a, ha, hgiven⟩ := List.mem_filterMap.mp hd
    cases a with
    | given d' =>
      obtain rfl := Option.some.inj hgiven
      have hwritten := renders_iff_forall.mp h _ ha
      rwa [data] at hwritten
    | setState stateId => cases hgiven
    | choose options default? => cases hgiven
  | option hmem harm _ ih =>
    exact ih ((unrenderable?_choose.mp (renders_iff_forall.mp h _ hmem)).1 _ harm)
  | default hmem _ ih =>
    exact ih ((unrenderable?_choose.mp (renders_iff_forall.mp h _ hmem)).2 _ rfl)

/-- Actions can be written if what fragments give can be, in every list inside them. -/
theorem renders_of_given {actions : List Action}
    (h : ∀ predicates inner, Inside actions predicates inner →
      ∀ d ∈ inner.filterMap given?, d.unrenderable? = none) : Renders machineId actions := by
  -- a decision goes on to smaller lists
  generalize hn : sizeOf actions = n
  induction n using Nat.strong_induction_on generalizing actions with
  | h n ih =>
    refine renders_iff_forall.mpr fun a ha => ?_
    have hlt := List.sizeOf_lt_of_mem ha
    cases a with
    | given d =>
      rw [data]
      exact h [] actions (.here actions) d (List.mem_filterMap.mpr ⟨_, ha, rfl⟩)
    | setState stateId =>
      rw [data]
      exact unrenderable?_setStateCall machineId stateId
    | choose options default? =>
      rw [choose.sizeOf_spec] at hlt
      refine unrenderable?_choose.mpr ⟨fun o ho => ?_, fun arm harm => ?_⟩
      · obtain ⟨predicate, arm⟩ := o
        have harmlt := List.sizeOf_lt_of_mem ho
        rw [Prod.mk.sizeOf_spec] at harmlt
        exact ih (sizeOf arm) (by omega) (fun _ inner hinside => h _ inner (.option ha ho hinside)) rfl
      · rw [Option.mem_def.mp harm] at ha hlt
        rw [Option.some.sizeOf_spec] at hlt
        exact ih (sizeOf arm) (by omega) (fun _ inner hinside => h _ inner (.default ha hinside)) rfl

/-- **Actions can be written exactly if what fragments give can be**, in the list itself and in every list
inside it. -/
theorem renders_iff {actions : List Action} :
    Renders machineId actions ↔ ∀ predicates inner, Inside actions predicates inner →
      ∀ d ∈ inner.filterMap given?, d.unrenderable? = none :=
  ⟨fun h _ _ hinside => h.given hinside, renders_of_given⟩

end Action

/-- A rule can be written if its actions can be. -/
theorem Rule.unrenderable?_data (machineId : String) (r : Rule) :
    (r.data machineId).unrenderable? = none ↔ Action.Renders machineId r.actions := by
  have hconditions : (Data.list [stateCondition machineId r.state, eventCondition r.event]).unrenderable?
      = none := by
    simp [Data.unrenderable?, Data.unrenderableItem?, unrenderable?_stateCondition, eventCondition,
      unrenderable?_templateCondition]
  simp [Rule.data, Data.unrenderable?_ofFields, hconditions, Action.unrenderable?_listData]

/-- A document can be written if the actions of its rules can be. -/
theorem Document.unrenderable?_eq_none_iff (d : Document) :
    d.data.unrenderable? = none ↔ ∀ r ∈ d.rules, Action.Renders d.machineId r.actions := by
  have hinitial : ((d.initial.map Data.str).getD .null).unrenderable? = none := by
    cases d.initial <;> simp [Data.unrenderable?]
  simp [Document.data, documentData, Data.unrenderable?_ofFields, Data.unrenderable?,
    Data.unrenderableItem?, Data.unrenderableItem?_eq_none, hinitial, Rule.unrenderable?_data]

/-! ### Diagrams -/

/-- The value can name a vertex: it is a text, or counts as missing. -/
def Data.CanName (d : Data) : Prop := d.IsText ∨ d.isFilled = false

/-- Only what can name a vertex gives it an identifier. -/
theorem vertexId_returns_iff {path : Data} : (∃ id, vertexId path = .ok id) ↔ path.CanName := by
  rw [Data.CanName, Data.IsText]
  unfold vertexId
  split
  next s => simp
  next hnot =>
    have hno : ¬ ∃ s, path = .str s := fun ⟨s, hs⟩ => hnot s hs
    cases hfilled : path.isFilled <;> simp [hno]

/-- Vertices have names, and so have both ends of every edge, the label of which is known. An edge is drawn
where both ends are nodes. -/
structure Machine.Drawable (m : Machine) : Prop where
  vertices : ∀ n ∈ m.nodes, n.kind ≠ .stateMachine → n.path.CanName
  sources : ∀ t ∈ m.transitions, t.src.isKey = true
  destinations : ∀ t ∈ m.transitions, (m.find? t.src).isSome = true → t.dst.isKey = true
  edges : ∀ t ∈ m.transitions, (m.find? t.src).isSome = true → (m.find? t.dst).isSome = true →
    (∃ event?, t.event? = .ok event?) ∧ t.src.CanName ∧ t.dst.CanName

/-- A computation has results for a list if it has one for each item. -/
theorem mapM_returns_iff {α β : Type} {f : α → Except Fault β} {as : List α} :
    (∃ bs, as.mapM f = .ok bs) ↔ ∀ a ∈ as, ∃ b, f a = .ok b := by
  induction as with
  | nil => simp [pure, Except.pure]
  | cons a as ih =>
    rw [List.forall_mem_cons, ← ih, List.mapM_cons]
    constructor
    · rintro ⟨bs, h⟩
      obtain ⟨b, hb, h⟩ := bind_eq_ok.mp h
      obtain ⟨rest, hrest, -⟩ := bind_eq_ok.mp h
      exact ⟨⟨b, hb⟩, rest, hrest⟩
    · rintro ⟨⟨b, hb⟩, rest, hrest⟩
      exact ⟨b :: rest, by rw [hb, hrest]; rfl⟩

/-- Nodes are drawn with their names, but for the machine, which is not drawn. -/
theorem vertexOf_returns_iff {identifiers : Table String} {n : Node} :
    (∃ v, vertexOf identifiers n = .ok v) ↔ (n.kind ≠ .stateMachine → n.path.CanName) := by
  rw [vertexOf, ← vertexId_returns_iff]
  cases hkind : n.kind with
  | stateMachine => simp [vertexStyle?]
  | _ =>
    simp only [vertexStyle?, ne_eq, reduceCtorEq, not_false_eq_true, forall_const]
    constructor
    · rintro ⟨v, h⟩
      obtain ⟨id, hid, -⟩ := bind_eq_ok.mp h
      exact ⟨id, hid⟩
    · rintro ⟨id, hid⟩
      rw [hid]
      exact ⟨_, rfl⟩

/-- An edge has a label if its event can be read. -/
theorem Transition.label_returns_iff {t : Transition} :
    (∃ label, t.label = .ok label) ↔ ∃ event?, t.event? = .ok event? := by
  rw [label]
  constructor
  · rintro ⟨label, h⟩
    obtain ⟨event?, hevent, -⟩ := bind_eq_ok.mp h
    exact ⟨event?, hevent⟩
  · rintro ⟨event?, hevent⟩
    rw [hevent]
    exact ⟨_, rfl⟩

/-- An edge asks for its source, for its destination where the source is found, and for all the rest where both
are. -/
theorem edgeOf_returns_iff {m : Machine} {t : Transition} :
    (∃ e, edgeOf m t = .ok e) ↔ t.src.isKey = true ∧
      ((m.find? t.src).isSome = true → t.dst.isKey = true ∧ ((m.find? t.dst).isSome = true →
        (∃ event?, t.event? = .ok event?) ∧ t.src.CanName ∧ t.dst.CanName)) := by
  rw [← Transition.label_returns_iff, ← vertexId_returns_iff, ← vertexId_returns_iff, edgeOf]
  constructor
  -- the ends are looked up one after the other, and what comes after that is asked for only where both are
  -- nodes
  · rintro ⟨e, h⟩
    obtain ⟨source?, hsrc, h⟩ := bind_eq_ok.mp h
    obtain ⟨hkey, rfl⟩ := Machine.node?_eq_ok hsrc
    refine ⟨hkey, fun hsource => ?_⟩
    obtain ⟨source, hsource⟩ := Option.isSome_iff_exists.mp hsource
    rw [hsource] at h
    obtain ⟨target?, hdst, h⟩ := bind_eq_ok.mp h
    obtain ⟨hkey', rfl⟩ := Machine.node?_eq_ok hdst
    refine ⟨hkey', fun htarget => ?_⟩
    obtain ⟨target, htarget⟩ := Option.isSome_iff_exists.mp htarget
    rw [htarget] at h
    obtain ⟨label, hlabel, h⟩ := bind_eq_ok.mp h
    obtain ⟨start, hstart, h⟩ := bind_eq_ok.mp h
    obtain ⟨stop, hstop, -⟩ := bind_eq_ok.mp h
    exact ⟨⟨label, hlabel⟩, ⟨start, hstart⟩, stop, hstop⟩
  · rintro ⟨hkey, h⟩
    rw [m.node?_of_isKey hkey, ok_bind]
    cases hsource : m.find? t.src with
    | none => exact ⟨none, rfl⟩
    | some source =>
      obtain ⟨hkey', h⟩ := h (by rw [hsource]; rfl)
      rw [m.node?_of_isKey hkey']
      cases htarget : m.find? t.dst with
      | none => exact ⟨none, rfl⟩
      | some target =>
        obtain ⟨⟨label, hlabel⟩, ⟨start, hstart⟩, stop, hstop⟩ := h (by rw [htarget]; rfl)
        rw [hlabel, hstart, hstop]
        exact ⟨_, rfl⟩

/-- A machine has a diagram exactly if it is drawable. -/
theorem Diagram.ofMachine_returns_iff {m : Machine} {identifiers : Table String} :
    (∃ d, Diagram.ofMachine m identifiers = .ok d) ↔ m.Drawable := by
  -- the vertices and the edges are asked for on their own
  have hparts : (∃ d, Diagram.ofMachine m identifiers = .ok d) ↔
      (∃ vs, m.nodes.mapM (vertexOf identifiers) = .ok vs) ∧
        ∃ es, m.transitions.mapM (edgeOf m) = .ok es := by
    rw [ofMachine]
    constructor
    · rintro ⟨d, h⟩
      obtain ⟨vs, hvs, h⟩ := bind_eq_ok.mp h
      obtain ⟨es, hes, -⟩ := bind_eq_ok.mp h
      exact ⟨⟨vs, hvs⟩, es, hes⟩
    · rintro ⟨⟨vs, hvs⟩, es, hes⟩
      rw [hvs, hes]
      exact ⟨_, rfl⟩
  rw [hparts, mapM_returns_iff, mapM_returns_iff]
  simp only [vertexOf_returns_iff, edgeOf_returns_iff]
  constructor
  · rintro ⟨hvertices, hedges⟩
    exact {
      vertices := hvertices
      sources := fun t ht => (hedges t ht).1
      destinations := fun t ht hsource => ((hedges t ht).2 hsource).1
      edges := fun t ht hsource htarget => ((hedges t ht).2 hsource).2 htarget }
  · intro h
    refine ⟨h.vertices, fun t ht => ⟨h.sources t ht, fun hsource => ?_⟩⟩
    exact ⟨h.destinations t ht hsource, h.edges t ht hsource⟩

/-! ### The export -/

section State

variable {σ α β : Type} {P : α → Prop} {Q : β → Prop}

/-- Whatever the state, what the computation gives has the property. -/
def Gives (x : StateM σ α) (P : α → Prop) : Prop := ∀ s, P (x.run s).1

theorem Gives.pure {a : α} (h : P a) : Gives (Pure.pure a : StateM σ α) P := fun _ => h

theorem Gives.bind {x : StateM σ α} {f : α → StateM σ β} (h : Gives x P)
    (hf : ∀ a, P a → Gives (f a) Q) : Gives (x >>= f) Q := fun s => hf _ (h s) _

/-- What comes first may only change the state. -/
theorem Gives.after {x : StateM σ α} {f : α → StateM σ β} (hf : ∀ a, Gives (f a) Q) :
    Gives (x >>= f) Q := fun _ => hf _ _

theorem Gives.mapM {f : α → StateM σ β} {as : List α} (h : ∀ a ∈ as, Gives (f a) Q) :
    Gives (as.mapM f) fun bs => ∀ b ∈ bs, Q b := by
  induction as with
  | nil => exact pure fun _ hb => absurd hb List.not_mem_nil
  | cons a as ih =>
    rw [List.mapM_cons]
    refine (h a List.mem_cons_self).bind fun b hb => ?_
    refine (ih fun a ha => h a (List.mem_cons_of_mem _ ha)).bind fun bs hbs => ?_
    exact pure (List.forall_mem_cons.mpr ⟨hb, hbs⟩)

end State

/-- No integer of a list is too long if none of an item is. -/
theorem anyLongNumber_eq_false {ds : List Data} :
    Data.anyLongNumber ds = false ↔ ∀ d ∈ ds, d.hasLongNumber = false := by
  induction ds with
  | nil => simp [Data.anyLongNumber]
  | cons d ds ih => simp [Data.anyLongNumber, ih]

theorem anyLongEntry_eq_false {es : List (Data × Data)} :
    Data.anyLongEntry es = false ↔
      ∀ e ∈ es, e.1.hasLongNumber = false ∧ e.2.hasLongNumber = false := by
  induction es with
  | nil => simp [Data.anyLongEntry]
  | cons e es ih =>
    obtain ⟨k, v⟩ := e
    simp [Data.anyLongEntry, ih, and_assoc]

/-- What holds of all entries that are given holds of those of the copy. -/
theorem Data.forall_exportEntries {P Q : Data → Prop} {pairs : List (Data × Data)}
    (h : ∀ e ∈ pairs, P e.1 ∧ Q e.2) : ∀ e ∈ exportEntries pairs, P e.1 ∧ Q e.2 := by
  rw [exportEntries]
  split
  next => exact h
  next => exact Table.forall_ofPairs h

/-- The text of a key is as short as the key. -/
theorem Data.hasLongNumber_exportKey (key : Data) :
    key.exportKey.hasLongNumber = key.hasLongNumber := by
  rw [exportKey]
  cases hlong : key.hasLongNumber <;> simp [hlong, hasLongNumber]

namespace Graph

variable {g : Graph}

/-- The copy, if there is one, holds no integer that is too long. -/
def ShortCopy (copy? : Option Data) : Prop := ∀ copy ∈ copy?, copy.hasLongNumber = false

/-- Where nothing is copied, nothing is too long. -/
theorem shortCopy_none : ShortCopy none := fun _ h => absurd h (by simp)

/-- A copy is short if nothing in it is too long. -/
theorem shortCopy_some {copy : Data} : ShortCopy (some copy) ↔ copy.hasLongNumber = false := by
  simp [ShortCopy]

/-- The copy of a scalar is a scalar. -/
theorem visitOnce_gives_of_scalar (depth : Nat) {v : Value} (hscalar : ∀ label, v ≠ .ref label)
    (hshort : ¬ g.HasLongNumber v) : Gives (g.visitOnce depth v) ShortCopy := by
  cases v with
  | ref label => exact absurd rfl (hscalar label)
  | int n =>
    rw [HasLongNumber, Bool.not_eq_true] at hshort
    rw [visitOnce]
    exact .pure (shortCopy_some.mpr (by rw [Data.hasLongNumber, hshort]))
  | _ =>
    rw [visitOnce]
    exact .pure (shortCopy_some.mpr (by simp [Data.hasLongNumber]))

/-- The copy of a sequence holds what the copies of its items hold. -/
theorem gives_list {σ : Type} {f : Value → StateM σ (Option Data)} {vs : List Value}
    (h : ∀ v ∈ vs, Gives (f v) ShortCopy) :
    Gives (do
      let copies ← vs.mapM fun v => do pure ((← f v).getD .null)
      pure (some (.list copies))) ShortCopy := by
  -- where an item was met before, null stands in its place
  have hcopies : Gives (vs.mapM fun v => do pure ((← f v).getD .null)) fun copies =>
      ∀ d ∈ copies, Data.hasLongNumber d = false := by
    refine .mapM fun v hv => (h v hv).bind fun copy? hcopy => .pure ?_
    cases copy? with
    | none => simp [Data.hasLongNumber]
    | some copy => exact shortCopy_some.mp hcopy
  refine hcopies.bind fun copies hshort => .pure (shortCopy_some.mpr ?_)
  rw [Data.hasLongNumber, anyLongNumber_eq_false]
  exact hshort

/-- The copy of a mapping holds its keys, and what the copies of its values hold. -/
theorem gives_map {σ : Type} {f : Value → StateM σ (Option Data)} {es : List (Data × Value)}
    (h : ∀ e ∈ es, e.1.hasLongNumber = false ∧ Gives (f e.2) ShortCopy) :
    Gives (do
      let copies ← es.mapM fun e => do pure ((← f e.2).map fun copy => (e.1, copy))
      pure (some (.map (Data.exportEntries (copies.filterMap id))))) ShortCopy := by
  -- where a value was met before, its entry is left out
  have hcopies : Gives (es.mapM fun e => do pure ((← f e.2).map fun copy => (e.1, copy))) fun copies =>
      ∀ copy? ∈ copies, ∀ copy ∈ copy?,
        Data.hasLongNumber copy.1 = false ∧ Data.hasLongNumber copy.2 = false := by
    refine .mapM fun e he => (h e he).2.bind fun copy? hcopy => .pure ?_
    cases copy? with
    | none => simp
    | some copy => simpa using ⟨(h e he).1, shortCopy_some.mp hcopy⟩
  refine hcopies.bind fun copies hshort => .pure (shortCopy_some.mpr ?_)
  rw [Data.hasLongNumber, anyLongEntry_eq_false]
  refine Data.forall_exportEntries (P := fun k => k.hasLongNumber = false)
    (Q := fun d : Data => d.hasLongNumber = false) fun copy hcopy => ?_
  obtain ⟨copy?, hmem, hsome⟩ := List.mem_filterMap.mp hcopy
  exact hshort copy? hmem copy hsome

/-- The copy of an object holds what its keys and the copies of what stands in it hold. -/
theorem visitOnce_gives_of_cell {depth label : Nat} {cell : Cell} (hcell : g.cell? label = some cell)
    (hkeys : ∀ k ∈ cell.keys, k.hasLongNumber = false)
    (hitems : ∀ w ∈ cell.items, Gives (g.visitOnce depth w) ShortCopy) :
    Gives (g.visitOnce (depth + 1) (.ref label)) ShortCopy := by
  rw [visitOnce, hcell]
  dsimp only
  -- an object that was met before is left out
  refine .after fun seen => ?_
  split
  next => exact .pure shortCopy_none
  next =>
    refine .after fun _ => ?_
    -- a sequence, a mapping or a record with attributes; dates and bytes are texts
    cases cell with
    | list vs => exact gives_list hitems
    | tuple vs => exact gives_list hitems
    | set vs => exact gives_list hitems
    | map es =>
      refine gives_map (List.forall_mem_map.mpr fun e he => ⟨?_, ?_⟩)
      · rw [Data.hasLongNumber_exportKey]
        exact hkeys e.1 (List.mem_map_of_mem he)
      · exact hitems e.2 (List.mem_map_of_mem he)
    | object attributes =>
      refine gives_map (List.forall_mem_map.mpr fun a ha => ⟨?_, ?_⟩)
      · simp [Data.hasLongNumber]
      · exact hitems a.2 (List.mem_map_of_mem ha)
    | bytes bs => exact .pure (shortCopy_some.mpr (by simp [Data.hasLongNumber]))
    | date d => exact .pure (shortCopy_some.mpr (by simp [Data.hasLongNumber]))
    | dateTime t => exact .pure (shortCopy_some.mpr (by simp [Data.hasLongNumber]))

/-- The copy of a value holds no integer that is too long, if there is none inside the value. -/
theorem visitOnce_gives (depth : Nat) {v : Value}
    (h : ∀ w, ReflTransGen g.Item v w → ¬ g.HasLongNumber w) :
    Gives (g.visitOnce depth v) ShortCopy := by
  by_cases hscalar : ∀ label, v ≠ .ref label
  · exact visitOnce_gives_of_scalar depth hscalar (h v .refl)
  · push Not at hscalar
    obtain ⟨label, rfl⟩ := hscalar
    -- on the depth; beyond the last level nothing is copied
    induction depth generalizing label with
    | zero =>
      rw [visitOnce]
      exact .pure shortCopy_none
    | succ depth ih =>
      cases hcell : g.cell? label with
      | none =>
        rw [visitOnce, hcell]
        exact .pure shortCopy_none
      | some cell =>
        refine visitOnce_gives_of_cell hcell (fun k hk => ?_) fun w hw => ?_
        · by_contra hlong
          exact h _ .refl ⟨cell, hcell, k, hk, by simpa using hlong⟩
        · have hinside : ∀ x, ReflTransGen g.Item w x → ¬ g.HasLongNumber x :=
            fun x hx => h x (hx.head ⟨label, cell, rfl, hcell, hw⟩)
          cases w with
          | ref inner => exact ih inner hinside
          | _ => exact visitOnce_gives_of_scalar depth (by simp) (hinside _ .refl)

end Graph

/-- A model without an integer that is too long has an export. -/
theorem Model.hasLongNumber_once {model : Model}
    (h : ∀ w, ReflTransGen model.graph.Item model.root w → ¬ model.graph.HasLongNumber w) :
    model.once.hasLongNumber = false := by
  have hcopy := Graph.visitOnce_gives (model.graph.cells.size + 1) h []
  rw [Model.once, Graph.once]
  cases hresult : ((model.graph.visitOnce (model.graph.cells.size + 1) model.root).run []).1 with
  | none => simp [Data.hasLongNumber]
  | some copy =>
    rw [hresult] at hcopy
    exact Graph.shortCopy_some.mp hcopy

/-- The export is written if no integer in it is too long. -/
theorem Model.exported_returns_iff {model : Model} {indent : Option Nat} :
    (∃ text, model.exported indent = .ok text) ↔ model.once.hasLongNumber = false := by
  rw [exported]
  cases model.once.hasLongNumber <;> simp

/-! ### Packages -/

/-- A document has a file if it can be written. -/
theorem Document.file_returns_iff {d : Document} {time : DateTime} :
    (∃ text, d.file time = .ok text) ↔ d.data.unrenderable? = none := by
  rw [file, Data.yaml]
  cases hfault : d.data.unrenderable? with
  | none => exact iff_of_true ⟨_, rfl⟩ rfl
  | some fault =>
    refine iff_of_false ?_ (by simp)
    rintro ⟨text, h⟩
    cases h

/-- Where it does not depend on a result whether there is another one behind it, there is one exactly if both
steps have one. -/
theorem Logged.bind_returns_iff {α β : Type} {x : Logged α} {f : α → Logged β} {C : Prop}
    (h : ∀ a, (∃ b, (f a).result = .ok b) ↔ C) :
    (∃ b, (x >>= f).result = .ok b) ↔ (∃ a, x.result = .ok a) ∧ C := by
  constructor
  · rintro ⟨b, hb⟩
    obtain ⟨a, ha, hb⟩ := Logged.bind_eq_ok.mp hb
    exact ⟨⟨a, ha⟩, (h a).mp ⟨b, hb⟩⟩
  · rintro ⟨⟨a, ha⟩, hC⟩
    obtain ⟨b, hb⟩ := (h a).mpr hC
    exact ⟨b, Logged.bind_eq_ok.mpr ⟨a, ha, hb⟩⟩

/-- A package is made of what can be written, of the parts that are wanted. -/
theorem Compiled.exists_package_iff {c : Compiled} {model : Model} {options : PackageOptions}
    {time : DateTime} :
    (∃ p, (c.package model options time).result = .ok p) ↔
      c.document.data.unrenderable? = none ∧
      (options.withExport = true → model.once.hasLongNumber = false) ∧
      (options.withDiagram = true → c.machine.Drawable) := by
  -- each part is there exactly if it can be written
  have hfile : (∃ text, c.document.file time = .ok text) ↔ c.document.data.unrenderable? = none :=
    Document.file_returns_iff
  have hexport : (∃ text, model.exported = .ok text) ↔ model.once.hasLongNumber = false :=
    Model.exported_returns_iff
  have hdiagram : (∃ d, Diagram.ofMachine c.machine c.identifiers = .ok d) ↔ c.machine.Drawable :=
    Diagram.ofMachine_returns_iff
  have hpure : ∀ p : Package, (∃ p', (pure p : Logged Package).result = .ok p') ↔ True :=
    fun p => iff_of_true ⟨p, rfl⟩ trivial
  -- the diagram comes last, whatever was put into the package before
  have hdrawn : ∀ p : Package, (∃ p', (if options.withDiagram then do
        let diagram ← (Diagram.ofMachine c.machine c.identifiers : Except Fault Diagram)
        pure (p.put (options.start ++ c.document.machineId ++ ".dot") diagram.text)
      else pure p : Logged Package).result = .ok p') ↔
        (options.withDiagram = true → c.machine.Drawable) := by
    intro p
    rw [← hdiagram]
    cases options.withDiagram with
    | false => simp
    | true =>
      rw [if_pos rfl]
      refine (Logged.bind_returns_iff fun diagram => hpure _).trans ?_
      simp
  rw [← hfile, ← hexport, package]
  refine (Logged.bind_returns_iff fun configuration => ?_).trans (by rw [Logged.liftM_result])
  dsimp only
  -- the document is always written, the export and the diagram if they are wanted
  cases options.withExport with
  | false =>
    refine (Logged.bind_returns_iff hdrawn).trans ?_
    simp
  | true =>
    rw [if_pos rfl]
    refine (Logged.bind_returns_iff (C := (∃ text, model.exported = .ok text) ∧
      (options.withDiagram = true → c.machine.Drawable)) fun _ => ?_).trans (by simp)
    refine (Logged.bind_returns_iff fun exported => ?_).trans (by rw [Logged.liftM_result])
    exact (Logged.bind_returns_iff hdrawn).trans (by simp)

/-- The fragments that rules are made of can be written. -/
def Compiled.Writable (c : Compiled) : Prop :=
  ∀ r ∈ c.document.rules, ∀ state t turns last inner, c.scope.RuleOf state t r →
    c.scope.Leads t r.actions turns last inner →
      ∀ text ∈ c.scope.fragmentsIn state t turns last, Fragment.Expressible text

/-- The document of a compiled model can be written exactly if the fragments in it can be. -/
theorem Compiled.unrenderable?_document_iff {model : Model} {appearance : Appearance} {c : Compiled}
    (hc : (model.compile appearance).result = .ok c) :
    c.document.data.unrenderable? = none ↔ c.Writable := by
  -- a list inside a rule is what the fragments on the way to it give
  have hlist : ∀ {r : Rule} {state t turns last inner}, c.scope.RuleOf state t r →
      c.scope.Leads t r.actions turns last inner →
        ((∀ d ∈ inner.filterMap Action.given?, d.unrenderable? = none) ↔
          ∀ text ∈ c.scope.fragmentsIn state t turns last, Fragment.Expressible text) :=
    fun hrule hleads => hrule.forall_given_iff (fun _ => Fragment.expressible_iff.1)
      (fun _ => Fragment.expressible_iff.2) hleads
  rw [Document.unrenderable?_eq_none_iff]
  constructor
  · intro h r hr state t turns last inner hrule hleads
    exact (hlist hrule hleads).mp (Action.renders_iff.mp (h r hr) _ inner hleads.inside)
  · intro h r hr
    obtain ⟨state, t, hrule⟩ := exists_ruleOf hc hr
    refine Action.renders_iff.mpr fun predicates inner hinside => ?_
    obtain ⟨turns, last, hleads, -⟩ := hrule.inside_iff.mp hinside
    exact (hlist hrule hleads).mpr (h r hr state t turns last inner hrule hleads)

/-- **Which compiled models have a package.** A model that compiles has one exactly if the fragments in its
rules can be written, it is exported without an integer that is too long or not at all, and it is drawable
or not drawn. The export only ever fails for such an integer: there is no other value that it cannot hold,
and no circle that it does not end at. The depth to which calls can be nested is taken as unlimited, so that
no document is too deep to be written. -/
theorem Model.package_returns_iff {model : Model} {options : PackageOptions} {c : Compiled}
    (hc : (model.compile options.appearance).result = .ok c) (time : DateTime) :
    ((∃ p, (model.package options time).result = .ok p) ↔
      c.Writable ∧ (options.withExport = true → model.once.hasLongNumber = false) ∧
        (options.withDiagram = true → c.machine.Drawable)) ∧
    ((∀ w, ReflTransGen model.graph.Item model.root w → ¬ model.graph.HasLongNumber w) →
      model.once.hasLongNumber = false) := by
  refine ⟨?_, Model.hasLongNumber_once⟩
  rw [← Compiled.unrenderable?_document_iff hc, package, Logged.bind_of_ok hc]
  exact Compiled.exists_package_iff

/-- The first moment of a year, in universal time. -/
def startOfYear (year : Nat) : DateTime where
  date := { year, month := 1, day := 1 }
  hour := 0
  minute := 0
  second := 0
  microsecond := 0
  offset := some 0

/-- A lamp that rings a bell has a package, with an export and a diagram. -/
theorem Model.package_returns_lamp :
    ∃ c, (lampWith "service: bell.ring").compile.result = .ok c ∧ c.Writable ∧ c.machine.Drawable ∧
      ∃ p, ((lampWith "service: bell.ring").package { withDiagram := true }
        (startOfYear 2024)).result = .ok p := by
  have hchecked : ((lampWith "service: bell.ring").compile.result.toOption.map fun c =>
      c.document.data.unrenderable?.isNone &&
        !(lampWith "service: bell.ring").once.hasLongNumber &&
        (Diagram.ofMachine c.machine c.identifiers).toOption.isSome) = some true := by
    decide +kernel
  obtain ⟨c, hc, hall⟩ := Returns.of_check hchecked
  simp only [Bool.and_eq_true, Option.isNone_iff_eq_none, Bool.not_eq_true'] at hall
  obtain ⟨⟨hdocument, hexport⟩, hdiagram⟩ := hall
  have hwritable := (Compiled.unrenderable?_document_iff hc).mp hdocument
  -- a diagram was computed, so the machine is drawable
  have hdrawable : c.machine.Drawable := by
    obtain ⟨d, hd⟩ := Option.isSome_iff_exists.mp hdiagram
    cases hdrawn : Diagram.ofMachine c.machine c.identifiers with
    | error e => rw [hdrawn] at hd; cases hd
    | ok d' => exact Diagram.ofMachine_returns_iff.mp ⟨d', hdrawn⟩
  have hiff := (@package_returns_iff _ { withDiagram := true } c hc (startOfYear 2024)).1
  exact ⟨c, hc, hwritable, hdrawable,
    hiff.mpr ⟨hwritable, fun _ => hexport, fun _ => hdrawable⟩⟩

/-- The action of a lamp that is a list containing itself keeps the document from being written. -/
theorem Model.endless_not_rendered :
    ∃ c, (lampWith "&a [*a]").compile.result = .ok c ∧
      ((lampWith "&a [*a]").package {} (startOfYear 2024)).result = .error .endless := by
  have hchecked : ((lampWith "&a [*a]").compile.result.toOption.map fun c =>
      c.document.data.unrenderable? == some .endless) = some true := by
    decide +kernel
  obtain ⟨c, hc, hendless⟩ := Returns.of_check hchecked
  rw [beq_iff_eq] at hendless
  refine ⟨c, hc, ?_⟩
  rw [package, Logged.bind_of_ok hc, Compiled.package, Document.file, Data.yaml, hendless]
  rfl

end HomeAutomaton
