import HomeAutomaton.Proofs.Legibility

/-!
# The machine of a well-typed model

A well-typed model is legible, with texts or null in the place of paths and event names. So this is what
the paths of its machine are (`Machine.WellFormed`). What a well-typed record has for a type is left open.
Whatever it is, it is read as no type at all unless it is one of a few texts; but it has to be written for
that, which an integer that is too long prevents (`Fault.Mistyped`). For no other reason is there no machine.

* `Demand.texts` is what is demanded of the paths and event names.
* `Record.WellTyped.legible` and `Record.WellGrown.legible` are about single records;
  `Record.reachable_of_met` says that no other records of a tree are read than those that can be reached.
* `Machine.ofTable_wellTyped`, `Machine.ofTree_wellTyped` and `Model.rawMachine_wellTyped` are about
  tables, trees and models.
-/

namespace HomeAutomaton

/-- All paths of nodes are texts, and what transitions refer to are texts or null. -/
structure Machine.WellFormed (m : Machine) : Prop where
  paths : ∀ n ∈ m.nodes, n.path.IsText
  sources : ∀ t ∈ m.transitions, t.src.IsTextOrNull
  destinations : ∀ t ∈ m.transitions, t.dst.IsTextOrNull
  eventNames : ∀ t ∈ m.transitions, t.eventName.IsTextOrNull

/-! ### Values -/

namespace Data

/-- A text is a text or null. -/
theorem IsText.isTextOrNull {d : Data} (h : d.IsText) : d.IsTextOrNull := .inr h

/-- It can be looked up. -/
theorem IsTextOrNull.isKey {d : Data} (h : d.IsTextOrNull) : d.isKey = true := by
  rcases h with rfl | h
  · simp [Data.isKey]
  · exact h.isKey

theorem IsTextOrNull.hasLongNumber {d : Data} (h : d.IsTextOrNull) : d.hasLongNumber = false := by
  rcases h with rfl | h
  · simp [Data.hasLongNumber]
  · exact h.hasLongNumber

/-- A text or null that does not count as missing is a text. -/
theorem IsTextOrNull.isText {d : Data} (h : d.IsTextOrNull) (hfilled : d.isFilled = true) :
    d.IsText := by
  rcases h with rfl | h
  · cases hfilled
  · exact h

end Data

/-- Paths and event names are texts or null. -/
def Demand.texts : Demand where
  path := Data.IsTextOrNull
  event _ name := name.IsTextOrNull
  type _ := True
  path_null := .inl rfl
  event_null _ := .inl rfl
  isKey_of_path := Data.IsTextOrNull.isKey
  hasLongNumber_of_path := Data.IsTextOrNull.hasLongNumber

/-- The fault is that of a type which cannot be written, of one of the records. -/
def Fault.Mistyped (g : Graph) (records : Record → Prop) (e : Fault) : Prop :=
  e = .numberTooLong ∧ ∃ r, records r ∧ r.typeText? g = none

/-- Nothing but a type that cannot be written is blamed. -/
theorem Fault.Mistyped.blames (g : Graph) (records : Record → Prop) :
    Fault.Blames True g records (Fault.Mistyped g records) where
  breaks _ he := absurd trivial he.2
  type r hr hnone := ⟨rfl, r, hr, hnone⟩

/-- A path that is not missing is a text. -/
theorem Machine.Meets.wellFormed {m : Machine} (h : m.Meets .texts) : m.WellFormed where
  paths n hn := (h.paths n hn).2.isText (h.paths n hn).1
  sources := h.sources
  destinations := h.destinations
  eventNames := h.events

namespace Graph

variable {g : Graph} {v : Value}

/-- Data of a value is a text or null if the value is. -/
theorem data_isTextOrNull (h : v.IsTextOrNull) : (g.data v).IsTextOrNull := by
  rcases h with rfl | ⟨s, rfl⟩
  · exact .inl (by simp [data, dataWithin])
  · exact .inr ⟨s, by simp [data, dataWithin]⟩

/-- What is referred to as a record is a mapping of the graph. -/
theorem record?_eq_some {r : Record} (h : g.record? v = some r) :
    v = .ref r.label ∧ g.cell? r.label = some (.map r.entries) := by
  cases v with
  | ref label =>
    rw [record?] at h
    split at h
    next entries hcell =>
      obtain rfl := Option.some.inj h
      exact ⟨rfl, hcell⟩
    next => cases h
  | _ => cases h

/-- The path of what is referred to is a text or null. -/
theorem refPath_isTextOrNull (h : g.IsReference v) : (g.refPath v).IsTextOrNull := by
  rcases h with (rfl | ⟨s, rfl⟩) | ⟨r, hr, hpath⟩
  · exact .inl rfl
  · by_cases hs : s = ""
    · exact .inl (by simp [refPath, record?, hs])
    · exact .inr ⟨s, by simp [refPath, record?, hs]⟩
  -- a record is referred to by its own path, or by nothing if it has none
  · rw [Record.field] at hpath
    simp only [refPath, hr]
    cases hget : r.entries.get? (.str "path") with
    | none => exact .inl rfl
    | some w =>
      rw [hget] at hpath
      exact data_isTextOrNull hpath

/-- Attributes in a mapping, or none, can be read. -/
theorem isFields_of_isMappingOrNull (h : g.IsMappingOrNull v) : g.IsFields v := by
  rcases h with rfl | ⟨r, hr⟩
  · exact .inl rfl
  · obtain ⟨rfl, hcell⟩ := record?_eq_some hr
    exact .inr (.inl (by simp [entries?, deref?, hcell]))

/-- A list, or none, can be gone through. -/
theorem isIterable_of_isListOrNull (h : g.IsListOrNull v) : g.IsIterable v := by
  rcases h with rfl | ⟨items, hitems⟩
  · exact .inl rfl
  · exact .inr (.inr (.inl (by simp [sequence?, hitems])))

/-- The records of a list are the records among its items. -/
theorem memberRecords_eq (h : g.IsListOrNull v) : g.memberRecords v = g.listedRecords v := by
  rcases h with rfl | ⟨items, hitems⟩
  · rfl
  · simp [memberRecords, sequence?, listedRecords, hitems]

end Graph

/-! ### Records -/

namespace Record

variable {g : Graph} {r : Record}

/-- A path is a text or null if what may stand for it is. -/
theorem pathOr_isTextOrNull (h : (r.field "path").IsTextOrNull) {otherwise : Data}
    (hother : otherwise.IsTextOrNull) : (r.pathOr g otherwise).IsTextOrNull := by
  rw [pathOr]
  split
  · exact Graph.data_isTextOrNull h
  · exact hother

theorem nameData_isTextOrNull (h : r.WellTyped g) : (r.nameData g).IsTextOrNull := by
  rw [nameData]
  split
  · exact Graph.data_isTextOrNull h.sanitizedName
  · split
    · exact Graph.data_isTextOrNull h.name
    · exact .inl rfl

/-- A well-typed record can be read. -/
theorem WellTyped.legible (h : r.WellTyped g) {otherwise : Data} (hother : otherwise.IsTextOrNull) :
    r.Legible g .texts otherwise where
  type := trivial
  node _ :=
    { path := pathOr_isTextOrNull h.path hother
      name := (nameData_isTextOrNull h).hasLongNumber
      attributes := Graph.isFields_of_isMappingOrNull h.attributes }
  -- a transition with pointers has them in a record
  transition _ :=
    { path := fun _ => pathOr_isTextOrNull h.path hother
      pointers := by
        intro hfilled
        rcases h.pointers with hnull | ⟨p, hp, hsrc, hdst⟩
        · rw [hnull] at hfilled
          cases hfilled
        · exact ⟨p, hp, Graph.refPath_isTextOrNull hsrc, Graph.refPath_isTextOrNull hdst⟩
      attributes := Graph.isFields_of_isMappingOrNull h.attributes }

/-- The transitions that are read are those in the lists of the record, with the names of their groups. -/
theorem WellGrown.of_mem_heldTransitions (h : r.WellGrown g) {held : HeldTransition}
    (hheld : held ∈ r.heldTransitions g) :
    held.record ∈ r.held g ∧ held.eventName.IsTextOrNull := by
  -- in a group, which has a name, or on its own
  rcases List.mem_append.mp hheld with hheld | hheld
  · obtain ⟨e, he, hheld⟩ := List.mem_flatMap.mp hheld
    obtain ⟨group, hgroup, hheld⟩ := List.mem_flatMap.mp hheld
    rw [Graph.memberRecords_eq (h.groupLists e he)] at hgroup
    have hgroup' : group ∈ r.groups g := List.mem_flatMap.mpr ⟨e, he, hgroup⟩
    rw [Graph.memberRecords_eq (h.transitionLists group hgroup')] at hheld
    obtain ⟨record, hrecord, rfl⟩ := List.mem_map.mp hheld
    refine ⟨List.mem_append_left _ (List.mem_flatMap.mpr ⟨group, hgroup', hrecord⟩), ?_⟩
    exact Graph.data_isTextOrNull (h.groupNames group hgroup')
  · rw [Graph.memberRecords_eq h.singleList] at hheld
    obtain ⟨record, hrecord, rfl⟩ := List.mem_map.mp hheld
    exact ⟨List.mem_append_right _ hrecord, .inl rfl⟩

/-- The lists of transitions of a record can be read if they have the types they should have. -/
theorem WellGrown.legible (h : r.WellGrown g) : r.LegibleTransitions g .texts where
  groups e he := Graph.isIterable_of_isListOrNull (h.groupLists e he)
  grouped e he group hgroup := by
    rw [Graph.memberRecords_eq (h.groupLists e he)] at hgroup
    have hgroup' : group ∈ r.groups g := List.mem_flatMap.mpr ⟨e, he, hgroup⟩
    exact Graph.isIterable_of_isListOrNull (h.transitionLists group hgroup')
  single := Graph.isIterable_of_isListOrNull h.singleList
  each held hheld := by
    obtain ⟨hmem, hname⟩ := h.of_mem_heldTransitions hheld
    have htyped := h.heldTyped held.record hmem
    exact {
      path := fun _ => Graph.data_isTextOrNull htyped.path
      attributes := Graph.isFields_of_isMappingOrNull htyped.attributes
      destination := fun _ _ => Graph.refPath_isTextOrNull htyped.dst
      event := fun _ _ => hname }

/-- In a tree of well-typed records, no others are met than those that can be reached. -/
theorem reachable_of_met {root : Record}
    (htyped : ∀ r, Reachable g root r → r.WellTyped g ∧ r.WellGrown g) (h : Met g root r) :
    Reachable g root r := by
  induction h with
  | root => exact .root
  | child _ _ hmem hlist hc ih => exact .child ih hmem hlist hc
  | destination _ _ hheld hdst ih =>
    exact .destination ih ((htyped _ ih).2.of_mem_heldTransitions hheld).1 hdst

/-- A tree of well-typed records is legible. -/
theorem legibleInTree_of_met {root : Record}
    (htyped : ∀ r, Reachable g root r → r.WellTyped g ∧ r.WellGrown g) (h : Met g root r) :
    r.LegibleInTree g .texts := by
  obtain ⟨hr, hgrown⟩ := htyped r (reachable_of_met htyped h)
  exact {
    here := hr.legible (.inl rfl)
    transitions := fun _ => hgrown.legible
    lists := fun _ e he _ => hgrown.keys e he }

end Record

/-! ### Models -/

/-- The record is read: it stands in the table, or is met in the tree. -/
def Model.Reads (model : Model) (r : Record) : Prop :=
  (∃ objects path, model.graph.entries? (model.field "objects") = some objects ∧
    (path, r) ∈ model.graph.tableRecords objects) ∨
  (model.field "objects" = .null ∧ ∃ root, model.graph.record? (model.field "root") = some root ∧
    Record.Met model.graph root r)

/-- What is collected from well-typed records is as demanded, unless a type cannot be written. -/
theorem Machine.wellFormed_of_ends {blame : Fault → Prop} {x : Logged Machine}
    (h : x.Ends blame fun m => True → m.Meets .texts) :
    x.Ends blame fun m => m.WellFormed ∧ m.Titled :=
  h.mono fun _ _ hm => ⟨(hm trivial).wellFormed, (hm trivial).titled⟩

/-- A tree of well-typed records has a machine if their types can be written. -/
theorem Machine.ofTree_wellTyped {g : Graph} {root : Record}
    (htyped : ∀ r, Record.Reachable g root r → r.WellTyped g ∧ r.WellGrown g) :
    (ofTree g root).Ends (Fault.Mistyped g (Record.Met g root)) fun m => m.WellFormed ∧ m.Titled :=
  wellFormed_of_ends (ofTree_ends (Fault.Mistyped.blames g _) fun _ _ hr =>
    Record.legibleInTree_of_met htyped hr)

/-- A table of well-typed records by texts has a machine if their types can be written. -/
theorem Machine.ofTable_wellTyped {g : Graph} {objects : Table Value}
    (h : ∀ e ∈ objects, e.1.IsText ∧ ∀ r, g.record? e.2 = some r → r.WellTyped g) :
    (ofTable g objects).Ends (Fault.Mistyped g fun r => ∃ path, (path, r) ∈ g.tableRecords objects)
      fun m => m.WellFormed ∧ m.Titled := by
  have hlegible : ∀ e ∈ g.tableRecords objects, e.2.Legible g .texts e.1 := by
    intro e he
    obtain ⟨entry, hentry, hsome⟩ := List.mem_filterMap.mp he
    obtain ⟨r, hr, rfl⟩ := Option.map_eq_some_iff.mp hsome
    exact ((h entry hentry).2 r hr).legible (h entry hentry).1.isTextOrNull
  exact wellFormed_of_ends (ofTable_ends (Fault.Mistyped.blames g _) fun _ => hlegible)

/-- A well-typed model has a machine, which is well formed, unless a type that is read cannot be
written. -/
theorem Model.rawMachine_wellTyped {model : Model} (h : model.WellTyped) :
    model.rawMachine.Ends (Fault.Mistyped model.graph model.Reads)
      fun m => m.WellFormed ∧ m.Titled := by
  unfold rawMachine
  -- a table is read before a tree
  rcases h with ⟨table, htable, htyped⟩ | ⟨hnull, root, hroot, htyped⟩
  · dsimp only
    split
    next hnull => rw [hnull] at htable; cases htable
    next =>
      rw [htable]
      refine (Machine.ofTable_wellTyped htyped).weaken ?_
      rintro _ ⟨rfl, r, ⟨path, hr⟩, hnone⟩
      exact ⟨rfl, r, .inl ⟨table, path, htable, hr⟩, hnone⟩
  · rw [hnull]
    dsimp only
    rw [hroot]
    refine (Machine.ofTree_wellTyped htyped).weaken ?_
    rintro _ ⟨rfl, r, hr, hnone⟩
    exact ⟨rfl, r, .inr ⟨hnull, root, hroot, hr⟩, hnone⟩

/-- What can be looked up is looked up. -/
theorem Machine.node?_of_isKey (m : Machine) {path : Data} (h : path.isKey = true) :
    m.node? path = .ok (m.find? path) := by
  rw [node?, if_pos h]

/-- A machine with the same nodes and the same transitions, kinds apart, is well formed as well. -/
theorem Machine.WellFormed.marked {m marked : Machine} (h : m.WellFormed)
    (hnodes : marked.nodes = m.nodes)
    (htransitions : ∀ t ∈ marked.transitions, ∃ kind, { t with kind } ∈ m.transitions) :
    marked.WellFormed := by
  refine ⟨hnodes ▸ h.paths, fun t ht => ?_, fun t ht => ?_, fun t ht => ?_⟩ <;>
    obtain ⟨kind, hmem⟩ := htransitions t ht
  · have hsrc := h.sources _ hmem
    exact hsrc
  · have hdst := h.destinations _ hmem
    exact hdst
  · have hevent := h.eventNames _ hmem
    exact hevent

/-- In a well-formed machine the titles can be put into words if the paths of the transitions can. -/
theorem Machine.WellFormed.titled {m : Machine} (h : m.WellFormed)
    (hpaths : ∀ t ∈ m.transitions, t.path.hasLongNumber = false) : m.Titled := fun t ht =>
  Transition.requireTitle_of_written (fun _ => hpaths t ht) (h.sources t ht).hasLongNumber
    (h.destinations t ht).hasLongNumber

/-- A title says nothing of the kind. -/
theorem Machine.Titled.marked {m marked : Machine} (h : m.Titled)
    (htransitions : ∀ t ∈ marked.transitions, ∃ kind, { t with kind } ∈ m.transitions) :
    marked.Titled := by
  intro t ht
  obtain ⟨kind, hmem⟩ := htransitions t ht
  have htitle := h _ hmem
  exact htitle

end HomeAutomaton
