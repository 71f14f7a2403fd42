import HomeAutomaton.Data.Lists
import HomeAutomaton.Model.Blueprint
import HomeAutomaton.Proofs.NormalForm
import HomeAutomaton.Proofs.Traversal

/-!
# The machine of a flat export

While a blueprint is collected, the machine so far shows what was collected of it (`Machine.Shows`):
these nodes, and transitions with these normal forms, in this order. Paths are different from one
another, so nothing is passed over as known.

* `Machine.Shows.addNode` and `Machine.Shows.addTransition` add one node and one transition.
* `Blueprint.IsFlatExport.rawMachine` is about the whole table.
-/

namespace HomeAutomaton

/-! ### Types of records -/

/-- What names a kind of node does not name a kind of transition. -/
theorem TransitionKind.ofType?_eq_none {typeText : String} {kind : NodeKind}
    (h : NodeKind.ofType? typeText = some kind) : TransitionKind.ofType? typeText = none := by
  obtain ⟨e, he, -⟩ := Option.map_eq_some_iff.mp h
  have hkey : e.1.toList = typeKey typeText := by simpa using List.find?_some he
  have hmem := List.mem_of_find?_eq_some he
  rw [TransitionKind.ofType?, ← hkey]
  clear he hkey h
  revert e
  decide

theorem Record.pointerKind?_eq_none {g : Graph} {r : Record} {kind : NodeKind}
    (h : r.nodeKind? g = some kind) : r.pointerKind? g = none := by
  obtain ⟨typeText, htype, hkind⟩ := Option.bind_eq_some_iff.mp h
  rw [pointerKind?, transitionKind?, htype, Option.bind_some, TransitionKind.ofType?_eq_none hkind,
    ite_self]

/-- What names a kind of node is a type that can be written. -/
theorem Record.requireText_of_nodeKind? {g : Graph} {r : Record} {kind : NodeKind}
    (h : r.nodeKind? g = some kind) : (r.typeData g).requireText = .ok () := by
  obtain ⟨typeText, htype, -⟩ := Option.bind_eq_some_iff.mp h
  rw [typeText?] at htype
  split at htype
  next => cases htype
  next hshort => rw [Data.requireText, if_neg hshort]

/-! ### Transitions of a blueprint -/

/-- The transition is one of a blueprint: it has a path, its event is that of a group, and if it stays in
its source, this is its destination. -/
structure Transition.IsDrawn (t : Transition) : Prop where
  path : ∃ s, s ≠ "" ∧ t.path = .str s
  event : ∃ s, t.eventName = .str s
  eventApart : t.attributes.get? (.str "Event") = none
  kind : t.kind = .external ∨ t.kind = .internal
  stays : t.kind = .internal → t.dst = t.src

namespace Transition

variable {t t' : Transition}

/-- Transitions with the same ends and path, and with the same event, action and guard, have the same
normal form. -/
theorem normal_congr (hkind : t.kind = t'.kind) (hsrc : t.src = t'.src) (hdst : t.dst = t'.dst)
    (hpath : t.path = t'.path) (hevent : t.normalEvent = t'.normalEvent)
    (hattributes : ∀ key, key ≠ "Event" →
      t.attributes.get? (.str key) = t'.attributes.get? (.str key)) : t.normal = t'.normal := by
  have hattr : ∀ key, key ≠ "Event" → t.attr? key = t'.attr? key := fun key hkey => by
    rw [attr?, attr?, textAttribute?, textAttribute?, hattributes key hkey]
  rw [normal, normal, hkind, hsrc, hdst, hpath, hevent, hattr "Action" (by decide),
    hattr "Guard" (by decide)]

/-- The event of a transition of a blueprint is the name of its group, unless it is blank. -/
theorem IsDrawn.normalEvent_eq (h : t.IsDrawn) {s : String} (hs : t.eventName = .str s) :
    t.normalEvent = if Text.isBlankText s then .null else .str s := by
  rw [normalEvent, attr?, textAttribute?, h.eventApart, hs]

/-- An event among the attributes is as good as one of a group. -/
theorem IsDrawn.normal_of_pointers (h : t.IsDrawn) {table : Table Data}
    (hevent : table.get? (.str "Event") = some t.eventName)
    (hothers : ∀ key, key ≠ "Event" → table.get? (.str key) = t.attributes.get? (.str key)) :
    normal { kind := t.kind, src := t.src, dst := t.dst, attributes := table, path := t.path }
      = t.normal := by
  refine normal_congr rfl rfl rfl rfl ?_ hothers
  obtain ⟨s, hs⟩ := h.event
  rw [h.normalEvent_eq hs, normalEvent, attr?, textAttribute?, hevent, hs]
  cases hblank : Text.isBlankText s <;> simp [hblank]

end Transition

namespace Machine

/-- The machine has these nodes, and transitions with the normal forms of these. -/
structure Shows (m : Machine) (nodes : List Node) (ts : List Transition) : Prop where
  nodes : m.nodes = nodes
  transitions : m.transitions.map Transition.normal = ts.map Transition.normal
  keys : m.keys = ts.map fun t => .path t.path
  eventNames : ∀ t ∈ m.transitions, t.eventName.IsTextOrNull

variable {m m' : Machine} {nodes : List Node} {ts : List Transition}

theorem Shows.empty : Shows {} [] [] :=
  ⟨rfl, rfl, rfl, fun _ ht => absurd ht List.not_mem_nil⟩

/-- Machines that show the same have the same normal form. -/
theorem Shows.normal_eq (h : m.Shows nodes ts) (h' : m'.Shows nodes ts) : m.normal = m'.normal := by
  have hnodes := h.nodes.trans h'.nodes.symm
  have htransitions := h.transitions.trans h'.transitions.symm
  obtain ⟨_, _, _, _⟩ := m
  obtain ⟨_, _, _, _⟩ := m'
  obtain rfl := hnodes
  simp only [normal, htransitions]

/-- A node with a path of its own is new. -/
theorem Shows.addNode (h : m.Shows nodes ts) (n : Node) (hpath : n.path.IsText)
    (hnew : ∀ other ∈ nodes, other.path ≠ n.path) :
    ∃ m', m.addNode n = .ok (true, m') ∧ m'.Shows (nodes ++ [n]) ts := by
  have hnot : ¬ m.nodes.any (fun other => other.path.same n.path) = true := by
    rw [h.nodes, List.any_eq_true]
    rintro ⟨other, hother, hsame⟩
    exact hnew other hother ((Data.same_iff' hpath).mp hsame)
  rw [Machine.addNode, hpath.isKey, dif_neg hnot]
  exact ⟨_, rfl, by rw [← h.nodes], h.transitions, h.keys, h.eventNames⟩

/-- A transition with a path of its own is new. It may be given in any form. -/
theorem Shows.addTransition (h : m.Shows nodes ts) {t t' : Transition} (hdrawn : t.IsDrawn)
    (hform : t'.normal = t.normal) (hevent : t'.eventName.IsTextOrNull)
    (hnew : ∀ other ∈ ts, other.path ≠ t.path) (otherwise : TransitionKey) :
    ∃ m', m.addTransition t' (.ofPath t.path otherwise) = .ok (true, m') ∧
      m'.Shows nodes (ts ++ [t]) := by
  obtain ⟨s, hs, hpath⟩ := hdrawn.path
  -- transitions are told apart by their paths, since all have one
  have hkey : TransitionKey.ofPath t.path otherwise = .path t.path := by
    rw [TransitionKey.ofPath, hpath]
    simp [hs]
  have hnot : ¬ m.keys.any (TransitionKey.path t.path).same = true := by
    rw [h.keys, List.any_eq_true]
    rintro ⟨key, hmem, hsame⟩
    obtain ⟨other, hother, rfl⟩ := List.mem_map.mp hmem
    exact hnew other hother ((Data.same_iff ⟨s, hpath⟩).mp hsame).symm
  rw [hkey, Machine.addTransition, if_neg hnot]
  simp only [TransitionKey.isKey, hpath, Data.isKey_str]
  refine ⟨_, rfl, h.nodes, ?_, ?_, ?_⟩
  · simp [h.transitions, hform]
  · simp [h.keys, hpath]
  · exact List.forall_mem_append.mpr ⟨h.eventNames, List.forall_mem_singleton.mpr hevent⟩

end Machine

namespace Blueprint

/-! ### What a blueprint is made of -/

/-- What comes before an item in a list without repetitions is different from it. -/
theorem ne_of_nodup {α β : Type} {f : α → β} {xs ys : List α} {x : α}
    (h : ((xs ++ x :: ys).map f).Nodup) : ∀ y ∈ xs, f y ≠ f x := by
  intro y hy hsame
  rw [List.map_append, List.map_cons] at h
  refine List.disjoint_of_nodup_append h (List.mem_map.mpr ⟨y, hy, rfl⟩) ?_
  rw [hsame]
  exact List.mem_cons_self

/-- The node of a part with a path of its own is different from those before it. -/
theorem node_path_ne {done rest : List Part} {p : Part}
    (h : ((done ++ p :: rest).map (·.path)).Nodup) :
    ∀ other ∈ done.map Part.node, other.path ≠ p.node.path := by
  intro other hother hsame
  obtain ⟨q, hq, rfl⟩ := List.mem_map.mp hother
  exact ne_of_nodup h q hq (Data.str.inj hsame)

variable (b : Blueprint)

/-- The parts of a blueprint have paths of their own. -/
theorem all_nodup : (b.all.map (·.path)).Nodup := b.paths

/-- No part of a blueprint has an empty path. -/
theorem all_filled : ∀ p ∈ b.all, p.path ≠ "" := by
  intro p hp hempty
  exact b.pathsFilled (hempty ▸ List.mem_map.mpr ⟨p, hp, rfl⟩ : "" ∈ b.all.map (·.path))

/-- The paths of the transitions of a part. -/
theorem Part.map_path_transitions (p : Part) :
    p.transitions.map (·.path) = p.moves.map fun m => .str m.path := by
  simp [transitions, external, internal, moves, Move.transition, Function.comp_def]

/-- Transitions have paths of their own as well. -/
theorem transitions_nodup : (b.transitions.map (·.path)).Nodup := by
  have hpaths : b.transitions.map (·.path)
      = ((b.parts.flatMap Part.moves).map (·.path)).map Data.str := by
    simp [transitions, all, root, List.map_flatMap, Part.map_path_transitions, Part.moves,
      Function.comp_def]
  rw [hpaths]
  exact b.movePaths.map fun _ _ => Data.str.inj

/-- The transitions of a part are those of a blueprint. -/
theorem Part.isDrawn (p : Part) (hpaths : "" ∉ p.moves.map (·.path))
    (hevents : ∀ m ∈ p.moves, m.attributes.get? (.str "Event") = none) :
    ∀ t ∈ p.transitions, t.IsDrawn := by
  have hfilled : ∀ m ∈ p.moves, m.path ≠ "" := fun m hm hempty =>
    hpaths (hempty ▸ List.mem_map.mpr ⟨m, hm, rfl⟩)
  intro t ht
  -- a transition leaves the part or stays in it
  rcases List.mem_append.mp ht with ht | ht
  · obtain ⟨a, ha, rfl⟩ := List.mem_map.mp ht
    have hmem : a.toMove ∈ p.moves := List.mem_append_left _ (List.mem_map.mpr ⟨a, ha, rfl⟩)
    exact ⟨⟨_, hfilled _ hmem, rfl⟩, ⟨_, rfl⟩, hevents _ hmem, .inl rfl, fun h => by cases h⟩
  · obtain ⟨m, hm, rfl⟩ := List.mem_map.mp ht
    have hmem : m ∈ p.moves := List.mem_append_right _ hm
    exact ⟨⟨_, hfilled _ hmem, rfl⟩, ⟨_, rfl⟩, hevents _ hmem, .inr rfl, fun _ => rfl⟩

theorem isDrawn : ∀ t ∈ b.transitions, t.IsDrawn := by
  intro t ht
  obtain ⟨p, hp, ht⟩ := List.mem_flatMap.mp ht
  rcases List.mem_cons.mp hp with rfl | hp
  · exact absurd ht List.not_mem_nil
  · refine p.isDrawn (fun hempty => b.movePathsFilled ?_) (fun m hm => b.eventsApart m ?_) t ht
    · obtain ⟨m, hm, hpath⟩ := List.mem_map.mp hempty
      exact List.mem_map.mpr ⟨m, List.mem_flatMap.mpr ⟨p, hp, hm⟩, hpath⟩
    · exact List.mem_flatMap.mpr ⟨p, hp, hm⟩

variable {b} {g : Graph} {p : Part} {r : Record}

/-- A record that shows a part stands for its node. -/
theorem ShowsPart.node? {otherwise : Data} (h : ShowsPart g otherwise p r) (hfilled : p.path ≠ "") :
    r.node? g otherwise = pure (some p.node) := by
  -- the name is a text or missing, so it can be written
  have hlong : (r.nameData g).hasLongNumber = false := by
    rw [h.name, Data.ofText]
    split
    · exact Data.IsTextOrNull.hasLongNumber (.inl rfl)
    · exact Data.IsTextOrNull.hasLongNumber (.inr ⟨_, rfl⟩)
  -- and missing means that it is empty
  have hname : r.name g = p.name := by
    rw [Record.name, h.name, Data.ofText]
    split
    next hempty => rw [hempty]; rfl
    next hempty => simp [Data.nameText, hempty, Data.isFilled]
  have hwritten : (r.nameData g).requireText = .ok () := by
    rw [Data.requireText, hlong]
    rfl
  rw [Record.node?, Record.requireText_of_nodeKind? h.kind, h.kind, hwritten]
  simp [h.path, hfilled, hname, h.attributes, Part.node]

/-! ### Tables -/

/-- The nodes of the blueprint are collected from a table. -/
theorem addTableNodes_shows {ps : List Part} {records : List (Data × Record)}
    (h : List.Forall₂ (fun p e => ShowsPart g e.1 p e.2) ps records)
    (hfilled : ∀ p ∈ ps, p.path ≠ "") {m : Machine} {done : List Part} {ts : List Transition}
    (hm : m.Shows (done.map Part.node) ts) (hnodup : ((done ++ ps).map (·.path)).Nodup) :
    ∃ m', Machine.addTableNodes g m records = pure m' ∧ m'.Shows ((done ++ ps).map Part.node) ts := by
  -- along the parts; those collected so far are `done`
  induction h generalizing m done with
  | nil => exact ⟨m, rfl, by rwa [List.append_nil]⟩
  | @cons p e ps records hp _ ih =>
    obtain ⟨hpath, hrest⟩ := List.forall_mem_cons.mp hfilled
    obtain ⟨m₁, hadd, hm₁⟩ := hm.addNode p.node ⟨_, rfl⟩ (node_path_ne hnodup)
    rw [← List.map_singleton, ← List.map_append] at hm₁
    rw [List.append_cons] at hnodup ⊢
    obtain ⟨m', hrecords, hm'⟩ := ih hrest hm₁ hnodup
    refine ⟨m', ?_, hm'⟩
    simp only [Machine.addTableNodes, hp.node? hpath, Logged.bind_done, hadd, Logged.liftM_ok, hrecords]

/-- A transition of the blueprint is collected from its record with pointers. -/
theorem ShowsPointers.addPointerTransition {otherwise : Data} {t : Transition} (hdrawn : t.IsDrawn)
    (h : ShowsPointers g otherwise t r) {m : Machine} {nodes : List Node} {ts : List Transition}
    (hm : m.Shows nodes ts) (hnew : ∀ other ∈ ts, other.path ≠ t.path) :
    ∃ m', r.addPointerTransition g t.kind otherwise m = .ok m' ∧ m'.Shows nodes (ts ++ [t]) := by
  obtain ⟨pointers, hpointers, hsrc, hdst⟩ := h.ends
  obtain ⟨table, htable, hevent, hothers⟩ := h.attributes
  obtain ⟨m', hadd, hm'⟩ := hm.addTransition hdrawn (hdrawn.normal_of_pointers hevent hothers)
    (.inl rfl) hnew (.record r.label)
  refine ⟨m', ?_, hm'⟩
  simp only [Record.addPointerTransition, hpointers, ok_bind, htable, hsrc, h.path]
  -- a transition that leads nowhere stays in its source, as it does in the blueprint
  split
  next hkind _ =>
    rw [hdrawn.stays hkind] at hadd
    rw [hadd, ok_bind]
  next hleads =>
    split at hdst
    next hkind => exact absurd hdst (hleads hkind)
    next => rw [hdst, hadd, ok_bind]

/-- The records with pointers, each with the kind of transition that it names. -/
def withPointers (g : Graph) (records : List (Data × Record)) : List (Data × Record × TransitionKind) :=
  records.filterMap fun e => (e.2.pointerKind? g).map fun kind => (e.1, e.2, kind)

/-- The transitions of the blueprint are collected from a table. -/
theorem addTableTransitions_shows {new : List Transition} {records : List (Data × Record)}
    (h : List.Forall₂ (fun t e => ShowsPointers g e.1 t e.2) new records)
    (hdrawn : ∀ t ∈ new, t.IsDrawn) {m : Machine} {nodes : List Node} {ts : List Transition}
    (hm : m.Shows nodes ts) (hnodup : ((ts ++ new).map (·.path)).Nodup) :
    ∃ m', Machine.addTableTransitions g m (withPointers g records) = .ok m' ∧
      m'.Shows nodes (ts ++ new) := by
  -- along the transitions, as for nodes
  induction h generalizing m ts with
  | nil => exact ⟨m, rfl, by rwa [List.append_nil]⟩
  | @cons t e new records ht _ ih =>
    obtain ⟨hfirst, hrest⟩ := List.forall_mem_cons.mp hdrawn
    obtain ⟨m₁, hadd, hm₁⟩ := ht.addPointerTransition hfirst hm (ne_of_nodup hnodup)
    rw [List.append_cons] at hnodup ⊢
    obtain ⟨m', hrecords, hm'⟩ := ih hrest hm₁ hnodup
    refine ⟨m', ?_, hm'⟩
    simp only [withPointers, List.filterMap_cons, ht.kind, Option.map_some,
      Machine.addTableTransitions, hadd, ok_bind]
    exact hrecords

/-- The records of a table, entry by entry. -/
theorem tableRecords_of_forall₂ {α : Type} {p : Data → α → Record → Prop} {xs : List α}
    {entries : Table Value}
    (h : List.Forall₂ (fun x e => ∃ r, g.record? e.2 = some r ∧ p e.1 x r) xs entries) :
    List.Forall₂ (fun x e => p e.1 x e.2) xs (g.tableRecords entries) := by
  induction h with
  | nil => exact .nil
  | @cons x e xs entries hx _ ih =>
    obtain ⟨r, hr, hp⟩ := hx
    rw [Graph.tableRecords, List.filterMap_cons, hr]
    exact .cons hp ih

/-- A table in which the entries without pointers come first. -/
theorem ofTable_append {nodeEntries moveEntries : Table Value}
    (hnodes : ∀ e ∈ g.tableRecords nodeEntries, e.2.pointerKind? g = none)
    (hmoves : ∀ e ∈ g.tableRecords moveEntries, (e.2.pointerKind? g).isSome) :
    Machine.ofTable g (nodeEntries ++ moveEntries) = (do
      let m ← Machine.addTableNodes g {} (g.tableRecords nodeEntries)
      Machine.addTableTransitions g m (withPointers g (g.tableRecords moveEntries))) := by
  -- nodes are picked out first, then what has pointers; here this is the order of the table
  have hrecords : g.tableRecords (nodeEntries ++ moveEntries)
      = g.tableRecords nodeEntries ++ g.tableRecords moveEntries := List.filterMap_append
  have hfirst : (g.tableRecords (nodeEntries ++ moveEntries)).filter
      (fun e => (e.2.pointerKind? g).isNone) = g.tableRecords nodeEntries := by
    rw [hrecords, List.filter_append, List.filter_eq_self.mpr, List.filter_eq_nil_iff.mpr,
      List.append_nil]
    · exact fun e he => by simpa using Option.isSome_iff_ne_none.mp (hmoves e he)
    · exact fun e he => by rw [hnodes e he]; rfl
  have hsecond : withPointers g (g.tableRecords (nodeEntries ++ moveEntries))
      = withPointers g (g.tableRecords moveEntries) := by
    rw [withPointers, hrecords, List.filterMap_append, List.filterMap_eq_nil_iff.mpr, List.nil_append]
    · rfl
    · exact fun e he => by rw [hnodes e he]; rfl
  rw [Machine.ofTable, hfirst, ← hsecond]
  rfl

/-- **The machine of a flat export is that of the blueprint**, up to the form of its transitions. -/
theorem IsFlatExport.rawMachine {model : Model} (h : b.IsFlatExport model) :
    ∃ m, model.rawMachine = pure m ∧ m.Shows b.nodes b.transitions := by
  obtain ⟨nodeEntries, moveEntries, hobjects, hnodes, hmoves⟩ := h
  have hparts := tableRecords_of_forall₂ hnodes
  have hpointers := tableRecords_of_forall₂ hmoves
  have hempty : Machine.Shows {} (([] : List Part).map Part.node) [] := .empty
  obtain ⟨m₁, haddNodes, hm₁⟩ := addTableNodes_shows hparts b.all_filled hempty b.all_nodup
  obtain ⟨m, haddMoves, hm⟩ := addTableTransitions_shows hpointers b.isDrawn hm₁ b.transitions_nodup
  refine ⟨m, ?_, hm⟩
  -- records of nodes have no pointers, and those of transitions have
  have hnoPointers := forall_mem_of_forall₂ hparts fun p e (h : ShowsPart model.graph e.1 p e.2) =>
    Record.pointerKind?_eq_none h.kind
  have hkinds := forall_mem_of_forall₂ hpointers fun t e (h : ShowsPointers model.graph e.1 t e.2) =>
    Option.isSome_iff_exists.mpr ⟨_, h.kind⟩
  rw [Model.rawMachine_of_table hobjects, ofTable_append hnoPointers hkinds, haddNodes,
    Logged.bind_done, haddMoves]
  rfl

end Blueprint

end HomeAutomaton
