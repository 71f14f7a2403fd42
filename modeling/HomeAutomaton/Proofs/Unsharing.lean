import HomeAutomaton.Proofs.Revisits
import HomeAutomaton.Proofs.Unfolding

/-!
# Shared records and copies of them

In a tree model the same record can stand in several places. It could as well be written out in each of
them: an export of the model holds copies. The machine is the same, as long as no record stands below
itself, and transitions have paths to be told apart by.

* `Record.Alike` relates records that hold values that are alike, and `Record.enter_alike` says that they
  read alike.
* `Machine.ofTree_unshared` is the result.
-/

namespace HomeAutomaton

variable {g g' : Graph}

/-- Related options are both none, or both some. -/
theorem cases_of_rel {α β : Type} {related : α → β → Prop} {x : Option α} {y : Option β}
    (h : Option.Rel related x y) :
    (x = none ∧ y = none) ∨ ∃ a b, x = some a ∧ y = some b ∧ related a b := by
  cases h with
  | none => exact .inl ⟨rfl, rfl⟩
  | some h => exact .inr ⟨_, _, rfl, rfl, h⟩

/-! ### Values -/

namespace Graph

variable {v v' : Value}

theorem Alike.null : Alike g g' .null .null := ⟨.null, rfl, rfl⟩

/-- Whether a value counts as filled is told by its kind, and by whether a container is empty. -/
theorem Alike.isFilled (h : Alike g g' v v') : g.isFilled v = g'.isFilled v' := by
  rcases h.cases with ⟨rfl, hscalar⟩ | ⟨label, label', cell, cell', rfl, rfl, hcell, hcell', hcells⟩
  · cases v with
    | ref label => exact absurd rfl (hscalar label)
    | _ => rfl
  · rw [Graph.isFilled, Graph.isFilled, hcell, hcell']
    cases hcells with
    -- a container is filled when it has members, and the members are paired
    | list hitems | tuple hitems | set hitems => cases hitems <;> rfl
    | map hentries => cases hentries <;> rfl
    | _ => rfl

end Graph

/-- The two records are objects of their graphs, and hold values that are alike. -/
structure Record.Alike (g g' : Graph) (r r' : Record) : Prop where
  isIn : r.IsIn g
  isIn' : r'.IsIn g'
  entries : Graph.AlikeEntries g g' r.entries r'.entries

namespace Graph

variable {v v' : Value}

/-- Values that are alike refer to records that are alike, or to none. -/
theorem Alike.record? (h : Alike g g' v v') :
    Option.Rel (Record.Alike g g') (g.record? v) (g'.record? v') := by
  rcases h.cases with ⟨rfl, hscalar⟩ | ⟨label, label', cell, cell', rfl, rfl, hcell, hcell', hcells⟩
  · cases v with
    | ref label => exact absurd rfl (hscalar label)
    | _ => exact .none
  · cases hcells with
    | @map es es' hentries =>
      have hr : g.record? (.ref label) = some ⟨label, es⟩ := by rw [Graph.record?, hcell]
      have hr' : g'.record? (.ref label') = some ⟨label', es'⟩ := by rw [Graph.record?, hcell']
      rw [hr, hr']
      exact .some ⟨Record.isIn_of_record? hr, Record.isIn_of_record? hr', hentries⟩
    | _ =>
      rw [Graph.record?, Graph.record?, hcell, hcell']
      exact .none

/-- Lists of values that are alike hold records that are alike. -/
theorem filterMap_record?_alike {vs vs' : List Value} (h : List.Forall₂ (Alike g g') vs vs') :
    List.Forall₂ (Record.Alike g g') (vs.filterMap g.record?) (vs'.filterMap g'.record?) :=
  List.rel_filterMap (fun _ _ hv => hv.record?) h

/-- The records listed by values that are alike are alike, one by one, and a value that cannot be gone through
fails with the same fault. -/
theorem Alike.recordsIn (h : Alike g g' v v') :
    EndsLike (List.Forall₂ (Record.Alike g g')) (g.recordsIn v) (g'.recordsIn v') := by
  have hfilled := h.isFilled
  unfold Graph.recordsIn
  rw [← hfilled]
  split
  next => exact .nil
  next =>
    -- equal scalars list the same; of containers, those that can be gone through are told by the kind of cell
    rcases h.cases with ⟨rfl, hscalar⟩ | ⟨label, label', cell, cell', rfl, rfl, hcell, hcell', hcells⟩
    · cases v with
      | ref label => exact absurd rfl (hscalar label)
      | str s => exact .nil
      | _ => exact rfl
    · simp only [Graph.deref?, hcell, hcell']
      cases hcells with
      | list hitems | tuple hitems | set hitems => exact filterMap_record?_alike hitems
      | map | bytes => exact .nil
      | date | dateTime => exact rfl

/-- Values that are alike are both lists, with items that are alike, or neither of them is. -/
theorem Alike.isList (h : Alike g g' v v') :
    (∃ items items', g.deref? v = some (.list items) ∧ g'.deref? v' = some (.list items') ∧
      List.Forall₂ (Alike g g') items items') ∨
    (∀ items, g.deref? v ≠ some (.list items)) ∧ ∀ items, g'.deref? v' ≠ some (.list items) := by
  rcases h.cases with ⟨rfl, hscalar⟩ | ⟨label, label', cell, cell', rfl, rfl, hcell, hcell', hcells⟩
  · cases v with
    | ref label => exact absurd rfl (hscalar label)
    | _ => exact .inr ⟨fun _ heq => (nomatch heq), fun _ heq => (nomatch heq)⟩
  · simp only [Graph.deref?, hcell, hcell']
    cases hcells with
    | list hitems => exact .inl ⟨_, _, rfl, rfl, hitems⟩
    | _ => exact .inr ⟨fun _ heq => (nomatch heq), fun _ heq => (nomatch heq)⟩

/-- Truth values are alike when they are equal. No reference is like one. -/
theorem Alike.eq_bool_iff (h : Alike g g' v v') (b : Bool) : v = .bool b ↔ v' = .bool b := by
  rcases h.cases with ⟨rfl, -⟩ | ⟨label, label', cell, cell', rfl, rfl, -⟩
  · exact .rfl
  · simp

/-- Values that are alike, one by one, are written out as the same data. -/
theorem map_data_alike {vs vs' : List Value} (h : List.Forall₂ (Alike g g') vs vs') :
    vs.map g.data = vs'.map g'.data := by
  induction h with
  | nil => rfl
  | cons hv _ ih => rw [List.map_cons, List.map_cons, hv.data, ih]

/-- Alike entries have the same keys. -/
theorem AlikeEntries.map_fst {es es' : Table Value} (h : AlikeEntries g g' es es') :
    es.map (·.1) = es'.map (·.1) := by
  induction h with
  | nil => rfl
  | cons he _ ih => rw [List.map_cons, List.map_cons, he.1, ih]

theorem AlikeEntries.map_data {es es' : Table Value} (h : AlikeEntries g g' es es') :
    es.map (fun e => (e.1, g.data e.2)) = es'.map fun e => (e.1, g'.data e.2) := by
  induction h with
  | nil => rfl
  | cons he _ ih => rw [List.map_cons, List.map_cons, he.1, he.2.data, ih]

/-- What a value gives when it is taken for a pair. -/
theorem Alike.pairItems? (h : Alike g g' v v') : g.pairItems? v = g'.pairItems? v' := by
  rcases h.cases with ⟨rfl, hscalar⟩ | ⟨label, label', cell, cell', rfl, rfl, hcell, hcell', hcells⟩
  · cases v with
    | ref label => exact absurd rfl (hscalar label)
    | _ => rfl
  · simp only [Graph.pairItems?, Graph.deref?, hcell, hcell']
    cases hcells with
    | list hitems | tuple hitems | set hitems => exact congrArg some (map_data_alike hitems)
    -- of a mapping the keys are gone through, and they are equal
    | map hentries => exact congrArg some hentries.map_fst
    | _ => rfl

/-- The table that pairs are collected to holds data, in which nothing is shared. -/
theorem tableOfPairs_alike {vs vs' : List Value} (h : List.Forall₂ (Alike g g') vs vs')
    (table : Table Data) : g.tableOfPairs table vs = g'.tableOfPairs table vs' := by
  induction h generalizing table with
  | nil => rfl
  | cons hv _ ih =>
    rw [tableOfPairs, tableOfPairs, hv.pairItems?]
    simp only [ih]

theorem Alike.attributes (h : Alike g g' v v') : g.attributes v = g'.attributes v' := by
  have hfilled := h.isFilled
  unfold Graph.attributes
  rw [← hfilled]
  split
  next => rfl
  next =>
    -- scalars have no attributes, and objects that are alike have the same
    rcases h.cases with ⟨rfl, hscalar⟩ | ⟨label, label', cell, cell', rfl, rfl, hcell, hcell', hcells⟩
    · cases v with
      | ref label => exact absurd rfl (hscalar label)
      | _ => rfl
    · simp only [Graph.deref?, hcell, hcell']
      cases hcells with
      | list hitems | tuple hitems | set hitems => exact tableOfPairs_alike hitems []
      | map hentries => exact congrArg _ hentries.map_data
      | _ => rfl

/-- Under a key, alike entries hold values that are alike, or none. -/
theorem AlikeEntries.get? {es es' : Table Value} (h : AlikeEntries g g' es es') (key : Data) :
    Option.Rel (Alike g g') (Table.get? es key) (Table.get? es' key) := by
  induction h with
  | nil => exact .none
  | @cons e e' es es' he _ ih =>
    rw [Table.get?_cons, Table.get?_cons, ← he.1]
    split
    next => exact .some he.2
    next => exact ih

theorem Alike.refPath (h : Alike g g' v v') : g.refPath v = g'.refPath v' := by
  rcases h.cases with ⟨rfl, hscalar⟩ | ⟨label, label', cell, cell', rfl, rfl, -⟩
  · cases v with
    | ref label => exact absurd rfl (hscalar label)
    | _ => rfl
  -- the record referred to is found on both sides or on none, and so is its path
  · unfold Graph.refPath
    rcases cases_of_rel h.record? with ⟨hr, hr'⟩ | ⟨r, r', hr, hr', hrecords⟩
    · rw [hr, hr']
    · rw [hr, hr']
      rcases cases_of_rel (hrecords.entries.get? (.str "path")) with
        ⟨hpath, hpath'⟩ | ⟨path, path', hpath, hpath', hpaths⟩
      · simp only [hpath, hpath']
        rfl
      · simp only [hpath, hpath', Option.map_some, hpaths.data]

end Graph

namespace Record

variable {r r' : Record}

/-! ### Records -/

/-- A field that is missing reads as null on both sides. -/
theorem field_alike (h : Graph.AlikeEntries g g' r.entries r'.entries) (key : String) :
    Graph.Alike g g' (r.field key) (r'.field key) := by
  unfold field
  rcases cases_of_rel (h.get? (.str key)) with ⟨hv, hv'⟩ | ⟨v, v', hv, hv', hvalues⟩
  · rw [hv, hv']
    exact .null
  · rw [hv, hv']
    exact hvalues

/-- Alike entries have the same fields. -/
theorem has_alike (h : Graph.AlikeEntries g g' r.entries r'.entries) (key : String) :
    r.has key = r'.has key := by
  unfold has
  rcases cases_of_rel (h.get? (.str key)) with ⟨hv, hv'⟩ | ⟨v, v', hv, hv', -⟩
  · rw [hv, hv']
  · rw [hv, hv']
    rfl

namespace Alike

theorem field (h : r.Alike g g' r') (key : String) : Graph.Alike g g' (r.field key) (r'.field key) :=
  field_alike h.entries key

/-- Types are compared as data. -/
theorem typeData (h : r.Alike g g' r') : r.typeData g = r'.typeData g' := (h.field "type").data

/-- Their texts are equal or missing on both sides. -/
theorem typeText? (h : r.Alike g g' r') : r.typeText? g = r'.typeText? g' := by
  rw [Record.typeText?, Record.typeText?, h.typeData]

/-- So the records are of one kind. -/
theorem nodeKind? (h : r.Alike g g' r') : r.nodeKind? g = r'.nodeKind? g' := by
  rw [Record.nodeKind?, Record.nodeKind?, h.typeText?]

theorem pointerKind? (h : r.Alike g g' r') : r.pointerKind? g = r'.pointerKind? g' := by
  rw [Record.pointerKind?, Record.pointerKind?, has_alike h.entries, transitionKind?, transitionKind?,
    h.typeText?]

/-- The path, or what stands for it. -/
theorem pathOr (h : r.Alike g g' r') (otherwise : Data) : r.pathOr g otherwise = r'.pathOr g' otherwise := by
  rw [Record.pathOr, Record.pathOr, (h.field "path").isFilled, (h.field "path").data]

/-- The name. A sanitized name comes before the plain one on both sides. -/
theorem nameData (h : r.Alike g g' r') : r.nameData g = r'.nameData g' := by
  rw [Record.nameData, Record.nameData, (h.field "sanitizedName").isFilled,
    (h.field "sanitizedName").data, (h.field "name").isFilled, (h.field "name").data]

/-- **The node that is read of a record** is the same. -/
theorem node? (h : r.Alike g g' r') (otherwise : Data) : r.node? g otherwise = r'.node? g' otherwise := by
  rw [Record.node?, Record.node?, h.typeData, h.nodeKind?]
  simp only [h.pathOr, h.nameData, Record.name, (h.field "attributes").attributes]

/-- What a transition points to has alike entries. -/
theorem pointers (h : r.Alike g g' r') :
    EndsLike (fun p p' => Graph.AlikeEntries g g' p.entries p'.entries) (r.pointers g)
      (r'.pointers g') := by
  have hpointers := h.field "pointers"
  unfold Record.pointers
  dsimp only
  rw [hpointers.isFilled]
  split
  next => exact .nil
  next =>
    rcases cases_of_rel hpointers.record? with ⟨hp, hp'⟩ | ⟨p, p', hp, hp', hrecords⟩
    · rw [hp, hp']
      exact rfl
    · rw [hp, hp']
      exact hrecords.entries

/-- A transition with pointers and a path is added from both records alike. -/
theorem addPointerTransition (h : r.Alike g g' r') (kind : TransitionKind) {otherwise : Data}
    (hfilled : (r.pathOr g otherwise).isFilled = true) (m : Machine) :
    r.addPointerTransition g kind otherwise m = r'.addPointerTransition g' kind otherwise m := by
  refine EndsLike.eq (h.pointers.bind fun p p' hp => ?_)
  have hsrc := (field_alike hp "src").refPath
  have hdst := (field_alike hp "dst").refPath
  have hfilled' : (r'.pathOr g' otherwise).isFilled = true := h.pathOr otherwise ▸ hfilled
  simp only [hsrc, hdst, (h.field "attributes").attributes, h.pathOr, TransitionKey.ofPath, hfilled',
    if_true]
  exact .of_eq rfl

/-- The records below a record are alike, in the same order, and the same lists are found to be no lists of
records. -/
theorem childrenIn {es es' : Table Value} (h : Graph.AlikeEntries g g' es es') :
    EndsLike (List.Forall₂ (Record.Alike g g')) (Record.childrenIn g es) (Record.childrenIn g' es') := by
  -- along the entries; a list counts by its key, which is the same in both
  induction h with
  | nil => exact .nil
  | @cons e e' es es' he _ ih =>
    obtain ⟨key, v⟩ := e
    obtain ⟨key', v'⟩ := e'
    obtain ⟨rfl, hv⟩ : key = key' ∧ Graph.Alike g g' v v' := he
    rw [Record.childrenIn, Record.childrenIn]
    rcases hv.isList with ⟨items, items', hitems, hitems', halike⟩ | ⟨hnot, hnot'⟩
    · simp only [hitems, hitems']
      cases key with
      -- only keys that are texts can name a list of records
      | str name =>
        refine ih.bind fun cs cs' hcs => ?_
        split
        next => exact List.rel_append (Graph.filterMap_record?_alike halike) hcs
        next => exact hcs
      | _ => exact rfl
    · split
      next items hitems => exact absurd hitems (hnot items)
      next => exact ih

end Alike

/-- The two transitions stand in the same place, and their records are alike. -/
structure AlikeHeld (g g' : Graph) (held held' : HeldTransition) : Prop where
  record : held.record.Alike g g' held'.record
  kind : held.kind = held'.kind
  eventName : held.eventName = held'.eventName

/-- The machines are the same, and the records that were found are alike. -/
def AlikeAdded (g g' : Graph) (added added' : Machine × List Record) : Prop :=
  added.1 = added'.1 ∧ List.Forall₂ (Record.Alike g g') added.2 added'.2

variable {n : Node} {m : Machine}

/-- A transition that a record holds is added alike. Its path must be filled, or else the number of the record
would name it. -/
theorem addHeldTransition_alike {held held' : HeldTransition} (h : AlikeHeld g g' held held')
    (hpath : (g.data (held.record.field "path")).isFilled = true) :
    addHeldTransition g n held m = addHeldTransition g' n held' m := by
  have hdata := (h.record.field "path").data
  have hpath' : (g'.data (held'.record.field "path")).isFilled = true := hdata ▸ hpath
  -- whether it stays in the record is a truth value, and those are equal
  have hstays : (held.record.field "isExternalTransition" = .bool false) =
      (held'.record.field "isExternalTransition" = .bool false) :=
    propext ((h.record.field "isExternalTransition").eq_bool_iff false)
  have hdestination : ∀ kind, heldDestination g n kind held.record =
      heldDestination g' n kind held'.record := by
    intro kind
    unfold heldDestination
    rw [(h.record.field "dst").refPath]
  unfold addHeldTransition
  simp only [hstays, h.kind, h.eventName, (h.record.field "attributes").attributes, hdestination, hdata,
    TransitionKey.ofPath, hpath', if_true]

/-- A list of them is added alike, and the records that they lead to are alike. -/
theorem addHeldTransitions_alike {helds helds' : List HeldTransition}
    (h : List.Forall₂ (AlikeHeld g g') helds helds')
    (hpaths : ∀ held ∈ helds, (g.data (held.record.field "path")).isFilled = true) :
    EndsLike (AlikeAdded g g') (addHeldTransitions g n m helds) (addHeldTransitions g' n m helds') := by
  induction h generalizing m with
  | nil => exact ⟨rfl, .nil⟩
  | @cons held held' helds helds' hheld _ ih =>
    obtain ⟨hpath, hpaths⟩ := List.forall_mem_cons.mp hpaths
    rw [addHeldTransitions, addHeldTransitions, addHeldTransition_alike hheld hpath]
    refine (EndsLike.of_eq rfl).bind fun m₁ _ heq => ?_
    subst heq
    refine (ih hpaths).bind fun added added' hadded => ?_
    refine ⟨hadded.1, List.rel_append ?_ hadded.2⟩
    -- the record that this transition leads to
    rcases cases_of_rel (hheld.record.field "dst").record? with ⟨hd, hd'⟩ | ⟨d, d', hd, hd', halike⟩
    · rw [hd, hd']
      exact .nil
    · rw [hd, hd']
      exact .cons halike .nil

/-- The transitions of a group hold the name of the group. -/
theorem groupTransitions_alike {group group' : Record} (h : group.Alike g g' group')
    (kind : TransitionKind) : EndsLike (List.Forall₂ (AlikeHeld g g')) (groupTransitions g kind group)
      (groupTransitions g' kind group') := by
  refine (h.field "Transitions").recordsIn.bind fun records records' hrecords => ?_
  rw [(h.field "name").data]
  exact List.rel_map (fun _ _ hr => ⟨hr, rfl, rfl⟩) hrecords

/-- A list of groups is added alike. -/
theorem addGroups_alike {kind : TransitionKind} {groups groups' : List Record}
    (h : List.Forall₂ (Record.Alike g g') groups groups')
    (hpaths : ∀ group ∈ groups, ∀ t ∈ g.memberRecords (group.field "Transitions"),
      (g.data (t.field "path")).isFilled = true) :
    EndsLike (AlikeAdded g g') (addGroups g n kind m groups) (addGroups g' n kind m groups') := by
  -- the machine changes from group to group, and is the same on both sides
  induction h generalizing m with
  | nil => exact ⟨rfl, .nil⟩
  | @cons group group' groups groups' hgroup _ ih =>
    obtain ⟨hpath, hpaths⟩ := List.forall_mem_cons.mp hpaths
    rw [addGroups, addGroups]
    refine (groupTransitions_alike hgroup kind).keep.bind fun helds helds' hheld => ?_
    obtain ⟨hgroup, hhelds⟩ := hheld
    -- the transitions of the group are those of its records
    have hheldPaths : ∀ held ∈ helds, (g.data (held.record.field "path")).isFilled = true := by
      obtain ⟨records, hrecords, hgroup⟩ := bind_eq_ok.mp hgroup
      obtain rfl := Graph.eq_memberRecords hrecords
      obtain rfl := Except.ok.inj hgroup
      exact List.forall_mem_map.mpr hpath
    refine (addHeldTransitions_alike hhelds hheldPaths).bind fun added added' hadded => ?_
    obtain ⟨m₁, here⟩ := added
    obtain ⟨_, here'⟩ := added'
    obtain ⟨rfl, hhere⟩ := hadded
    refine (ih hpaths).bind fun later later' hlater => ?_
    exact ⟨hlater.1, List.rel_append hhere hlater.2⟩

/-- The transitions that records hold are added from both alike, if they have paths. -/
theorem Alike.addTransitions {r r' : Record} (h : r.Alike g g' r')
    (hpaths : ∀ held ∈ r.heldTransitions g, (g.data (held.record.field "path")).isFilled = true) :
    EndsLike (AlikeAdded g g') (r.addTransitions g n m) (r'.addTransitions g' n m) := by
  -- the paths of all transitions held are those of the groups and of the single ones
  have hgroupPaths : ∀ e ∈ eventGroups, ∀ group ∈ g.memberRecords (r.field e.1),
      ∀ t ∈ g.memberRecords (group.field "Transitions"), (g.data (t.field "path")).isFilled = true := by
    intro e he group hgroup t ht
    refine hpaths ⟨t, e.2, g.data (group.field "name")⟩ (List.mem_append_left _ ?_)
    exact List.mem_flatMap.mpr ⟨e, he, List.mem_flatMap.mpr ⟨group, hgroup,
      List.mem_map.mpr ⟨t, ht, rfl⟩⟩⟩
  have hsinglePaths : ∀ t ∈ g.memberRecords (r.field "ExternalTransitions"),
      (g.data (t.field "path")).isFilled = true := fun t ht =>
    hpaths ⟨t, .external, .null⟩ (List.mem_append_right _ (List.mem_map.mpr ⟨t, ht, rfl⟩))
  -- the two kinds of groups, then the transitions on their own, each with the machine that the ones before
  -- leave
  rw [addTransitions_eq, addTransitions_eq]
  refine (h.field "ExternalEvents").recordsIn.keep.bind fun external external' hexternal => ?_
  obtain ⟨hread, hexternal⟩ := hexternal
  obtain rfl := Graph.eq_memberRecords hread
  refine (addGroups_alike hexternal (hgroupPaths ("ExternalEvents", .external)
    List.mem_cons_self)).bind fun added added' hadded => ?_
  obtain ⟨m₁, leaving⟩ := added
  obtain ⟨_, leaving'⟩ := added'
  obtain ⟨rfl, hleaving⟩ := hadded
  refine (h.field "InternalEvents").recordsIn.keep.bind fun internal internal' hinternal => ?_
  obtain ⟨hread, hinternal⟩ := hinternal
  obtain rfl := Graph.eq_memberRecords hread
  refine (addGroups_alike hinternal (hgroupPaths ("InternalEvents", .internal)
    (List.mem_cons_of_mem _ List.mem_cons_self))).bind fun added added' hadded => ?_
  obtain ⟨m₂, staying⟩ := added
  obtain ⟨_, staying'⟩ := added'
  obtain ⟨rfl, hstaying⟩ := hadded
  refine (h.field "ExternalTransitions").recordsIn.keep.bind fun records records' hrecords => ?_
  obtain ⟨hread, hrecords⟩ := hrecords
  obtain rfl := Graph.eq_memberRecords hread
  have hhelds : List.Forall₂ (AlikeHeld g g')
      ((g.memberRecords (r.field "ExternalTransitions")).map fun r => ⟨r, .external, .null⟩)
      (records'.map fun r => ⟨r, .external, .null⟩) :=
    List.rel_map (fun _ _ hr => ⟨hr, rfl, rfl⟩) hrecords
  refine (addHeldTransitions_alike hhelds (List.forall_mem_map.mpr hsinglePaths)).bind
    fun added added' hadded => ?_
  exact ⟨hadded.1, List.rel_append (List.rel_append hleaving hstaying) hadded.2⟩

/-- All transitions of the record have paths: the record itself, if it has pointers, and those that it
holds. -/
structure CarriesPaths (g : Graph) (r : Record) : Prop where
  here : r.pointerKind? g ≠ none → (r.pathOr g .null).isFilled = true
  held : ∀ held ∈ r.heldTransitions g, (g.data (held.record.field "path")).isFilled = true

/-- A record is added with what it holds, if its node is new to the machine. What decides this is the node,
which is the same. -/
theorem Alike.addWithTransitions {r r' : Record} (h : r.Alike g g' r') (hpaths : r.CarriesPaths g) :
    (r.addWithTransitions g m).EndsLike (AlikeAdded g g') (r'.addWithTransitions g' m) := by
  unfold Record.addWithTransitions
  rw [← h.node?]
  refine (Logged.EndsLike.refl _).bind fun n? _ heq => ?_
  subst heq
  cases n? with
  | none => exact ⟨rfl, .nil⟩
  | some n =>
    refine (Logged.EndsLike.refl _).bind fun added _ heq => ?_
    subst heq
    obtain ⟨added, m₁⟩ := added
    cases added with
    | false => exact ⟨rfl, .nil⟩
    | true => exact h.addTransitions hpaths.held

/-- **Records that are alike read alike**, if transitions have paths. -/
theorem Alike.enter {r r' : Record} (h : r.Alike g g' r') (hpaths : r.CarriesPaths g) (m : Machine) :
    (r.enter g m).EndsLike (Found.Like (Record.Alike g g')) (r'.enter g' m) := by
  unfold Record.enter
  rw [← h.pointerKind?]
  split
  -- a transition with pointers has a path, so that its key is its path and not its number
  next kind hkind =>
    have hfilled := hpaths.here (by rw [hkind]; exact Option.some_ne_none kind)
    rw [← h.addPointerTransition kind hfilled]
    refine (Logged.EndsLike.refl _).bind fun m₁ _ heq => ?_
    exact ⟨heq, .nil, .nil⟩
  next =>
    refine (h.addWithTransitions hpaths).bind fun added added' hadded => ?_
    refine (Logged.EndsLike.lift (Alike.childrenIn h.entries)).bind fun cs cs' hcs => ?_
    exact ⟨hadded.1, hcs, hadded.2⟩

/-- Records of a tree are copied by records that are alike. -/
theorem copying_of_alike {root : Record} (hpaths : ∀ r, Met g root r → r.CarriesPaths g) :
    Copying g g' fun r r' => Met g root r ∧ r.Alike g g' r' where
  isIn := fun r r' h => h.2.isIn'
  enter := fun r r' m h => by
    obtain ⟨hmet, halike⟩ := h
    have hends : EndsLike (Found.Like (Record.Alike g g')) (r.enter g m).result (r'.enter g' m).result :=
      halike.enter (hpaths r hmet) m
    refine hends.keep.mono fun found found' hfound => ?_
    obtain ⟨hresult, hmachine, hchildren, hreferenced⟩ := hfound
    obtain ⟨hmetChildren, hmetReferenced⟩ := hmet.found hresult
    exact ⟨hmachine, (List.forall₂_and_left _ _).mpr ⟨hmetChildren, hchildren⟩,
      (List.forall₂_and_left _ _).mpr ⟨hmetReferenced, hreferenced⟩⟩

end Record

namespace Machine

/-- **The numbers of records do not matter.** Let no record of a tree stand below itself, and let all of
its transitions have paths. Then the machine is the same for every copy of the tree in which records
read alike, and so it is for the copy that is built of what the tree is written out as, in which nothing
is shared. -/
theorem ofTree_unshared {v : Value} {root : Record} (hroot : g.record? v = some root)
    (hacyclic : ∀ r, Record.Met g root r → ¬ Relation.TransGen (Record.HasChild g) r r)
    (hpaths : ∀ r, Record.Met g root r → r.CarriesPaths g) :
    (∀ g' copied root', Record.Copying g g' copied → copied root root' →
      (ofTree g' root').result = (ofTree g root).result) ∧
    (g.Unfolds v (g.data v) →
      ∃ root', (Model.ofData (g.data v)).graph.record? (Model.ofData (g.data v)).root = some root' ∧
        (ofTree (Model.ofData (g.data v)).graph root').result = (ofTree g root).result) := by
  have hin : root.IsIn g := Record.isIn_of_record? hroot
  have horderly : Record.Orderly g fun r => Record.Met g root r ∧ r.IsIn g :=
    .of_met hacyclic fun r hr => (hpaths r hr).here
  -- the simulation needs the relation on records only; for the second part it is met together with alike
  refine ⟨fun g' copied root' hcopying hcopied => ?_, fun hunfolds => ?_⟩
  · exact ofTree_copying horderly hcopying ⟨.root, hin⟩ hcopied
  · obtain ⟨-, hcopy⟩ := Graph.unfolds_ofDataFrom hunfolds {}
    have halike : g.Alike (Model.ofData (g.data v)).graph v (Model.ofData (g.data v)).root :=
      ⟨g.data v, hunfolds, hcopy⟩
    -- the copy of the root is a record as well
    rcases cases_of_rel halike.record? with ⟨hnone, -⟩ | ⟨r, root', hr, hroot', hrecords⟩
    · rw [hroot] at hnone
      cases hnone
    · obtain rfl := Option.some.inj (hroot.symm.trans hr)
      refine ⟨root', hroot', ?_⟩
      exact ofTree_copying horderly (Record.copying_of_alike hpaths) ⟨.root, hin⟩ ⟨.root, hrecords⟩

/-- A lamp in which much is shared: `/dim` stands in both lists of the machine, and in its own place it
has the transitions of `/on`, the destination of which stands in the second list. -/
def sharedGraph : Graph :=
  { cells := #[
      .map [(.str "type", .str "State Machine"), (.str "path", .str "/lamp"), (.str "State_list", .ref 1),
        (.str "children", .ref 2)],
      .list [.ref 3, .ref 4],
      .list [.ref 4, .ref 5],
      .map [(.str "type", .str "State"), (.str "path", .str "/on"), (.str "ExternalTransitions", .ref 6)],
      .map [(.str "type", .str "State"), (.str "path", .str "/dim"), (.str "ExternalTransitions", .ref 6)],
      .map [(.str "type", .str "State"), (.str "path", .str "/off")],
      .list [.ref 7],
      .map [(.str "path", .str "/press"), (.str "dst", .ref 5)]] }

/-- The record of the machine, which lists the states twice. -/
def sharedTop : Record :=
  ⟨0, [(.str "type", .str "State Machine"), (.str "path", .str "/lamp"), (.str "State_list", .ref 1),
    (.str "children", .ref 2)]⟩

/-- A state that holds a list of transitions. -/
def sharedOn : Record :=
  ⟨3, [(.str "type", .str "State"), (.str "path", .str "/on"), (.str "ExternalTransitions", .ref 6)]⟩

/-- A state that holds the same list. -/
def sharedDim : Record :=
  ⟨4, [(.str "type", .str "State"), (.str "path", .str "/dim"), (.str "ExternalTransitions", .ref 6)]⟩

/-- The state that the transition leads to. -/
def sharedOff : Record := ⟨5, [(.str "type", .str "State"), (.str "path", .str "/off")]⟩

/-- The transition, which has a path of its own. -/
def sharedPress : HeldTransition :=
  ⟨⟨7, [(.str "path", .str "/press"), (.str "dst", .ref 5)]⟩, .external, .null⟩

/-- Two states hold the one transition. -/
theorem sharedGraph_held : sharedTop.heldTransitions sharedGraph = [] ∧
    sharedOn.heldTransitions sharedGraph = [sharedPress] ∧
    sharedDim.heldTransitions sharedGraph = [sharedPress] ∧
    sharedOff.heldTransitions sharedGraph = [] := ⟨rfl, rfl, rfl, rfl⟩

/-- These are the records that a walk meets. -/
theorem sharedGraph_met {r : Record} (h : Record.Met sharedGraph sharedTop r) :
    r = sharedTop ∨ r = sharedOn ∨ r = sharedDim ∨ r = sharedOff := by
  obtain ⟨htop, hon, hdim, hoff⟩ := sharedGraph_held
  have hfirst : sharedGraph.listedRecords (.ref 1) = [sharedOn, sharedDim] := rfl
  have hsecond : sharedGraph.listedRecords (.ref 2) = [sharedDim, sharedOff] := rfl
  -- on how the record is met: at the top, below a record, or where a transition leads
  induction h with
  | root => exact .inl rfl
  | child _ _ hmem hlist hc ih =>
    rcases ih with rfl | rfl | rfl | rfl <;> simp only [sharedTop, sharedOn, sharedDim, sharedOff,
      List.mem_cons, List.not_mem_nil, or_false, Prod.mk.injEq, Data.str.injEq] at hmem
    · rcases hmem with ⟨rfl, rfl⟩ | ⟨rfl, rfl⟩ | ⟨rfl, rfl⟩ | ⟨rfl, rfl⟩
      · exact absurd hlist (by decide)
      · exact absurd hlist (by decide)
      · rw [hfirst, List.mem_cons, List.mem_singleton] at hc
        exact .inr (hc.imp_right .inl)
      · rw [hsecond, List.mem_cons, List.mem_singleton] at hc
        exact .inr (.inr hc)
    all_goals
      rcases hmem with ⟨rfl, rfl⟩ | ⟨rfl, rfl⟩ | ⟨rfl, rfl⟩ <;> exact absurd hlist (by decide)
  | destination _ _ hheld hdst ih =>
    rcases ih with rfl | rfl | rfl | rfl
    · exact absurd (htop ▸ hheld) List.not_mem_nil
    · obtain rfl := List.mem_singleton.mp (hon ▸ hheld)
      exact .inr (.inr (.inr (Option.some.inj hdst).symm))
    · obtain rfl := List.mem_singleton.mp (hdim ▸ hheld)
      exact .inr (.inr (.inr (Option.some.inj hdst).symm))
    · exact absurd (hoff ▸ hheld) List.not_mem_nil

/-- No record stands below itself: only the top has records below it. -/
theorem sharedGraph_acyclic {r : Record} (h : Record.Met sharedGraph sharedTop r) :
    ¬ Relation.TransGen (Record.HasChild sharedGraph) r r := by
  have htop : sharedTop.children sharedGraph =
      .ok [sharedOn, sharedDim, sharedDim, sharedOff] := rfl
  have hleaf : ∀ r, r = sharedOn ∨ r = sharedDim ∨ r = sharedOff →
      ∀ c, ¬ r.HasChild sharedGraph c := by
    rintro r (rfl | rfl | rfl) c ⟨-, cs, hcs, hc⟩ <;> obtain rfl := Except.ok.inj hcs <;>
      exact absurd hc List.not_mem_nil
  -- a circle would lead from the top, or from a record without children
  intro hcircle
  obtain ⟨x, hx, hback⟩ := Relation.TransGen.head'_iff.mp hcircle
  rcases sharedGraph_met h with rfl | hr
  · obtain ⟨-, cs, hcs, hc⟩ := hx
    obtain rfl := Except.ok.inj (hcs.symm.trans htop)
    simp only [List.mem_cons, List.not_mem_nil, or_false] at hc
    have hx : x = sharedOn ∨ x = sharedDim ∨ x = sharedOff := by tauto
    rcases Relation.ReflTransGen.cases_head hback with rfl | ⟨y, hy, -⟩
    · simp [sharedTop, sharedOn, sharedDim, sharedOff] at hx
    · exact hleaf x hx y hy
  · exact hleaf r hr x hx

/-- The one transition has a path. -/
theorem sharedGraph_paths {r : Record} (h : Record.Met sharedGraph sharedTop r) :
    r.CarriesPaths sharedGraph := by
  obtain ⟨htop, hon, hdim, hoff⟩ := sharedGraph_held
  rcases sharedGraph_met h with rfl | rfl | rfl | rfl
  all_goals
    refine ⟨fun hpointers => absurd rfl hpointers, fun held hheld => ?_⟩
  · exact absurd (htop ▸ hheld) List.not_mem_nil
  · obtain rfl := List.mem_singleton.mp (hon ▸ hheld)
    rfl
  · obtain rfl := List.mem_singleton.mp (hdim ▸ hheld)
    rfl
  · exact absurd (hoff ▸ hheld) List.not_mem_nil

/-- The machine of the lamp, read of the copy in which nothing is shared. -/
theorem ofTree_unshared_lamp :
    sharedGraph.record? (.ref 0) = some sharedTop ∧
    (∀ r, Record.Met sharedGraph sharedTop r →
      ¬ Relation.TransGen (Record.HasChild sharedGraph) r r) ∧
    (∀ r, Record.Met sharedGraph sharedTop r → r.CarriesPaths sharedGraph) ∧
    sharedGraph.Unfolds (.ref 0) (sharedGraph.data (.ref 0)) ∧
    ∃ root', (Model.ofData (sharedGraph.data (.ref 0))).graph.record?
        (Model.ofData (sharedGraph.data (.ref 0))).root = some root' ∧
      (ofTree (Model.ofData (sharedGraph.data (.ref 0))).graph root').result.toOption.map
        (fun m => (m.nodes.map (·.path.text), m.transitions.map (·.path.text))) =
          some (["/lamp", "/on", "/dim", "/off"], ["/press"]) := by
  have hroot : sharedGraph.record? (.ref 0) = some sharedTop := rfl
  -- the lamp holds no circle, so it unfolds to what it is written out as
  have hunfolds : sharedGraph.Unfolds (.ref 0) (sharedGraph.data (.ref 0)) := by
    simp [sharedGraph, Graph.data, Graph.dataWithin, Graph.cell?, Graph.deref?, Graph.Unfolds,
      Graph.UnfoldItems, Graph.UnfoldEntries, List.idxOf?, List.findIdx?_cons]
  obtain ⟨-, hcopy⟩ := ofTree_unshared hroot (fun r => sharedGraph_acyclic)
    fun r => sharedGraph_paths
  obtain ⟨root', hroot', hresult⟩ := hcopy hunfolds
  refine ⟨hroot, fun r => sharedGraph_acyclic, fun r => sharedGraph_paths, hunfolds, root', hroot', ?_⟩
  rw [hresult]
  decide +kernel

end Machine

end HomeAutomaton
