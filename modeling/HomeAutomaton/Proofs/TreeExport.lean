import HomeAutomaton.Proofs.FlatExport

/-!
# The machine of a tree export

A tree is collected record by record, each with the transitions that it holds, so nodes and transitions
of a blueprint arrive interleaved; in their own lists they are in the order of the blueprint all the
same. The recursion of `Tour.visit` follows the lists of children just as `Blueprint.Spans` does. What is
left in the queue then are records of the tree, which were visited, and records that repeat nodes.

* `Blueprint.enter_shows` reads the record of one node, `Blueprint.visit_shows` those of a whole tree.
* `Blueprint.drain_repeats` says that the queue adds nothing.
* `Blueprint.IsTreeExport.rawMachine` is about the whole tree.
-/

namespace HomeAutomaton

/-- Transitions that agree in all attributes have the same normal form. -/
theorem Transition.normal_of_held {t : Transition} {table : Table Data}
    (h : ∀ key, table.get? (.str key) = t.attributes.get? (.str key)) :
    normal { kind := t.kind, src := t.src, dst := t.dst, attributes := table, path := t.path
             eventName := t.eventName } = t.normal := by
  refine normal_congr rfl rfl rfl rfl ?_ fun key _ => h key
  rw [normalEvent, normalEvent, attr?, attr?, textAttribute?, textAttribute?, h]

namespace Record

variable {g : Graph} {n : Node} {m : Machine}

/-- Two lists of transitions that a record holds, one behind the other. -/
theorem addHeldTransitions_append (first second : List HeldTransition) :
    addHeldTransitions g n m (first ++ second) = (do
      let (m, here) ← addHeldTransitions g n m first
      let (m, later) ← addHeldTransitions g n m second
      .ok (m, here ++ later)) := by
  induction first generalizing m with
  | nil =>
    simp only [List.nil_append, addHeldTransitions, ok_bind]
    cases addHeldTransitions g n m second <;> rfl
  | cons held first ih =>
    simp only [List.cons_append, addHeldTransitions, ih, bind_assoc, ok_bind, List.append_assoc]

/-- These groups hold these transitions. -/
def Hold (g : Graph) (kind : TransitionKind) : List Record → List (List HeldTransition) → Prop :=
  List.Forall₂ fun group helds => groupTransitions g kind group = .ok helds

variable {kind : TransitionKind} {groups : List Record} {helds : List (List HeldTransition)}

/-- Groups that were read hold what was found in them. -/
theorem hold_of_mapM (h : groups.mapM (groupTransitions g kind) = .ok helds) :
    Hold g kind groups helds := by
  induction groups generalizing helds with
  | nil =>
    obtain rfl := Except.ok.inj h
    exact .nil
  | cons group groups ih =>
    rw [List.mapM_cons] at h
    obtain ⟨first, hfirst, h⟩ := bind_eq_ok.mp h
    obtain ⟨later, hlater, h⟩ := bind_eq_ok.mp h
    obtain rfl := Except.ok.inj h
    exact .cons hfirst (ih hlater)

/-- Groups that can be read are worked off as one list. -/
theorem Hold.addGroups_eq (h : Hold g kind groups helds) :
    addGroups g n kind m groups = addHeldTransitions g n m helds.flatten := by
  induction h generalizing m with
  | nil => rfl
  | cons hfirst _ ih =>
    simp only [addGroups, hfirst, ok_bind, List.flatten_cons, addHeldTransitions_append, ih]

/-- All transitions in groups of one kind are of this kind. -/
theorem Hold.kind_eq (h : Hold g kind groups helds) : ∀ held ∈ helds.flatten, held.kind = kind := by
  induction h with
  | nil => exact fun held hheld => absurd hheld List.not_mem_nil
  | cons hfirst _ ih =>
    obtain ⟨records, -, hfirst⟩ := bind_eq_ok.mp hfirst
    obtain rfl := Except.ok.inj hfirst
    refine List.forall_mem_append.mpr ⟨fun held hheld => ?_, ih⟩
    obtain ⟨r, -, rfl⟩ := List.mem_map.mp hheld
    rfl

end Record

namespace Blueprint

variable {b : Blueprint} {g : Graph} {tree : List Record}

/-! ### One record -/

/-- A record that a transition leads to is one of the tree, or repeats a node. -/
def IsKnown (b : Blueprint) (g : Graph) (tree : List Record) (d : Record) : Prop :=
  d ∈ tree ∨ b.Repeats g d

/-- A transition of the blueprint is collected from its record in a group. -/
theorem ShowsHeld.addHeldTransition {t : Transition} {held : HeldTransition}
    (h : b.ShowsHeld g tree t held) (hdrawn : t.IsDrawn) (hkind : held.kind = t.kind) {n : Node}
    (hsrc : t.src = n.path) {m : Machine} {nodes : List Node} {ts : List Transition}
    (hm : m.Shows nodes ts) (hnew : ∀ other ∈ ts, other.path ≠ t.path) :
    ∃ m', Record.addHeldTransition g n held m = .ok m' ∧ m'.Shows nodes (ts ++ [t]) := by
  obtain ⟨table, htable, hlookups⟩ := h.attributes
  obtain ⟨m', hadd, hm'⟩ := hm.addTransition hdrawn (Transition.normal_of_held hlookups)
    (.inr hdrawn.event) hnew (.record held.record.label)
  refine ⟨m', ?_, hm'⟩
  -- a record can only make an external transition an internal one
  have hthere : (if held.record.field "isExternalTransition" = .bool false then .internal
      else held.kind) = t.kind := by
    rcases hdrawn.kind with hexternal | hinternal
    · rw [if_neg (h.external hexternal), hkind]
    · rw [hkind, hinternal, ite_self]
  have hend : Record.heldDestination g n t.kind held.record = t.dst := by
    rcases hdrawn.kind with hexternal | hinternal
    · rw [hexternal, Record.heldDestination, h.dst hexternal]
      simp
    · rw [hinternal, Record.heldDestination, hdrawn.stays hinternal, hsrc]
  simp only [Record.addHeldTransition, htable, ok_bind, hthere, hend, h.path, ← hsrc, h.event, hadd]

/-- The transitions in the groups of a record are collected one after the other. -/
theorem addHeldTransitions_shows {kind : TransitionKind} {n : Node} {new : List Transition}
    {helds : List HeldTransition} (h : List.Forall₂ (b.ShowsHeld g tree) new helds)
    (hdrawn : ∀ t ∈ new, t.IsDrawn ∧ t.kind = kind ∧ t.src = n.path)
    (hkinds : ∀ held ∈ helds, held.kind = kind) {m : Machine} {nodes : List Node}
    {ts : List Transition} (hm : m.Shows nodes ts) (hnodup : ((ts ++ new).map (·.path)).Nodup) :
    ∃ m' referenced, Record.addHeldTransitions g n m helds = .ok (m', referenced) ∧
      m'.Shows nodes (ts ++ new) ∧ ∀ d ∈ referenced, b.IsKnown g tree d := by
  -- along the transitions; each has a path that none before it has
  induction h generalizing m ts with
  | nil =>
    exact ⟨m, [], rfl, by rwa [List.append_nil], fun d hd => absurd hd List.not_mem_nil⟩
  | @cons t held new helds ht _ ih =>
    obtain ⟨⟨hfirst, hkind, hsrc⟩, hrest⟩ := List.forall_mem_cons.mp hdrawn
    obtain ⟨hheld, hhelds⟩ := List.forall_mem_cons.mp hkinds
    obtain ⟨m₁, hadd, hm₁⟩ :=
      ht.addHeldTransition hfirst (hheld.trans hkind.symm) hsrc hm (ne_of_nodup hnodup)
    rw [List.append_cons] at hnodup ⊢
    obtain ⟨m', later, hlater, hm', hknown⟩ := ih hrest hhelds hm₁ hnodup
    refine ⟨m', (g.record? (held.record.field "dst")).toList ++ later, ?_, hm',
      List.forall_mem_append.mpr ⟨fun d hd => ?_, hknown⟩⟩
    · simp only [Record.addHeldTransitions, hadd, ok_bind, hlater]
    · exact ht.destination d (Option.mem_toList.mp hd)

/-- The transitions of the node that a record shows are collected, and whatever they lead to is known. -/
theorem ShowsGrown.addTransitions {p : Part} {r : Record} (h : b.ShowsGrown g tree p r)
    (hdrawn : ∀ t ∈ p.transitions, t.IsDrawn) {m : Machine} {nodes : List Node}
    {ts : List Transition} (hm : m.Shows nodes ts)
    (hnodup : ((ts ++ p.transitions).map (·.path)).Nodup) :
    ∃ m' referenced, r.addTransitions g p.node m = .ok (m', referenced) ∧
      m'.Shows nodes (ts ++ p.transitions) ∧ ∀ d ∈ referenced, b.IsKnown g tree d := by
  obtain ⟨groups, helds, hgroups, hhelds, hleaving⟩ := h.leaving
  obtain ⟨groups', helds', hgroups', hhelds', hstaying⟩ := h.staying
  have hold := Record.hold_of_mapM hhelds
  have hold' := Record.hold_of_mapM hhelds'
  rw [Part.transitions, List.forall_mem_append] at hdrawn
  rw [Part.transitions, ← List.append_assoc] at hnodup ⊢
  -- those that leave the part are external, and those that stay internal
  have hexternal : ∀ t ∈ p.external, t.IsDrawn ∧ t.kind = .external ∧ t.src = p.node.path := by
    intro t ht
    obtain ⟨a, -, rfl⟩ := List.mem_map.mp ht
    exact ⟨hdrawn.1 _ ht, rfl, rfl⟩
  have hinternal : ∀ t ∈ p.internal, t.IsDrawn ∧ t.kind = .internal ∧ t.src = p.node.path := by
    intro t ht
    obtain ⟨a, -, rfl⟩ := List.mem_map.mp ht
    exact ⟨hdrawn.2 _ ht, rfl, rfl⟩
  have hfirstNodup := (List.map_append ▸ hnodup).of_append_left
  obtain ⟨m₁, first, hadd, hm₁, hfirst⟩ :=
    addHeldTransitions_shows hleaving hexternal hold.kind_eq hm hfirstNodup
  obtain ⟨m₂, second, hadd', hm₂, hsecond⟩ :=
    addHeldTransitions_shows hstaying hinternal hold'.kind_eq hm₁ hnodup
  refine ⟨m₂, first ++ second, ?_, hm₂, List.forall_mem_append.mpr ⟨hfirst, hsecond⟩⟩
  rw [Record.addTransitions_eq]
  simp only [hgroups, hgroups', hold.addGroups_eq, hold'.addGroups_eq, hadd, hadd', h.noSingle, ok_bind,
    List.map_nil, Record.addHeldTransitions, List.append_nil]

/-! ### All records -/

/-- The machine has the nodes of these parts, with their transitions. -/
def ShowsParts (m : Machine) (ps : List Part) : Prop :=
  m.Shows (ps.map Part.node) (ps.flatMap Part.transitions)

/-- The parts have paths of their own, and so have their transitions. -/
structure Proper (ps : List Part) : Prop where
  paths : (ps.map (·.path)).Nodup
  filled : ∀ p ∈ ps, p.path ≠ ""
  movePaths : ((ps.flatMap Part.transitions).map (·.path)).Nodup
  drawn : ∀ p ∈ ps, ∀ t ∈ p.transitions, t.IsDrawn

/-- The parts of a blueprint are proper. -/
theorem proper_all (b : Blueprint) : Proper b.all where
  paths := b.all_nodup
  filled := b.all_filled
  movePaths := b.transitions_nodup
  drawn := fun p hp t ht => b.isDrawn t (List.mem_flatMap.mpr ⟨p, hp, ht⟩)

/-- The first ones of proper parts are proper. -/
theorem Proper.of_append_left {ps rest : List Part} (h : Proper (ps ++ rest)) : Proper ps where
  paths := (List.map_append ▸ h.paths).of_append_left
  filled := fun p hp => h.filled p (List.mem_append_left _ hp)
  movePaths := by
    have hall := h.movePaths
    rw [List.flatMap_append, List.map_append] at hall
    exact hall.of_append_left
  drawn := fun p hp => h.drawn p (List.mem_append_left _ hp)

/-- The record of a node is read. -/
theorem ShowsGrown.enter {p : Part} {r : Record} (h : b.ShowsGrown g tree p r)
    {children : List Record} (hchildren : r.children g = .ok children) {m : Machine}
    {done : List Part} (hm : ShowsParts m done) (hproper : Proper (done ++ [p])) :
    ∃ found, r.enter g m = pure found ∧ found.children = children ∧
      ShowsParts found.machine (done ++ [p]) ∧ ∀ d ∈ found.referenced, b.IsKnown g tree d := by
  have hlast : p ∈ done ++ [p] := List.mem_append_right _ List.mem_cons_self
  have hmovePaths : ((done.flatMap Part.transitions ++ p.transitions).map (·.path)).Nodup := by
    simpa using hproper.movePaths
  -- its node is added, and then its transitions
  obtain ⟨m₁, hnode, hm₁⟩ := Machine.Shows.addNode hm p.node ⟨_, rfl⟩ (node_path_ne hproper.paths)
  obtain ⟨m₂, referenced, htransitions, hm₂, hknown⟩ :=
    h.addTransitions (hproper.drawn p hlast) hm₁ hmovePaths
  refine ⟨⟨m₂, children, referenced⟩, ?_, rfl, ?_, hknown⟩
  · rw [Record.enter, Record.pointerKind?_eq_none h.part.kind]
    simp only [Record.addWithTransitions, h.part.node? (hproper.filled p hlast), Logged.bind_done,
      hnode, Logged.liftM_ok, if_true, htransitions, hchildren]
  · simpa [ShowsParts] using hm₂

/-- What was met stays met, and what is met in between is met afterwards. -/
theorem Spans.mem_seen {seen seen' : List Nat} {rs order : List Record}
    (h : Spans g seen rs order seen') :
    (∀ l ∈ seen, l ∈ seen') ∧ ∀ r ∈ order, r.label ∈ seen' := by
  induction h with
  | nil => exact ⟨fun l hl => hl, fun r hr => absurd hr List.not_mem_nil⟩
  | met _ _ ih => exact ih
  | new _ _ _ _ ihc ihr =>
    refine ⟨fun l hl => ihr.1 l (ihc.1 l (List.mem_cons_of_mem _ hl)), ?_⟩
    refine List.forall_mem_cons.mpr ⟨ihr.1 _ (ihc.1 _ List.mem_cons_self), ?_⟩
    exact List.forall_mem_append.mpr ⟨fun r hr => ihr.1 _ (ihc.2 r hr), ihr.2⟩

/-- **A visit collects what the records show.** The visit goes the way of the search, so the nodes come
in the order in which their records are met. -/
theorem visit_shows {seen seen' : List Nat} {rs order : List Record}
    (h : Spans g seen rs order seen') (hrs : ∀ r ∈ rs, r.IsIn g) {ps : List Part}
    (hshown : List.Forall₂ (b.ShowsGrown g tree) ps order) {s : Tour} (hseen : s.seen = seen)
    {done : List Part} (hm : ShowsParts s.machine done) (hproper : Proper (done ++ ps)) :
    ∃ s', s.visit g rs = pure s' ∧ s'.seen = seen' ∧ ShowsParts s'.machine (done ++ ps) ∧
      ∀ d ∈ s'.queue, d ∈ s.queue ∨ b.IsKnown g tree d := by
  -- on the search: nothing left, a record met before, or a new one
  induction h generalizing ps s done with
  | nil =>
    cases hshown
    exact ⟨s, Tour.visit_nil, hseen, by rwa [List.append_nil], fun d hd => .inl hd⟩
  | met hold _ ih =>
    obtain ⟨s', hs', hafter⟩ := ih (List.forall_mem_cons.mp hrs).2 hshown hseen hm hproper
    refine ⟨s', ?_, hafter⟩
    rw [Tour.visit_cons_of_not_fresh fun hfresh => hfresh.2 (hseen ▸ hold), hs']
  | @new seen seen₁ seen' r rest children below beside hnew hchildren _ _ ihc ihr =>
    obtain ⟨hr, hrest⟩ := List.forall_mem_cons.mp hrs
    -- the part of the record itself, then those below it, and then those beside it
    obtain ⟨p, ps, hp, htail, rfl⟩ := List.forall₂_cons_right_iff.mp hshown
    obtain ⟨ps₁, ps₂, rfl, hbelow, hbeside⟩ :
        ∃ ps₁ ps₂, ps = ps₁ ++ ps₂ ∧ List.Forall₂ (b.ShowsGrown g tree) ps₁ below ∧
          List.Forall₂ (b.ShowsGrown g tree) ps₂ beside :=
      ⟨_, _, (List.take_append_drop below.length ps).symm, List.forall₂_take_append ps _ _ htail,
        List.forall₂_drop_append ps _ _ htail⟩
    rw [List.append_cons, ← List.append_assoc] at hproper ⊢
    have hbefore : Proper (done ++ [p] ++ ps₁) := hproper.of_append_left
    obtain ⟨found, hfound, rfl, hm₁, hreferenced⟩ := hp.enter hchildren hm hbefore.of_append_left
    have hseen₁ : (s.enter r found).seen = r.label :: seen := congrArg _ hseen
    obtain ⟨s₁, hs₁, hseen₂, hm₂, hqueue₁⟩ :=
      ihc (Record.isIn_of_mem_childrenIn hchildren) hbelow hseen₁ hm₁ hbefore
    obtain ⟨s', hs', hseen', hm', hqueue'⟩ := ihr hrest hbeside hseen₂ hm₂ hproper
    refine ⟨s', ?_, hseen', hm', fun d hd => ?_⟩
    · rw [Tour.visit_cons_of_fresh ⟨hr.label_lt, hseen ▸ hnew⟩, hfound, Logged.bind_done, hs₁,
        Logged.bind_done, hs']
    -- what waits was waiting before, or some record that was read led to it
    · rcases hqueue' d hd with hd | hknown
      · rcases hqueue₁ d hd with hd | hknown
        · exact (List.mem_append.mp hd).imp_right (hreferenced d)
        · exact .inr hknown
      · exact .inr hknown

/-! ### What waits -/

/-- A record that repeats a node adds nothing to a machine that has all nodes. -/
theorem Repeats.enter {r : Record} (h : b.Repeats g r) {m : Machine} (hnodes : m.nodes = b.nodes) :
    r.enter g m = pure { machine := m } := by
  obtain ⟨n?, hn, hrepeated⟩ := h.node
  have hadd : r.addWithTransitions g m = pure (m, []) := by
    rw [Record.addWithTransitions, hn, Logged.bind_done]
    -- the record may stand for no node, or for one whose path is known
    cases n? with
    | none => rfl
    | some n =>
      obtain ⟨p, hp, hpath⟩ := hrepeated n rfl
      have hold : m.nodes.any (fun other => other.path.same n.path) = true := by
        rw [hnodes, List.any_eq_true]
        refine ⟨p.node, List.mem_map.mpr ⟨p, hp, rfl⟩, ?_⟩
        rw [hpath]
        exact Data.same_self _
      have hkey : n.path.isKey = true := by rw [hpath, Data.isKey_str]
      have hagain : m.addNode n = .ok (false, m) := by
        rw [Machine.addNode, hkey, dif_pos hold]
        rfl
      simp only [hagain, Logged.liftM_ok, Logged.bind_done]
      rfl
  rw [Record.enter, h.noPointers]
  simp only [hadd, Logged.bind_done, h.noChildren, Logged.liftM_ok]

/-- What waits when the tree is visited adds nothing. -/
theorem drain_repeats {queue : List Record} {s : Tour} (hs : s.queue = queue)
    (hnodes : s.machine.nodes = b.nodes)
    (hknown : ∀ d ∈ queue, d.label ∈ s.seen ∨ b.Repeats g d) :
    ∃ s', s.drain g = pure s' ∧ s'.machine = s.machine := by
  -- along the queue, whose records were visited or repeat nodes
  induction queue generalizing s with
  | nil => exact ⟨s, Tour.drain_of_nil hs, rfl⟩
  | cons d queue ih =>
    obtain ⟨hd, hrest⟩ := List.forall_mem_cons.mp hknown
    rw [Tour.drain_of_cons hs]
    by_cases hfresh : Tour.IsFresh g { s with queue } d
    · have hrepeats := hd.resolve_left hfresh.2
      rw [Tour.visit_cons_of_fresh hfresh, hrepeats.enter hnodes, Logged.bind_done, Tour.visit_nil,
        Logged.bind_done, Tour.visit_nil, Logged.bind_done]
      exact ih (List.append_nil queue) hnodes fun d hd =>
        (hrest d hd).imp_left (List.mem_cons_of_mem _)
    · rw [Tour.visit_cons_of_not_fresh hfresh, Tour.visit_nil, Logged.bind_done]
      exact ih rfl hnodes hrest

/-- **The machine of a tree export is that of the blueprint**, up to the form of its transitions. -/
theorem IsTreeExport.rawMachine {model : Model} (h : b.IsTreeExport model) :
    ∃ m, model.rawMachine = pure m ∧ m.Shows b.nodes b.transitions := by
  obtain ⟨hobjects, root, tree, seen, hroot, hspans, hshown⟩ := h
  have hin : root.IsIn model.graph := Record.isIn_of_record? hroot
  have hempty : ShowsParts ({} : Tour).machine [] := .empty
  obtain ⟨s, hs, hseen, hm, hqueue⟩ :=
    visit_shows hspans (List.forall_mem_singleton.mpr hin) hshown rfl hempty b.proper_all
  -- what waits after the visit was met in the tree, or repeats a node
  have hknown : ∀ d ∈ s.queue, d.label ∈ s.seen ∨ b.Repeats model.graph d := fun d hd =>
    ((hqueue d hd).resolve_left List.not_mem_nil).imp_left fun hmem => hseen ▸ hspans.mem_seen.2 d hmem
  obtain ⟨s', hs', hsame⟩ := drain_repeats rfl hm.nodes hknown
  refine ⟨s'.machine, ?_, hsame ▸ hm⟩
  rw [Model.rawMachine, hobjects]
  dsimp only
  rw [hroot]
  dsimp only
  rw [Machine.ofTree_eq hin, Machine.traverse, hs, Logged.bind_done, hs', Logged.bind_done]

end Blueprint

end HomeAutomaton
