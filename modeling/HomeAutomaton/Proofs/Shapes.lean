import HomeAutomaton.Proofs.TreeExport

/-!
# Both shapes of a model are compiled alike

The flat export and the tree export of a blueprint have the same machine, up to the form of its
transitions, and this form is not read by the compiler. So a model may be exchanged in either shape.

* `Blueprint.compile_returns` says when there is a document at all.
* `Blueprint.compile_exports` is the result.
-/

namespace HomeAutomaton

namespace Blueprint

variable {b : Blueprint}

/-- The fragments of the blueprint are readable. -/
structure Readable (b : Blueprint) : Prop where
  entries : ∀ n ∈ b.nodes, Fragment.Readable (n.attr? "Entry")
  exits : ∀ n ∈ b.nodes, Fragment.Readable (n.attr? "Exit")
  actions : ∀ t ∈ b.transitions, Fragment.Readable (t.attr? "Action")

/-- The ends of a transition of a blueprint are texts or null. -/
theorem ends_isTextOrNull : ∀ t ∈ b.transitions, t.src.IsTextOrNull ∧ t.dst.IsTextOrNull := by
  have htext : ∀ s : String, (Data.ofText s).IsTextOrNull := by
    intro s
    rw [Data.ofText]
    split
    · exact .inl rfl
    · exact .inr ⟨s, rfl⟩
  intro t ht
  obtain ⟨p, -, ht⟩ := List.mem_flatMap.mp ht
  -- a transition of a part leaves it or stays in it
  rcases List.mem_append.mp ht with ht | ht
  · obtain ⟨a, -, rfl⟩ := List.mem_map.mp ht
    refine ⟨.inr ⟨_, rfl⟩, ?_⟩
    change Data.IsTextOrNull ((a.dst.map Data.ofText).getD .null)
    cases a.dst with
    | none => exact .inl rfl
    | some s => exact htext s
  · obtain ⟨m, -, rfl⟩ := List.mem_map.mp ht
    exact ⟨.inr ⟨_, rfl⟩, .inr ⟨_, rfl⟩⟩

variable {m : Machine}

/-- A transition of the machine has the normal form of one of the blueprint. -/
theorem exists_of_mem_transitions (h : m.Shows b.nodes b.transitions) {t : Transition}
    (ht : t ∈ m.transitions) : ∃ t' ∈ b.transitions, t'.normal = t.normal :=
  List.mem_map.mp (h.transitions ▸ List.mem_map.mpr ⟨t, ht, rfl⟩)

/-- A machine that shows a blueprint is well-formed. -/
theorem wellFormed_of_shows (h : m.Shows b.nodes b.transitions) : m.WellFormed where
  paths := by
    rw [h.nodes]
    intro n hn
    obtain ⟨p, -, rfl⟩ := List.mem_map.mp hn
    exact ⟨_, rfl⟩
  sources := fun t ht => by
    obtain ⟨t', ht', hform⟩ := exists_of_mem_transitions h ht
    rw [← Transition.normal_src, ← hform]
    exact (ends_isTextOrNull t' ht').1
  destinations := fun t ht => by
    obtain ⟨t', ht', hform⟩ := exists_of_mem_transitions h ht
    rw [← Transition.normal_dst, ← hform]
    exact (ends_isTextOrNull t' ht').2
  eventNames := h.eventNames

/-- Its fragments are those of the blueprint. -/
theorem readable_of_shows (h : m.Shows b.nodes b.transitions) (hreadable : b.Readable) :
    m.Readable where
  entries := h.nodes ▸ hreadable.entries
  exits := h.nodes ▸ hreadable.exits
  actions := fun t ht => by
    obtain ⟨t', ht', hform⟩ := exists_of_mem_transitions h ht
    rw [← Transition.attr?_normal_action, ← hform, Transition.attr?_normal_action]
    exact hreadable.actions t' ht'

/-- The transitions of a blueprint have paths, which are their titles. -/
theorem titled_of_shows (h : m.Shows b.nodes b.transitions) : m.Titled := by
  intro t ht
  obtain ⟨t', ht', hform⟩ := exists_of_mem_transitions h ht
  obtain ⟨s, -, hpath⟩ := (b.isDrawn t' ht').path
  obtain ⟨hsrc, hdst⟩ := ends_isTextOrNull t' ht'
  rw [← Transition.faithful_normal.requireTitle, ← hform, Transition.faithful_normal.requireTitle]
  refine Transition.requireTitle_of_written (fun _ => ?_) hsrc.hasLongNumber hdst.hasLongNumber
  rw [hpath]
  exact Data.IsText.hasLongNumber ⟨s, rfl⟩

/-- An export of a blueprint with readable fragments is compiled. -/
theorem compile_returns {model : Model} (hm : model.rawMachine = pure m)
    (h : m.Shows b.nodes b.transitions) (hreadable : b.Readable) (appearance : Appearance) :
    ∃ c, (model.compile appearance).result = .ok c := by
  have hroot : ∃ n ∈ m.nodes, n.kind = .stateMachine :=
    ⟨b.root.node, h.nodes ▸ List.mem_cons_self, rfl⟩
  obtain ⟨c, hc, -⟩ := Model.closed_of_machine appearance (by rw [hm]; rfl) (wellFormed_of_shows h)
    (titled_of_shows h) hroot (readable_of_shows h hreadable)
  exact ⟨c, hc⟩

/-- **The flat export and any tree export of a blueprint are compiled alike**: with the same identifiers
and the same document, the first state and the rules included, or with the same fault, and with the same
reports in the same order. If the fragments of the blueprint are readable, there is no fault. -/
theorem compile_exports {flat tree : Model} (hflat : b.IsFlatExport flat) (htree : b.IsTreeExport tree)
    (appearance : Appearance) :
    Compiled.output <$> flat.compile appearance = Compiled.output <$> tree.compile appearance ∧
    (b.Readable → ∃ c c', (flat.compile appearance).result = .ok c ∧
      (tree.compile appearance).result = .ok c' ∧
      c.identifiers = c'.identifiers ∧ c.document = c'.document) := by
  -- both machines show the blueprint, so they are alike but for the form of their transitions
  obtain ⟨m, hm, hshows⟩ := hflat.rawMachine
  obtain ⟨m', hm', hshows'⟩ := htree.rawMachine
  have halike := Model.compile_congr hm hm' (hshows.normal_eq hshows') appearance
  refine ⟨halike, fun hreadable => ?_⟩
  obtain ⟨c, hc⟩ := compile_returns hm hshows hreadable appearance
  obtain ⟨c', hc'⟩ := compile_returns hm' hshows' hreadable appearance
  have houtput : c.output = c'.output := by
    have hresults := congrArg Logged.result halike
    rw [map_eq_pure_bind, map_eq_pure_bind, Logged.bind_of_ok hc, Logged.bind_of_ok hc'] at hresults
    exact Except.ok.inj hresults
  exact ⟨c, c', hc, hc', congrArg Prod.fst houtput, congrArg Prod.snd houtput⟩

/-- A door with a start marker and two states, and a bell that rings while it is shut. -/
def bell : Blueprint where
  path := "/d"
  name := "Door"
  parts :=
    [{ kind := .initial, path := "/i", leaving := [{ path := "/t", dst := some "/c" }] },
      { kind := .state, path := "/c", name := "Closed"
        leaving := [{ path := "/u", event := "open", dst := some "/o" }]
        staying := [{ path := "/v", event := "ring"
                      attributes := [(.str "Action", .str "service: bell.ring")] }] },
      { kind := .state, path := "/o", name := "Open" }]
  oneRoot := by decide
  paths := by decide
  pathsFilled := by decide
  movePaths := by decide
  movePathsFilled := by decide
  eventsApart := by simp [Part.moves, Table.get?]

/-- The door as a flat model. -/
def flatBell : Model where
  root := .ref 0
  graph :=
    { cells := #[
        .map [(.str "objects", .ref 1)],
        .map [(.str "/d", .ref 2), (.str "/i", .ref 3), (.str "/c", .ref 4), (.str "/o", .ref 5),
          (.str "/t", .ref 6), (.str "/u", .ref 7), (.str "/v", .ref 8)],
        .map [(.str "type", .str "State Machine"), (.str "name", .str "Door")],
        .map [(.str "type", .str "Initial")],
        .map [(.str "type", .str "State"), (.str "name", .str "Closed")],
        .map [(.str "type", .str "State"), (.str "name", .str "Open")],
        .map [(.str "type", .str "External Transition"), (.str "pointers", .ref 9),
          (.str "attributes", .ref 12)],
        .map [(.str "type", .str "External Transition"), (.str "pointers", .ref 10),
          (.str "attributes", .ref 13)],
        .map [(.str "type", .str "Internal Transition"), (.str "pointers", .ref 11),
          (.str "attributes", .ref 14)],
        .map [(.str "src", .str "/i"), (.str "dst", .str "/c")],
        .map [(.str "src", .str "/c"), (.str "dst", .str "/o")],
        .map [(.str "src", .str "/c")],
        .map [(.str "Event", .str "")],
        .map [(.str "Event", .str "open")],
        .map [(.str "Event", .str "ring"), (.str "Action", .str "service: bell.ring")]] }

/-- The door as a tree. The first transition leads to the record of a state, the second to a path. -/
def treeBell : Model where
  root := .ref 0
  graph :=
    { cells := #[
        .map [(.str "root", .ref 1)],
        .map [(.str "type", .str "State Machine"), (.str "path", .str "/d"), (.str "name", .str "Door"),
          (.str "Initial_list", .ref 2), (.str "State_list", .ref 3)],
        .list [.ref 4],
        .list [.ref 5, .ref 6],
        .map [(.str "type", .str "Initial"), (.str "path", .str "/i"), (.str "ExternalEvents", .ref 7)],
        .map [(.str "type", .str "State"), (.str "path", .str "/c"), (.str "name", .str "Closed"),
          (.str "ExternalEvents", .ref 8), (.str "InternalEvents", .ref 9)],
        .map [(.str "type", .str "State"), (.str "path", .str "/o"), (.str "name", .str "Open")],
        .list [.ref 10],
        .list [.ref 11],
        .list [.ref 12],
        .map [(.str "name", .str ""), (.str "Transitions", .ref 13)],
        .map [(.str "name", .str "open"), (.str "Transitions", .ref 14)],
        .map [(.str "name", .str "ring"), (.str "Transitions", .ref 15)],
        .list [.ref 16],
        .list [.ref 17],
        .list [.ref 18],
        .map [(.str "path", .str "/t"), (.str "dst", .ref 5)],
        .map [(.str "path", .str "/u"), (.str "dst", .str "/o")],
        .map [(.str "path", .str "/v"), (.str "attributes", .ref 19)],
        .map [(.str "Action", .str "service: bell.ring")]] }

/-- The flat model is an export of the door. -/
theorem bell_isFlatExport : bell.IsFlatExport flatBell := by
  refine ⟨[(.str "/d", .ref 2), (.str "/i", .ref 3), (.str "/c", .ref 4), (.str "/o", .ref 5)],
    [(.str "/t", .ref 6), (.str "/u", .ref 7), (.str "/v", .ref 8)], rfl, ?_, ?_⟩
  · refine .cons ⟨_, rfl, ?_⟩ (.cons ⟨_, rfl, ?_⟩ (.cons ⟨_, rfl, ?_⟩ (.cons ⟨_, rfl, ?_⟩ .nil)))
    all_goals exact ⟨by decide +kernel, rfl, rfl, rfl⟩
  · refine .cons ⟨_, rfl, ?_⟩ (.cons ⟨_, rfl, ?_⟩ (.cons ⟨_, rfl, ?_⟩ .nil))
    all_goals
      refine ⟨by decide +kernel, rfl, ⟨_, rfl, rfl, rfl⟩, _, rfl, rfl, fun key hkey => ?_⟩
      simp [Table.get?, Ne.symm hkey, Move.transition, Graph.data, Graph.dataWithin]

/-- The record of the tree with this label. -/
def bellRecord (label : Nat) : Record :=
  (treeBell.graph.record? (.ref label)).getD ⟨label, []⟩

/-- The records of the tree, in the order in which they are read. -/
theorem bell_spans :
    Spans treeBell.graph [] [bellRecord 1] [bellRecord 1, bellRecord 4, bellRecord 5, bellRecord 6]
      [6, 5, 4, 1] := by
  have hroot : (bellRecord 1).children treeBell.graph = .ok [bellRecord 4, bellRecord 5, bellRecord 6] :=
    rfl
  have hstart : (bellRecord 4).children treeBell.graph = .ok [] := rfl
  have hclosed : (bellRecord 5).children treeBell.graph = .ok [] := rfl
  have hopen : (bellRecord 6).children treeBell.graph = .ok [] := rfl
  have hbelow : Spans treeBell.graph [1] [bellRecord 4, bellRecord 5, bellRecord 6]
      [bellRecord 4, bellRecord 5, bellRecord 6] [6, 5, 4, 1] :=
    .new (by decide) hstart .nil (.new (by decide) hclosed .nil (.new (by decide) hopen .nil .nil))
  exact .new (by decide) hroot hbelow .nil

/-- The groups of the bell that hold one transition each. -/
theorem bell_groupShows (group : Nat) {tree : List Record} {kind : TransitionKind} {v : Value}
    {t : Transition} {held : HeldTransition}
    (hgroup : treeBell.graph.recordsIn v = .ok [bellRecord group])
    (hheld : Record.groupTransitions treeBell.graph kind (bellRecord group) = .ok [held])
    (hshows : bell.ShowsHeld treeBell.graph tree t held) :
    bell.GroupsShow treeBell.graph tree kind v [t] :=
  ⟨_, [[held]], hgroup, by simp [hheld, ok_bind, pure, Except.pure], .cons hshows .nil⟩

theorem bell_isTreeExport : bell.IsTreeExport treeBell := by
  have hnone : ∀ kind : TransitionKind, bell.GroupsShow treeBell.graph
      [bellRecord 1, bellRecord 4, bellRecord 5, bellRecord 6] kind .null [] :=
    fun kind => ⟨[], [], rfl, rfl, .nil⟩
  refine ⟨rfl, bellRecord 1, _, _, rfl, bell_spans, ?_⟩
  -- machine and last state have no transitions; marker and first state are left to show
  refine .cons ⟨⟨by decide +kernel, rfl, rfl, rfl⟩, hnone _, hnone _, rfl⟩ (.cons ?_ (.cons ?_ (.cons
    ⟨⟨by decide +kernel, rfl, rfl, rfl⟩, hnone _, hnone _, rfl⟩ .nil)))
  · refine ⟨⟨by decide +kernel, rfl, rfl, rfl⟩, bell_groupShows 10 rfl rfl ?_, hnone _, rfl⟩
    have hdst : treeBell.graph.record? (.ref 5) = some (bellRecord 5) := rfl
    exact ⟨fun _ => by decide, rfl, fun _ => rfl, rfl, ⟨[], rfl, fun _ => rfl⟩,
      fun d hd => .inl (by simp [Option.some.inj (hd.symm.trans hdst)])⟩
  · refine ⟨⟨by decide +kernel, rfl, rfl, rfl⟩, bell_groupShows 11 rfl rfl ?_,
      bell_groupShows 12 rfl rfl ?_, rfl⟩
    · exact ⟨fun _ => by decide, rfl, fun _ => rfl, rfl, ⟨[], rfl, fun _ => rfl⟩,
        fun d hd => by cases hd⟩
    · exact ⟨fun h => (by cases h), rfl, fun h => (by cases h), rfl, ⟨_, rfl, fun _ => rfl⟩,
        fun d hd => by cases hd⟩

/-- The fragments of the door are readable. -/
theorem bell_readable : bell.Readable := by
  have hnone : Fragment.Readable none := ⟨_, rfl⟩
  have hring : Fragment.Readable (some "service: bell.ring") :=
    Fragment.readable_of_isSome (by decide +kernel)
  have hunset : ∀ key, textAttribute? [] key = none := fun _ => rfl
  refine ⟨?_, ?_, ?_⟩
  · simp [bell, nodes, all, root, Part.node, Node.attr?, hunset, hnone]
  · simp [bell, nodes, all, root, Part.node, Node.attr?, hunset, hnone]
  · simp only [bell, transitions, all, root, Part.transitions, Part.external, Part.internal,
      List.flatMap_cons, List.flatMap_nil, List.map_cons, List.map_nil, List.nil_append, List.append_nil,
      List.cons_append, List.forall_mem_cons]
    exact ⟨hnone, hnone, hring, by simp⟩

/-- Both exports of the door are compiled, to the same document. -/
theorem compile_exports_bell :
    bell.IsFlatExport flatBell ∧ bell.IsTreeExport treeBell ∧ bell.Readable ∧
      ∃ c c', flatBell.compile.result = .ok c ∧ treeBell.compile.result = .ok c' ∧
        c.identifiers = c'.identifiers ∧ c.document = c'.document :=
  ⟨bell_isFlatExport, bell_isTreeExport, bell_readable,
    (compile_exports bell_isFlatExport bell_isTreeExport {}).2 bell_readable⟩

end Blueprint

end HomeAutomaton
