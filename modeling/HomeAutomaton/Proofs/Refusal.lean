import HomeAutomaton.Proofs.Closure

/-!
# Which models are refused

A model is refused with a message for three reasons, and for no others. Whatever else is wrong with it,
as long as it is legible and its fragments can be read, it is compiled: what makes no sense is passed
over. This is not so for every value in every place: where a list stands for the pointers of a transition,
there is neither a document nor a refusal.

* `Model.Refuses` gives the reasons.
* `Model.compile_ends` says that every fault of the compiler has its reason, `Model.compile_of_refuses`
  that every reason is a fault.
* `Model.compile_reports` is about records that are passed over.
* `Model.compile_settled` is the result.
-/

namespace HomeAutomaton

/-- The fault refuses the model, with a message. -/
def Fault.IsRefusal (e : Fault) : Prop := e.message?.isSome = true

/-- **When a model is refused.** There are objects, but no table of them; there are none, and no root
record either; or nothing that was collected stands for the machine itself. -/
def Model.Refuses (model : Model) : Fault → Prop
  | .objectsNotMapping =>
    model.field "objects" ≠ .null ∧ model.graph.entries? (model.field "objects") = none
  | .noRecords =>
    model.field "objects" = .null ∧ model.graph.record? (model.field "root") = none
  | .noStateMachine => ∃ m, model.rawMachine.result = .ok m ∧ ∀ n ∈ m.nodes, n.kind ≠ .stateMachine
  | _ => False

variable {H : Prop}

/-- No node stands for the machine. -/
theorem Machine.root?_eq_none_iff {m : Machine} :
    m.root? = none ↔ ∀ n ∈ m.nodes, n.kind ≠ .stateMachine := by
  simp [root?]

namespace Model

variable {model : Model} {appearance : Appearance}

/-! ### Every fault has its reason -/

/-- Where all records can be read as the compiler demands it, their types can be written. -/
theorem blames_of_legible {g : Graph} {records : Record → Prop}
    (h : H → ∀ r, records r → ∃ otherwise, r.Legible g .lenient otherwise) :
    Fault.Blames H g records (Fault.Breaks H) where
  breaks _ he := he
  type r hr hnone := by
    refine ⟨rfl, fun hH => ?_⟩
    obtain ⟨otherwise, hlegible⟩ := h hH r hr
    have hshort : (r.typeData g).hasLongNumber = false := hlegible.type
    rw [Record.typeText?, hshort] at hnone
    cases hnone

/-- What is collected is as demanded, or there is a reason for the fault. -/
theorem rawMachine_ends (h : H → model.Legible .lenient) :
    model.rawMachine.Ends (fun e => e.Breaks H ∨ model.Refuses e) fun m => H → m.Meets .lenient := by
  unfold rawMachine
  dsimp only
  -- a table of objects, or a tree below the root, or neither
  split
  next hnull =>
    split
    next root hroot =>
      have hblame : Fault.Blames H model.graph (Record.Met model.graph root) (Fault.Breaks H) :=
        blames_of_legible fun hH r hr => ⟨.null, ((h hH).tree hnull root hroot r hr).here⟩
      exact (Machine.ofTree_ends hblame fun hH => (h hH).tree hnull root hroot).weaken
        fun e he => .inl he
    next hroot => exact .fail (.inr ⟨hnull, hroot⟩)
  next hnull =>
    split
    next objects hobjects =>
      have hblame : Fault.Blames H model.graph
          (fun r => ∃ path, (path, r) ∈ model.graph.tableRecords objects) (Fault.Breaks H) :=
        blames_of_legible fun hH r ⟨path, hr⟩ => ⟨path, (h hH).table objects hobjects (path, r) hr⟩
      exact (Machine.ofTable_ends hblame fun hH => (h hH).table objects hobjects).weaken
        fun e he => .inl he
    next hobjects => exact .fail (.inr ⟨hnull, hobjects⟩)

/-- What is collected is marked, if something stands for the machine itself. -/
theorem machine_ends (h : H → model.Legible .lenient) :
    model.machine.Ends (fun e => e.Breaks H ∨ model.Refuses e) fun marked =>
      ∃ m, model.rawMachine.result = .ok m ∧ (H → m.Meets .lenient) ∧ m.root? ≠ none ∧
        marked.nodes = m.nodes ∧
        ∀ t ∈ marked.transitions, ∃ kind, { t with kind } ∈ m.transitions := by
  have hraw := (rawMachine_ends h).mono fun m hm hmeets => And.intro hm hmeets
  refine hraw.bind fun m hcollected => ?_
  obtain ⟨hm, hmeets⟩ := hcollected
  split
  next hnone =>
    -- without a node for the machine the model is refused
    refine .fail (.inr ⟨m, hm, ?_⟩)
    exact Machine.root?_eq_none_iff.mp (Option.isNone_iff_eq_none.mp hnone)
  next hsome =>
    have hkeys : H → ∀ t ∈ m.transitions, t.src.isKey = true :=
      fun hH t ht => ((hmeets hH).sources t ht).1
    refine ((Logged.Ends.lift (Machine.markInitial_ends hkeys)).weaken fun e he => .inl he).bind
      fun marked hmarked => .report_bind (.pure ⟨m, hm, hmeets, ?_, hmarked⟩)
    exact fun hnone => hsome (by rw [hnone]; rfl)

/-- The machine of a legible model with readable fragments can be compiled. -/
theorem ready_of_meets {m marked : Machine} {identifiers : Table String} (hmeets : m.Meets .lenient)
    (hreadable : m.Readable) (hnodes : marked.nodes = m.nodes)
    (htransitions : ∀ t ∈ marked.transitions, ∃ kind, { t with kind } ∈ m.transitions)
    (hidentifiers : (identifiersOf marked.states).result = .ok identifiers) :
    Scope.Ready { machine := marked, identifiers } (allotted [] marked.states) := by
  -- marking changes kinds alone, so titles, ends and events are those of the machine that was collected
  refine ⟨hmeets.titled.marked htransitions, fun t ht => ?_, fun t ht hnone => ?_,
    hreadable.marked hnodes htransitions, fun s hs => ?_⟩
  · obtain ⟨kind, hmem⟩ := htransitions t ht
    have hdst := hmeets.destinations _ hmem
    exact hdst.1
  · obtain ⟨kind, hmem⟩ := htransitions t ht
    have hevent := hmeets.events _ hmem
    exact hevent hnone
  · obtain ⟨identifier, hmem, hget⟩ := exists_get?_of_identifiersOf
      (marked.distinct.sublist List.filter_sublist) hidentifiers hs
    exact ⟨identifier, by rw [identifierAt, hget], hmem⟩

/-- **Every fault has its reason.** A model is refused for a reason that there is; any other fault shows
that the model is not legible, or that a fragment cannot be read. -/
theorem compile_ends (h : H → model.Legible .lenient)
    (hreadable : H → ∀ m, model.rawMachine.result = .ok m → m.Readable) :
    (model.compile appearance).Ends (fun e => e.Breaks H ∨ model.Refuses e) fun _ => True := by
  refine (machine_ends h).bind fun marked hmarked => ?_
  obtain ⟨m, hm, hmeets, hroot, hnodes, htransitions⟩ := hmarked
  split
  -- there was a root, and marking changes no nodes
  next hnone => exact absurd (by rwa [Machine.root?, ← hnodes]) hroot
  next root _ =>
    dsimp only
    have hpaths : H → ∀ s ∈ marked.states, s.path.IsAddress := by
      intro hH s hs
      have hmem : s ∈ m.nodes := hnodes ▸ List.mem_of_mem_filter hs
      exact ((hmeets hH).paths s hmem).2
    have hidentifiers := (identifiersFrom_ends hpaths [] []).mono
      fun identifiers heq _ => heq
    refine (hidentifiers.weaken fun e he => .inl he).bind fun identifiers hidentifiers => ?_
    have hready := fun hH => ready_of_meets (hmeets hH) (hreadable hH m hm) hnodes htransitions
      hidentifiers
    refine ((Scope.initialState?_ends hready).weaken fun e he => .inl he).bind fun initial _ => ?_
    refine ((Scope.rules_ends hready).weaken fun e he => .inl he).bind fun rules _ => ?_
    refine .report_bind ?_
    have hoptions := Ends.mapM fun s hs => identifierAt_ends fun hH => (hready hH).identified s hs
    exact ((Logged.Ends.lift hoptions).weaken fun e he => .inl he).bind fun options _ => .pure trivial

/-! ### Every reason is a fault -/

/-- Without a machine nothing is compiled. -/
theorem compile_of_machine_error {e : Fault} (h : model.machine.result = .error e) :
    (model.compile appearance).result = .error e := by
  rw [compile, Logged.bind_of_error h]

theorem machine_of_rawMachine_error {e : Fault} (h : model.rawMachine.result = .error e) :
    model.machine.result = .error e := by
  rw [machine, Logged.bind_of_error h]

/-- A model for whose refusal there is a reason is refused. -/
theorem compile_of_refuses {e : Fault} (h : model.Refuses e) :
    (model.compile appearance).result = .error e := by
  refine compile_of_machine_error ?_
  -- each reason shows at the step that asks for what is missing
  cases e with
  | objectsNotMapping =>
    obtain ⟨hobjects, hentries⟩ := h
    refine machine_of_rawMachine_error ?_
    unfold rawMachine
    dsimp only
    split
    next hnull => exact absurd hnull hobjects
    next =>
      rw [hentries]
      rfl
  | noRecords =>
    obtain ⟨hobjects, hroot⟩ := h
    refine machine_of_rawMachine_error ?_
    unfold rawMachine
    dsimp only
    rw [hobjects, hroot]
    rfl
  | noStateMachine =>
    obtain ⟨m, hm, hkinds⟩ := h
    have hnone : m.root?.isNone = true := by
      rw [Machine.root?_eq_none_iff.mpr hkinds]
      rfl
    rw [machine, Logged.bind_of_ok hm, if_pos hnone]
    rfl
  | _ => exact h.elim

end Model

/-! ### What is passed over is reported -/

namespace Logged

variable {α β : Type} {x : Logged α} {f : α → Logged β} {d : Diagnostic}

/-- What was reported once stays reported. -/
theorem mem_log_bind (h : d ∈ x.log) : d ∈ (x >>= f).log := by
  cases hx : x.result with
  | ok a =>
    rw [bind_of_ok hx]
    exact List.mem_append_left _ h
  | error e =>
    rw [bind_of_error hx]
    exact h

theorem mem_log_bind_of_ok {a : α} (hx : x.result = .ok a) (h : d ∈ (f a).log) :
    d ∈ (x >>= f).log := by
  rw [bind_of_ok hx]
  exact List.mem_append_right _ h

end Logged

/-- A record that stands for no node is reported. -/
theorem Machine.addTableNodes_reports {g : Graph} {records : List (Data × Record)}
    (hpointer : ∀ e ∈ records, e.2.pointerKind? g = none) {m m' : Machine}
    (h : (addTableNodes g m records).result = .ok m') {e : Data × Record} (he : e ∈ records)
    (hnode : ¬ e.2.IsNode g e.1) :
    .recordIgnored e.1 (g.data (e.2.field "type")) ∈ (addTableNodes g m records).log := by
  -- along the records; one that stands for no node is reported when its turn comes
  induction records generalizing m with
  | nil => exact absurd he List.not_mem_nil
  | cons first rest ih =>
    obtain ⟨hfirst, hrest⟩ := List.forall_mem_cons.mp hpointer
    obtain ⟨n?, hn, h⟩ := Logged.bind_eq_ok.mp h
    refine Logged.mem_log_bind_of_ok hn ?_
    cases n? with
    | none =>
      rcases List.mem_cons.mp he with rfl | he
      · exact List.mem_cons_self
      · exact List.mem_cons_of_mem _ (ih hrest h he)
    | some n =>
      rcases List.mem_cons.mp he with rfl | he
      · exact absurd (Record.isNode_of_node? hfirst hn) hnode
      · obtain ⟨added, hadded, h⟩ := Logged.bind_eq_ok.mp h
        exact Logged.mem_log_bind_of_ok hadded (ih hrest h he)

/-- What stands in a table and is neither a transition nor a node is reported. -/
theorem Model.compile_reports {model : Model} {appearance : Appearance} {c : Compiled}
    (hc : (model.compile appearance).result = .ok c) {objects : Table Value}
    (hobjects : model.graph.entries? (model.field "objects") = some objects) {e : Data × Record}
    (he : e ∈ model.graph.tableRecords objects) (hpointer : e.2.pointerKind? model.graph = none)
    (hnode : ¬ e.2.IsNode model.graph e.1) :
    .recordIgnored e.1 (model.graph.data (e.2.field "type")) ∈ (model.compile appearance).log := by
  have hraw := rawMachine_of_table hobjects
  obtain ⟨m, hm, -⟩ := Logged.bind_eq_ok.mp (compile_eq_ok.mp hc).1
  rw [hraw] at hm
  obtain ⟨m', hm', -⟩ := Logged.bind_eq_ok.mp hm
  -- the nodes are collected first, and nothing that follows takes back a report
  refine Logged.mem_log_bind (Logged.mem_log_bind ?_)
  rw [hraw]
  refine Logged.mem_log_bind (Machine.addTableNodes_reports (fun e he => ?_) hm' ?_ hnode)
  · exact Option.isNone_iff_eq_none.mp (List.mem_filter.mp he).2
  · exact List.mem_filter.mpr ⟨he, by rw [hpointer]; rfl⟩

/-! ### The result -/

/-- **What becomes of a model.** It is refused with a message exactly for one of three reasons. If all that
is read of it can be read, and so can its fragments, it is compiled unless it is refused; what stands in a
table and is neither a transition nor a node is passed over and reported. -/
structure Model.Settled (model : Model) (compiled : Logged Compiled) : Prop where
  refused : ∀ e : Fault, e.IsRefusal → (compiled.result = .error e ↔ model.Refuses e)
  legible : model.Legible .lenient → (∀ m, model.rawMachine.result = .ok m → m.Readable) →
    (∃ c, compiled.result = .ok c) ∨ ∃ e : Fault, e.IsRefusal ∧ compiled.result = .error e
  reported : ∀ c objects, compiled.result = .ok c →
    model.graph.entries? (model.field "objects") = some objects →
      ∀ e ∈ model.graph.tableRecords objects, e.2.pointerKind? model.graph = none →
        ¬ e.2.IsNode model.graph e.1 →
          .recordIgnored e.1 (model.graph.data (e.2.field "type")) ∈ compiled.log

/-- All reasons come with a message. -/
theorem Model.Refuses.isRefusal {model : Model} {e : Fault} (h : model.Refuses e) : e.IsRefusal := by
  cases e with
  | objectsNotMapping | noRecords | noStateMachine => rfl
  | _ => exact h.elim

/-- **Only a refusal keeps a legible model from being compiled.** -/
theorem Model.compile_settled (model : Model) (appearance : Appearance) :
    model.Settled (model.compile appearance) where
  refused := by
    intro e he
    refine ⟨fun hresult => ?_, compile_of_refuses⟩
    have hends : (model.compile appearance).Ends (fun e => e.Breaks False ∨ model.Refuses e)
        fun _ => True := compile_ends False.elim False.elim
    rw [Logged.Ends, hresult] at hends
    rcases hends with hbreaks | hrefuses
    -- a breakdown is no refusal
    · rw [Fault.IsRefusal, hbreaks.1] at he
      cases he
    · exact hrefuses
  legible := by
    intro hlegible hreadable
    have hends : (model.compile appearance).Ends (fun e => e.Breaks True ∨ model.Refuses e)
        fun _ => True := compile_ends (fun _ => hlegible) fun _ => hreadable
    cases hresult : (model.compile appearance).result with
    | ok c => exact .inl ⟨c, rfl⟩
    | error e =>
      rw [Logged.Ends, hresult] at hends
      rcases hends with hbreaks | hrefuses
      -- a legible model does not break down
      · exact absurd trivial hbreaks.2
      · exact .inr ⟨e, hrefuses.isRefusal, rfl⟩
  reported := fun c objects hc hobjects e he => compile_reports hc hobjects he

/-! ### Two lamps -/

/-- A lamp with much in it that makes no sense: a state whose name is a number and whose attributes are a
list of pairs, with an action that is not well formed; a state with a text for attributes; a record whose
type is a list; a transition to a list; a text in the place of a record; and a state without a path. -/
def strayModel : Model where
  root := .ref 0
  graph :=
    { cells := #[
        .map [(.str "objects", .ref 1)],
        .map [(.str "/lamp", .ref 2), (.str "/on", .ref 3), (.str "/off", .ref 4),
          (.str "/note", .ref 5), (.str "/quit", .ref 6), (.str "/text", .str "lamp"),
          (.str "", .ref 7)],
        .map [(.str "type", .str "State Machine"), (.str "name", .str "Lamp")],
        .map [(.str "type", .str "State"), (.str "name", .int 7), (.str "attributes", .ref 8)],
        .map [(.str "type", .str "State"), (.str "attributes", .str "")],
        .map [(.str "type", .ref 10)],
        .map [(.str "type", .str "External Transition"), (.str "pointers", .ref 11),
          (.str "attributes", .ref 12)],
        .map [(.str "type", .str "State")],
        .list [.ref 9],
        .list [.str "Entry", .str "[ring"],
        .list [.str "odd"],
        .map [(.str "src", .str "/on"), (.str "dst", .ref 10)],
        .map [(.str "Event", .str "press")]] }

/-- These are the records of the table. -/
theorem strayModel_records : ∀ objects,
    strayModel.graph.entries? (strayModel.field "objects") = some objects →
      strayModel.graph.tableRecords objects =
        [(.str "/lamp", ⟨2, [(.str "type", .str "State Machine"), (.str "name", .str "Lamp")]⟩),
          (.str "/on", ⟨3, [(.str "type", .str "State"), (.str "name", .int 7),
            (.str "attributes", .ref 8)]⟩),
          (.str "/off", ⟨4, [(.str "type", .str "State"), (.str "attributes", .str "")]⟩),
          (.str "/note", ⟨5, [(.str "type", .ref 10)]⟩),
          (.str "/quit", ⟨6, [(.str "type", .str "External Transition"), (.str "pointers", .ref 11),
            (.str "attributes", .ref 12)]⟩),
          (.str "", ⟨7, [(.str "type", .str "State")]⟩)] := by
  rintro _ ⟨⟩
  rfl

/-- All of them can be read. -/
theorem strayModel_legible : strayModel.Legible .lenient where
  table := by
    intro objects hobjects
    have htext : ∀ s, (Data.str s).IsAddress := fun s => ⟨Data.isKey_str s, rfl⟩
    have hnot : ¬ (none : Option TransitionKind).isSome = true := Bool.false_ne_true
    rw [strayModel_records objects hobjects]
    simp only [List.forall_mem_cons]
    refine ⟨?_, ?_, ?_, ?_, ?_, ?_, fun _ h => absurd h List.not_mem_nil⟩
    · exact ⟨rfl, fun _ => ⟨htext _, rfl, .inl rfl⟩, fun h => absurd h hnot⟩
    -- the attributes of this one are a list of pairs
    · refine ⟨rfl, fun _ => ⟨htext _, by decide +kernel, .inr (.inr ⟨_, rfl, ?_⟩)⟩,
        fun h => absurd h hnot⟩
      exact List.forall_mem_singleton.mpr ⟨_, _, rfl, rfl⟩
    · exact ⟨rfl, fun _ => ⟨htext _, rfl, .inl rfl⟩, fun h => absurd h hnot⟩
    -- its type can be written, so it is read as one that is not known
    · refine ⟨rfl, fun h => ?_, fun h => absurd h hnot⟩
      exact absurd h.2.1 (by decide +kernel)
    -- its destination is a list, which refers to nothing
    · refine ⟨rfl, fun h => ?_, fun _ => ⟨fun _ => htext _, fun _ => ⟨_, rfl, htext _, ?_⟩,
        .inr (.inl rfl)⟩⟩
      · exact absurd h.1 (by decide +kernel)
      · exact Data.isAddress_null
    · refine ⟨rfl, fun h => ?_, fun h => absurd h hnot⟩
      exact absurd h.2.2 (by decide +kernel)
  tree := fun h => by cases h

/-- The machine of the lamp has a root, and its fragments can be read. -/
theorem strayModel_rawMachine : Returns strayModel.rawMachine.result fun m =>
    (∃ n ∈ m.nodes, n.kind = .stateMachine) ∧ m.Readable := by
  have hchecked : (strayModel.rawMachine.result.toOption.map fun m =>
      m.nodes.any (·.kind == .stateMachine) && m.nodes.all (fun n =>
        (n.attr? "Exit").isNone && [none, some "[ring"].contains (n.attr? "Entry")) &&
        m.transitions.all fun t => (t.attr? "Action").isNone) = some true := by
    decide +kernel
  refine (Returns.of_check hchecked).mono fun m hm => ?_
  simp only [Bool.and_eq_true, List.any_eq_true, List.all_eq_true, beq_iff_eq,
    Option.isNone_iff_eq_none, List.contains_iff_mem] at hm
  obtain ⟨⟨hroot, hnodes⟩, htransitions⟩ := hm
  have hnone : Fragment.Readable none := ⟨_, rfl⟩
  refine ⟨hroot, fun n hn => ?_, fun n hn => ?_, fun t ht => ?_⟩
  · rcases List.mem_cons.mp (hnodes n hn).2 with hentry | hentry
    · rwa [hentry]
    -- the bracket of this fragment is never closed, which is reported
    · rw [List.mem_singleton.mp hentry]
      exact Fragment.readable_of_isSome (by decide +kernel)
  · rwa [(hnodes n hn).1]
  · rwa [htransitions t ht]

/-- There is no reason to refuse it. -/
theorem strayModel_not_refused (e : Fault) : ¬ strayModel.Refuses e := by
  intro he
  cases e with
  | objectsNotMapping => cases he.2
  | noRecords => cases he.1
  | noStateMachine =>
    obtain ⟨m, hm, ⟨root, hroot, hkind⟩, -⟩ := strayModel_rawMachine
    obtain ⟨m', hm', hkinds⟩ := he
    rw [hm] at hm'
    obtain rfl := Except.ok.inj hm'
    exact hkinds root hroot hkind
  | _ => exact he.elim

/-- The lamp is compiled, and the record whose type is a list is reported. -/
theorem Model.compile_settled_stray :
    strayModel.Legible .lenient ∧ (∃ c, strayModel.compile.result = .ok c) ∧
      .recordIgnored (.str "/note") (.list [.str "odd"]) ∈ strayModel.compile.log := by
  have hsettled := compile_settled strayModel {}
  have hreadable : ∀ m, strayModel.rawMachine.result = .ok m → m.Readable := by
    intro m hm
    obtain ⟨m', hm', -, hreadable⟩ := strayModel_rawMachine
    rw [hm] at hm'
    rwa [Except.ok.inj hm']
  have hcompiled : ∃ c, strayModel.compile.result = .ok c := by
    rcases hsettled.legible strayModel_legible hreadable with hc | ⟨e, he, hresult⟩
    · exact hc
    · exact absurd ((hsettled.refused e he).mp hresult) (strayModel_not_refused e)
  obtain ⟨c, hc⟩ := hcompiled
  refine ⟨strayModel_legible, ⟨c, hc⟩, ?_⟩
  obtain ⟨objects, hobjects⟩ : ∃ objects,
      strayModel.graph.entries? (strayModel.field "objects") = some objects := ⟨_, rfl⟩
  -- the record is in the table, and stands for no node
  have hnote : ((.str "/note", ⟨5, [(.str "type", .ref 10)]⟩) : Data × Record) ∈
      strayModel.graph.tableRecords objects := by
    rw [strayModel_records objects hobjects]
    simp
  have hkind : ((⟨5, [(.str "type", .ref 10)]⟩ : Record).nodeKind? strayModel.graph).isSome = false := by
    decide +kernel
  refine hsettled.reported c objects hc hobjects _ hnote rfl fun hnode => ?_
  exact Bool.false_ne_true (hkind.symm.trans hnode.2.1)

/-- A lamp with a transition whose pointers are a list. -/
def bentModel : Model where
  root := .ref 0
  graph :=
    { cells := #[
        .map [(.str "objects", .ref 1)],
        .map [(.str "/lamp", .ref 2), (.str "/on", .ref 3), (.str "/off", .ref 4),
          (.str "/quit", .ref 5)],
        .map [(.str "type", .str "State Machine"), (.str "name", .str "Lamp")],
        .map [(.str "type", .str "State"), (.str "name", .str "On")],
        .map [(.str "type", .str "State"), (.str "name", .str "Off")],
        .map [(.str "type", .str "External Transition"), (.str "pointers", .ref 6),
          (.str "attributes", .ref 7)],
        .list [.str "/on", .str "/off"],
        .map [(.str "Event", .str "press")]] }

/-- Pointers that are a list are not compiled around: there is no document, and no reason for which the
model would be refused. -/
theorem Model.bent_pointers_fault :
    bentModel.compile.result = .error .pointersNotMapping ∧
      ¬ Fault.IsRefusal .pointersNotMapping ∧ ∀ e, ¬ bentModel.Refuses e := by
  have hraw : bentModel.rawMachine.result = .error .pointersNotMapping := rfl
  refine ⟨rfl, Bool.false_ne_true, fun e he => ?_⟩
  cases e with
  | objectsNotMapping => cases he.2
  | noRecords => cases he.1
  | noStateMachine =>
    obtain ⟨m, hm, -⟩ := he
    rw [hraw] at hm
    cases hm
  | _ => exact he.elim

end HomeAutomaton
