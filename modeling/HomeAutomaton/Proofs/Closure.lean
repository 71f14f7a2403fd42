import HomeAutomaton.Proofs.Collecting
import HomeAutomaton.Proofs.Readiness

/-!
# A document refers to its own options alone

The states of a machine are named once, and the names are used in four places: as the options of the
selector, as its initial value, in the conditions of rules, and in the actions that change the state. All
the look-ups go through paths, which come from the records of the states themselves, from keys of a
table, or from the destinations of transitions. For a well-typed model none of them fails, and nothing
but an option of the selector ever stands in the document. One thing can keep a well-typed model from
being compiled, before anything is looked up: a type that cannot be written, where any other odd type is
passed over.

* `Machine.WellFormed.ready` says that a machine of a well-typed model can be compiled.
* `Model.closed_of_machine` compiles it; `Model.compile_closed` is the result.
* `Model.long_type_fault` is a model with a type that cannot be written.
-/

namespace HomeAutomaton

namespace Machine

variable {m : Machine}

/-- Paths that are texts are all different. -/
theorem paths_nodup (h : ∀ n ∈ m.nodes, n.path.IsText) : (m.nodes.map (·.path)).Nodup := by
  rw [List.Nodup, List.pairwise_map]
  refine m.distinct.imp_of_mem fun {n later} hn _ hsame heq => ?_
  rw [(Data.same_iff (h n hn)).mpr heq] at hsame
  cases hsame

/-- The paths of states are texts as well. -/
theorem states_paths (h : ∀ n ∈ m.nodes, n.path.IsText) : ∀ s ∈ m.states, s.path.IsText :=
  fun s hs => h s (List.mem_of_mem_filter hs)

/-- The paths of states are all different. -/
theorem states_nodup (h : ∀ n ∈ m.nodes, n.path.IsText) : (m.states.map (·.path)).Nodup :=
  (paths_nodup h).sublist (List.filter_sublist.map _)

/-- Marking the transitions out of start markers changes their kinds alone. -/
theorem markInitial_returns (h : m.WellFormed) : Returns m.markInitial fun marked =>
    marked.nodes = m.nodes ∧ ∀ t ∈ marked.transitions, ∃ kind, { t with kind } ∈ m.transitions :=
  Ends.returns (markInitial_ends fun _ : True => fun t ht => (h.sources t ht).isKey) trivial

/-- With identifiers for its states, the transitions of a machine can be resolved. -/
theorem WellFormed.ready_of (h : m.WellFormed) (htitled : m.Titled) (hreadable : m.Readable)
    {identifiers : Table String} {options : List String}
    (hidentified : ∀ s ∈ m.states, Returns (identifierAt identifiers s.path) (· ∈ options)) :
    Scope.Ready { machine := m, identifiers } options := by
  refine ⟨htitled, fun t ht => (h.destinations t ht).isKey, fun t ht _ => ?_, hreadable, hidentified⟩
  rcases h.eventNames t ht with hnull | htext
  · exact .inr (.inl (by rw [hnull]; rfl))
  · exact .inl htext

/-- With the identifiers of its states, a machine can be compiled. -/
theorem WellFormed.ready (h : m.WellFormed) (htitled : m.Titled) (hreadable : m.Readable) :
    Scope.Ready { machine := m, identifiers := identifierTable m.states } (allotted [] m.states) := by
  refine h.ready_of htitled hreadable fun s hs => ?_
  obtain ⟨identifier, hmem, hget⟩ :=
    exists_get?_identifierTable (states_paths h.paths) (states_nodup h.paths) hs
  exact ⟨identifier, by rw [identifierAt, hget], hmem⟩

/-- Fragments stay readable when start markers are taken into account. -/
theorem Readable.marked {marked : Machine} (h : m.Readable) (hnodes : marked.nodes = m.nodes)
    (htransitions : ∀ t ∈ marked.transitions, ∃ kind, { t with kind } ∈ m.transitions) :
    marked.Readable := by
  refine ⟨hnodes ▸ h.entries, hnodes ▸ h.exits, fun t ht => ?_⟩
  obtain ⟨kind, hmem⟩ := htransitions t ht
  have hreadable := h.actions _ hmem
  exact hreadable

end Machine

/-- **What a document refers to.** The options are the identifiers of the states in their order, all
different; the initial value, the states in the conditions of rules and the states that actions lead
into are among them. -/
structure Compiled.Closed (c : Compiled) : Prop where
  optionsOfStates :
    c.machine.states.map (fun s => c.identifiers.get? s.path) = c.document.options.map some
  distinct : c.document.options.Nodup
  initial : ∀ stateId, c.document.initial = some stateId → stateId ∈ c.document.options
  conditions : ∀ r ∈ c.document.rules, r.state ∈ c.document.options
  targets : ∀ r ∈ c.document.rules, ∀ a ∈ r.actions, ∀ stateId, a.Enters stateId →
    stateId ∈ c.document.options

/-- The machine of a model is that with its start markers taken into account. -/
theorem Model.machine_result {model : Model} {m marked : Machine}
    (hm : model.rawMachine.result = .ok m) (hroot : m.root?.isSome = true)
    (hmarked : m.markInitial = .ok marked) : model.machine.result = .ok marked := by
  refine Logged.bind_eq_ok.mpr ⟨m, hm, ?_⟩
  rw [Option.isNone_eq_false_iff.mpr hroot]
  exact Logged.bind_eq_ok.mpr ⟨marked, hmarked, rfl⟩

/-- A model with a well-formed machine is compiled if a node stands for the machine itself and the
fragments are readable, and its document is closed. -/
theorem Model.closed_of_machine {model : Model} {m : Machine} (appearance : Appearance)
    (hm : model.rawMachine.result = .ok m) (hraw : m.WellFormed) (htitled : m.Titled)
    (hstands : ∃ n ∈ m.nodes, n.kind = .stateMachine) (hreadable : m.Readable) :
    ∃ c, (model.compile appearance).result = .ok c ∧
      model.machine.result = .ok c.machine ∧ c.Closed := by
  obtain ⟨n, hn, hkind⟩ := hstands
  -- marking changes kinds alone: root, form, titles and readable fragments are carried over
  obtain ⟨marked, hmarked, hnodes, htransitions⟩ := Machine.markInitial_returns hraw
  have hroot : m.root?.isSome = true := List.find?_isSome.mpr ⟨n, hn, by simp [hkind]⟩
  obtain ⟨root, hroot'⟩ : ∃ root, marked.root? = some root :=
    Option.isSome_iff_exists.mp (by rwa [Machine.root?, hnodes])
  have hformed := hraw.marked hnodes htransitions
  -- from here on no look-up fails
  have hready := hformed.ready (htitled.marked htransitions) (hreadable.marked hnodes htransitions)
  obtain ⟨initial, hinitial, hinitialWithin⟩ := hready.initialState?_returns
  obtain ⟨rules, hrules, hrulesWithin⟩ := hready.rules_returns
  have hpaths := Machine.states_paths hformed.paths
  have hdistinct := Machine.states_nodup hformed.paths
  have hoptions := mapM_identifierAt hpaths hdistinct
  have hmachine := machine_result hm hroot hmarked
  refine ⟨⟨marked, identifierTable marked.states, _⟩, compile_eq_ok.mpr ⟨hmachine, ?_, root, initial,
    rules, allotted [] marked.states, hroot', hinitial, hrules, hoptions, rfl⟩, hmachine, ?_⟩
  · rw [identifiersOf_eq hpaths]
  · exact {
      optionsOfStates := map_get?_identifierTable hpaths hdistinct
      distinct := (allotted_nodup [] marked.states).1
      initial := hinitialWithin
      conditions := fun r hr => (hrulesWithin r hr).1
      targets := fun r hr => (hrulesWithin r hr).2 }

/-- **The document of a well-typed model is closed.** The model has a machine; if a node stands for the
machine itself and the fragments are readable, the model is compiled, and the document refers to its own
options alone. Otherwise compiling ends at an integer that is too long, because a record that is read has
a type that cannot be written. -/
theorem Model.compile_closed {model : Model} (h : model.WellTyped) (appearance : Appearance) :
    (∃ m, model.rawMachine.result = .ok m ∧
      ((∃ n ∈ m.nodes, n.kind = .stateMachine) → m.Readable →
        ∃ c, (model.compile appearance).result = .ok c ∧
          model.machine.result = .ok c.machine ∧ c.Closed)) ∨
    ((model.compile appearance).result = .error .numberTooLong ∧
      ∃ r, model.Reads r ∧ r.typeText? model.graph = none) := by
  have hends := rawMachine_wellTyped h
  cases hm : model.rawMachine.result with
  | ok m =>
    obtain ⟨hformed, htitled⟩ : m.WellFormed ∧ m.Titled := by rwa [Logged.Ends, hm] at hends
    exact .inl ⟨m, rfl, closed_of_machine appearance hm hformed htitled⟩
  | error e =>
    obtain ⟨rfl, hrecord⟩ : e.Mistyped model.graph model.Reads := hends.blame_of_error hm
    refine .inr ⟨?_, hrecord⟩
    -- nothing is done after collecting has failed
    rw [compile, machine, Logged.bind_assoc, Logged.bind_of_error hm]

/-- A door with two states and a choice between them, as a flat model. -/
def doorModel : Model where
  root := .ref 0
  graph :=
    { cells := #[
        .map [(.str "objects", .ref 1)],
        .map [(.str "/door", .ref 2), (.str "/open", .ref 3), (.str "/shut", .ref 4),
          (.str "/fork", .ref 5), (.str "/push", .ref 6), (.str "/lock", .ref 7),
          (.str "/back", .ref 8)],
        .map [(.str "type", .str "State Machine"), (.str "name", .str "Door")],
        .map [(.str "type", .str "State"), (.str "name", .str "Open")],
        .map [(.str "type", .str "State"), (.str "name", .str "Shut")],
        .map [(.str "type", .str "Choice")],
        .map [(.str "type", .str "External Transition"), (.str "pointers", .ref 9),
          (.str "attributes", .ref 12)],
        .map [(.str "type", .str "External Transition"), (.str "pointers", .ref 10),
          (.str "attributes", .ref 13)],
        .map [(.str "type", .str "External Transition"), (.str "pointers", .ref 11)],
        .map [(.str "src", .str "/open"), (.str "dst", .str "/fork")],
        .map [(.str "src", .str "/fork"), (.str "dst", .str "/shut")],
        .map [(.str "src", .str "/fork"), (.str "dst", .str "/open")],
        .map [(.str "Event", .str "push"), (.str "Action", .str "service: bell.ring")],
        .map [(.str "Guard", .str "[locked]")]] }

/-- Everything about the door is of the type that it should have. -/
theorem doorModel_wellTyped : doorModel.WellTyped := by
  refine .inl ⟨_, rfl, ?_⟩
  -- the keys of the table are texts, and a record is left for each of them
  simp only [List.forall_mem_cons, Data.isText_str, true_and]
  have hnull : Value.null.IsTextOrNull := .inl rfl
  have htext : ∀ s, (Value.str s).IsTextOrNull := fun s => .inr ⟨s, rfl⟩
  refine ⟨?_, ?_, ?_, ?_, ?_, ?_, ?_, fun _ h => absurd h List.not_mem_nil⟩ <;> rintro _ ⟨⟩
  · exact ⟨hnull, hnull, htext _, .inl rfl, .inl rfl⟩
  · exact ⟨hnull, hnull, htext _, .inl rfl, .inl rfl⟩
  · exact ⟨hnull, hnull, htext _, .inl rfl, .inl rfl⟩
  · exact ⟨hnull, hnull, hnull, .inl rfl, .inl rfl⟩
  · exact ⟨hnull, hnull, hnull, .inr ⟨_, rfl⟩, .inr ⟨_, rfl, .inl (htext _), .inl (htext _)⟩⟩
  · exact ⟨hnull, hnull, hnull, .inr ⟨_, rfl⟩, .inr ⟨_, rfl, .inl (htext _), .inl (htext _)⟩⟩
  · exact ⟨hnull, hnull, hnull, .inl rfl, .inr ⟨_, rfl, .inl (htext _), .inl (htext _)⟩⟩

/-- Its machine has a node for itself, no attributes of nodes, and one fragment. -/
theorem doorModel_rawMachine :
    (doorModel.rawMachine.result.toOption.map fun m =>
      m.nodes.any (·.kind == .stateMachine) && m.nodes.all (·.attributes.isEmpty) &&
        m.transitions.all fun t =>
          [none, some "service: bell.ring"].contains (t.attr? "Action")) = some true := by
  decide +kernel

/-- All of its types can be written. -/
theorem doorModel_compiles : doorModel.compile.result ≠ .error .numberTooLong := by
  have hchecked : doorModel.compile.result.toOption.isSome = true := by decide +kernel
  intro hfault
  rw [hfault] at hchecked
  cases hchecked

/-- The document of the door is closed. -/
theorem Model.compile_closed_door :
    doorModel.WellTyped ∧ ∃ c, doorModel.compile.result = .ok c ∧
      doorModel.machine.result = .ok c.machine ∧ c.Closed := by
  have hchecked := doorModel_rawMachine
  -- the other case would be a type that cannot be written
  obtain ⟨m, hm, hclosed⟩ : ∃ m, doorModel.rawMachine.result = .ok m ∧
      ((∃ n ∈ m.nodes, n.kind = .stateMachine) → m.Readable → ∃ c,
        doorModel.compile.result = .ok c ∧ doorModel.machine.result = .ok c.machine ∧ c.Closed) := by
    rcases compile_closed doorModel_wellTyped {} with hclosed | ⟨hfault, -⟩
    · exact hclosed
    · exact absurd hfault doorModel_compiles
  rw [hm] at hchecked
  simp only [Except.toOption, Option.map_some, Option.some.injEq, Bool.and_eq_true, List.any_eq_true,
    List.all_eq_true, beq_iff_eq, List.isEmpty_iff, List.contains_iff_mem] at hchecked
  obtain ⟨⟨hroot, hnodes⟩, htransitions⟩ := hchecked
  have hnone : Fragment.Readable none := ⟨_, rfl⟩
  refine ⟨doorModel_wellTyped, hclosed hroot ⟨fun n hn => ?_, fun n hn => ?_, fun t ht => ?_⟩⟩
  -- no node has attributes, and the only fragment is the action of one transition
  · rwa [Node.attr?, hnodes n hn]
  · rwa [Node.attr?, hnodes n hn]
  · have haction := htransitions t ht
    rw [List.mem_cons, List.mem_singleton] at haction
    rcases haction with hnoAction | hbell
    · rwa [hnoAction]
    · rw [hbell]
      exact Fragment.readable_of_isSome (by decide +kernel)

/-- A lamp with a state, and a record whose type is an integer of 4301 digits. -/
def longTypeModel : Model where
  root := .ref 0
  graph :=
    { cells := #[
        .map [(.str "objects", .ref 1)],
        .map [(.str "/lamp", .ref 2), (.str "/on", .ref 3), (.str "/odd", .ref 4)],
        .map [(.str "type", .str "State Machine"), (.str "name", .str "Lamp")],
        .map [(.str "type", .str "State"), (.str "name", .str "On")],
        .map [(.str "type", .int (Nat.pow 10 4300))]] }

/-- The type of the odd record would be passed over, and cannot be: it is never written. -/
theorem Model.long_type_fault :
    longTypeModel.WellTyped ∧
      (∃ r, longTypeModel.Reads r ∧ r.nodeKind? longTypeModel.graph = some .stateMachine) ∧
      longTypeModel.compile.result = .error .numberTooLong := by
  have hnull : Value.null.IsTextOrNull := .inl rfl
  have htext : ∀ s, (Value.str s).IsTextOrNull := fun s => .inr ⟨s, rfl⟩
  -- the fields are as they should be; the type is that of the second record; the fault is computed
  refine ⟨.inl ⟨_, rfl, ?_⟩, ⟨⟨2, _⟩, .inl ⟨_, _, rfl, List.mem_cons_self⟩, by decide +kernel⟩, ?_⟩
  · simp only [List.forall_mem_cons, Data.isText_str, true_and]
    refine ⟨?_, ?_, ?_, fun _ h => absurd h List.not_mem_nil⟩ <;> rintro _ ⟨⟩
    · exact ⟨hnull, hnull, htext _, .inl rfl, .inl rfl⟩
    · exact ⟨hnull, hnull, htext _, .inl rfl, .inl rfl⟩
    · exact ⟨hnull, hnull, hnull, .inl rfl, .inl rfl⟩
  · exact eq_error_of_fault? (by decide +kernel)

end HomeAutomaton
