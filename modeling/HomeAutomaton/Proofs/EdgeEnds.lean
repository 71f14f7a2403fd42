import HomeAutomaton.Data.Lists
import HomeAutomaton.Proofs.Drawing

/-!
# What edges of a diagram join

A program that draws graphs makes up a vertex for every name that an edge mentions and no vertex has. So it
matters whether the ends of edges are among the vertices. A transition is drawn if both its ends are nodes of
the machine, and a node if it does not stand for the machine itself; these are two conditions, and a
transition that leads to the machine, or away from it, meets the first and has an end that is not drawn.

It is the only case. Such an end has no vertex, unless that of a node whose name is the same happens to be
there; all other ends of edges have one.

* `Diagram.declares_iff` says which names are those of vertices.
* `Diagram.edges_declared_iff` is the result. `Diagram.edge_to_machine` is a gate with a transition that leads
  to the machine.
-/

namespace HomeAutomaton

/-- A node that is drawn has the name that the path gives. -/
def Machine.HasVertex (m : Machine) (path : Data) : Prop :=
  ∃ n ∈ m.drawnNodes, vertexId n.path = vertexId path

/-- The path is that of the machine itself, and no node that is drawn has the name that it gives. -/
def Machine.Undrawn (m : Machine) (path : Data) : Prop :=
  (∃ n, m.find? path = some n ∧ n.kind = .stateMachine) ∧ ¬ m.HasVertex path

/-- Paths that are found for one another give one name. -/
theorem vertexId_eq_of_same {path other : Data} (hsame : path.same other = true) (hpath : path.CanName)
    (hother : other.CanName) : vertexId path = vertexId other := by
  have hmissing : ∀ d : Data, ¬ d.IsText → d.isFilled = false → vertexId d = .ok (vertexName "") := by
    intro d htext hfilled
    unfold vertexId
    split
    next s => exact absurd (Data.isText_str s) htext
    next => rw [hfilled]; rfl
  by_cases htext : path.IsText
  · exact congrArg vertexId ((Data.same_iff htext).mp hsame)
  by_cases htext' : other.IsText
  · exact congrArg vertexId ((Data.same_iff' htext').mp hsame)
  -- neither is a text, so both count as missing
  · rw [hmissing path htext (hpath.resolve_left htext), hmissing other htext' (hother.resolve_left htext')]

namespace Diagram

variable {m : Machine} {identifiers : Table String} {d : Diagram}

/-- A vertex has the name. -/
def Declares (d : Diagram) (name : String) : Prop := ∃ v ∈ d.vertices, v.id = name

/-- The names of vertices are those of the nodes that are drawn. -/
theorem declares_iff (h : d.Draws m identifiers) {path : Data} {name : String}
    (hname : vertexId path = .ok name) : d.Declares name ↔ m.HasVertex path := by
  constructor
  · rintro ⟨v, hv, rfl⟩
    obtain ⟨n, hn, hvertex⟩ := exists_of_mem_right h.vertices hv
    exact ⟨n, hn, hvertex.id.trans hname.symm⟩
  · rintro ⟨n, hn, hsame⟩
    obtain ⟨v, hv, hvertex⟩ := exists_of_mem_right h.vertices.flip hn
    have hid : Except.ok v.id = Except.ok (ε := Fault) name := hvertex.id.symm.trans (hsame.trans hname)
    exact ⟨v, hv, Except.ok.inj hid⟩

/-- A node that is drawn has its vertex under the path by which it is found. -/
theorem hasVertex_of_find? (hm : m.Drawable) {path : Data} {n : Node} (hfound : m.find? path = some n)
    (hkind : n.kind ≠ .stateMachine) (hpath : path.CanName) : m.HasVertex path := by
  obtain ⟨hmem, hsame⟩ := Machine.find?_eq_some hfound
  have hdrawn : n ∈ m.drawnNodes := List.mem_filter.mpr ⟨hmem, by simpa using hkind⟩
  exact ⟨n, hdrawn, vertexId_eq_of_same hsame (hm.vertices n hmem hkind) hpath⟩

/-- **Which ends have no vertex.** -/
theorem not_declares_iff (hm : m.Drawable) (h : d.Draws m identifiers) {path : Data} {name : String}
    (hfound : (m.find? path).isSome = true) (hname : vertexId path = .ok name) :
    ¬ d.Declares name ↔ m.Undrawn path := by
  rw [declares_iff h hname, Machine.Undrawn]
  refine ⟨fun hnone => ⟨?_, hnone⟩, And.right⟩
  obtain ⟨n, hn⟩ := Option.isSome_iff_exists.mp hfound
  refine ⟨n, hn, ?_⟩
  by_contra hkind
  exact hnone (hasVertex_of_find? hm hn hkind (vertexId_returns_iff.mp ⟨name, hname⟩))

/-- The edges of a diagram are those of the transitions between nodes, and so are their ends without vertex. -/
theorem forall₂_drawnTransitions (hm : m.Drawable) (h : d.Draws m identifiers) :
    List.Forall₂ (fun t e => e.IsOf t ∧ (¬ d.Declares e.source ↔ m.Undrawn t.src) ∧
      (¬ d.Declares e.destination ↔ m.Undrawn t.dst)) m.drawnTransitions d.edges := by
  have hends : ∀ t ∈ m.drawnTransitions,
      (m.find? t.src).isSome = true ∧ (m.find? t.dst).isSome = true := by
    intro t ht
    simpa using List.of_mem_filter ht
  refine ((List.forall₂_and_left _ _).mpr ⟨hends, h.edges⟩).imp ?_
  rintro t e ⟨⟨hsrc, hdst⟩, hedge⟩
  exact ⟨hedge, not_declares_iff hm h hsrc hedge.source, not_declares_iff hm h hdst hedge.destination⟩

/-- All ends have vertices if none is that of the machine. -/
theorem forall_declares_iff (hm : m.Drawable) (h : d.Draws m identifiers) :
    (∀ e ∈ d.edges, d.Declares e.source ∧ d.Declares e.destination) ↔
      ∀ t ∈ m.drawnTransitions, ¬ m.Undrawn t.src ∧ ¬ m.Undrawn t.dst := by
  have hedges := forall₂_drawnTransitions hm h
  -- edges and transitions go together one by one
  constructor
  · intro hdeclared t ht
    obtain ⟨e, he, -, hsrc, hdst⟩ := exists_of_mem_right hedges.flip ht
    obtain ⟨hsource, hdestination⟩ := hdeclared e he
    exact ⟨fun hundrawn => hsrc.mpr hundrawn hsource, fun hundrawn => hdst.mpr hundrawn hdestination⟩
  · intro hdrawn e he
    obtain ⟨t, ht, -, hsrc, hdst⟩ := exists_of_mem_right hedges he
    obtain ⟨hsource, hdestination⟩ := hdrawn t ht
    exact ⟨not_not.mp (mt hsrc.mp hsource), not_not.mp (mt hdst.mp hdestination)⟩

/-- **Edges join vertices, except at the machine itself.** The diagram of a machine has one edge for each
transition between nodes, in their order, and none for any other. An end of an edge is declared unless the
path there is that of the machine, under a name that no drawn node has. So all edges join declared vertices
exactly if no transition between nodes has such an end. In particular they do if no transition leads to the
machine or away from it. -/
theorem edges_declared_iff (hm : m.Drawable) (identifiers : Table String) :
    ∃ d, ofMachine m identifiers = .ok d ∧
      List.Forall₂ (fun t e => e.IsOf t ∧ (¬ d.Declares e.source ↔ m.Undrawn t.src) ∧
        (¬ d.Declares e.destination ↔ m.Undrawn t.dst)) m.drawnTransitions d.edges ∧
      ((∀ e ∈ d.edges, d.Declares e.source ∧ d.Declares e.destination) ↔
        ∀ t ∈ m.drawnTransitions, ¬ m.Undrawn t.src ∧ ¬ m.Undrawn t.dst) ∧
      ((∀ t ∈ m.drawnTransitions, ∀ n, m.find? t.src = some n ∨ m.find? t.dst = some n →
          n.kind ≠ .stateMachine) →
        ∀ e ∈ d.edges, d.Declares e.source ∧ d.Declares e.destination) := by
  obtain ⟨d, hd⟩ : ∃ d, ofMachine m identifiers = .ok d := ofMachine_returns_iff.mpr hm
  have hdraws : d.Draws m identifiers := ofMachine_draws hd
  have hall := forall_declares_iff hm hdraws
  refine ⟨d, hd, forall₂_drawnTransitions hm hdraws, hall, fun hapart => hall.mpr fun t ht => ⟨?_, ?_⟩⟩
  -- an end without a vertex is at the machine itself
  · rintro ⟨⟨n, hn, hkind⟩, -⟩
    exact hapart t ht n (.inl hn) hkind
  · rintro ⟨⟨n, hn, hkind⟩, -⟩
    exact hapart t ht n (.inr hn) hkind

/-- A gate that goes from being open to what is at the given paths. -/
def gateMachine (targets : List String) : Machine where
  nodes := [{ kind := .stateMachine, path := .str "/gate" }, { kind := .state, path := .str "/gate/open" },
    { kind := .state, path := .str "/gate/shut" }]
  distinct := by simp [DistinctPaths]
  transitions := targets.map fun target =>
    { kind := .external, src := .str "/gate/open", dst := .str target }

theorem gateMachine_wellFormed (targets : List String) : (gateMachine targets).WellFormed where
  paths := by simp [gateMachine]
  sources := by simp [gateMachine, Data.IsTextOrNull]
  destinations := by simp [gateMachine, Data.IsTextOrNull]
  eventNames := by simp [gateMachine, Data.IsTextOrNull]

/-- The gate can be shut. Nothing is drawn of the way to a place that is no node. -/
theorem edges_declared_shut : (gateMachine ["/gate/lost", "/gate/shut"]).Drawable ∧
    ∃ d, ofMachine (gateMachine ["/gate/lost", "/gate/shut"]) [] = .ok d ∧ d.edges.length = 1 ∧
      ∀ e ∈ d.edges, d.Declares e.source ∧ d.Declares e.destination := by
  have hgate : (gateMachine ["/gate/lost", "/gate/shut"]).Drawable := (gateMachine_wellFormed _).drawable
  obtain ⟨d, hd, hedges, -, hdeclared⟩ := edges_declared_iff hgate []
  refine ⟨hgate, d, hd, ?_, hdeclared ?_⟩
  · rw [← hedges.length_eq]
    decide
  · simp only [Machine.drawnTransitions, Machine.find?, gateMachine]
    -- the way to the place that is no node falls out, and the other one joins two states
    suffices h : ∀ n : Node, { kind := .state, path := .str "/gate/open" } = n ∨
        { kind := .state, path := .str "/gate/shut" } = n → n.kind ≠ .stateMachine by simpa using h
    rintro n (rfl | rfl) <;> decide

/-- The edge of a transition that leads to the machine itself ends at a name that no vertex has. -/
theorem edge_to_machine :
    ∃ d, ofMachine (gateMachine ["/gate"]) [] = .ok d ∧
      d.vertices.map (·.id) = ["n_gate_open", "n_gate_shut"] ∧
        d.edges.map (fun e => (e.source, e.destination)) = [("n_gate_open", "n_gate")] := by
  refine ⟨_, rfl, ?_, ?_⟩ <;> decide +kernel

end Diagram

end HomeAutomaton
