import HomeAutomaton.Proofs.Rendering
import Mathlib.Data.List.Forall2

/-!
# What a diagram shows

A machine is drawn node by node and transition by transition, and what cannot be drawn is left out: the node
that stands for the machine itself, and a transition that has an end which is no node. All others are in the
diagram, in their order and with nothing in between.

* `Diagram.Draws` says that the vertices and edges of a diagram are those of a machine.
* `Diagram.ofMachine_draws` says so of the diagram that is made of it, and `Machine.WellFormed.drawable`
  that there is one if paths are texts.
-/

namespace HomeAutomaton

/-- The nodes that are drawn: all but those that stand for the machine. -/
def Machine.drawnNodes (m : Machine) : List Node := m.nodes.filter fun n => n.kind ≠ .stateMachine

/-- The transitions that are drawn: those between nodes of the machine. -/
def Machine.drawnTransitions (m : Machine) : List Transition :=
  m.transitions.filter fun t => (m.find? t.src).isSome && (m.find? t.dst).isSome

/-- The vertex is that of the node. -/
structure Vertex.IsOf (identifiers : Table String) (n : Node) (v : Vertex) : Prop where
  id : vertexId n.path = .ok v.id
  label : v.label = nodeLabel identifiers n
  tooltip : v.tooltip = identifierOrPath identifiers n.path
  kind : v.kind = n.kind

/-- The edge is that of the transition. -/
structure Edge.IsOf (t : Transition) (e : Edge) : Prop where
  source : vertexId t.src = .ok e.source
  destination : vertexId t.dst = .ok e.destination
  label : t.label = .ok e.label
  dashed : e.dashed = true ↔ t.kind = .internal

/-- **What is drawn of a machine.** The diagram has the machine's name, the vertices of its drawn nodes and
the edges of its drawn transitions. -/
structure Diagram.Draws (m : Machine) (identifiers : Table String) (d : Diagram) : Prop where
  title : d.title = (m.root?.map (·.name)).getD "StateMachine"
  vertices : List.Forall₂ (Vertex.IsOf identifiers) m.drawnNodes d.vertices
  edges : List.Forall₂ Edge.IsOf m.drawnTransitions d.edges

/-! ### Lists with gaps -/

section Gaps

variable {α β : Type}

/-- Where every item of a list either is left out or gives what is related to it, all that is given is
related to the items that are not left out. -/
theorem forall₂_filterMap_of_mapM {f : α → Except Fault (Option β)} {kept : α → Bool} {R : α → β → Prop}
    (hnone : ∀ a, f a = .ok none → kept a = false)
    (hsome : ∀ a b, f a = .ok (some b) → kept a = true ∧ R a b) {as : List α} {bs : List (Option β)}
    (h : as.mapM f = .ok bs) : List.Forall₂ R (as.filter kept) (bs.filterMap id) := by
  -- along the list; an item is kept on both sides or on neither
  induction as generalizing bs with
  | nil =>
    obtain rfl := Except.ok.inj h
    exact .nil
  | cons a as ih =>
    rw [List.mapM_cons] at h
    obtain ⟨b?, hb, h⟩ := bind_eq_ok.mp h
    obtain ⟨rest, hrest, h⟩ := bind_eq_ok.mp h
    obtain rfl := Except.ok.inj h
    cases b? with
    | none =>
      rw [List.filter_cons_of_neg (by simp [hnone a hb]), List.filterMap_cons_none rfl]
      exact ih hrest
    | some b =>
      obtain ⟨hkept, hrelated⟩ := hsome a b hb
      rw [List.filter_cons_of_pos hkept]
      exact .cons hrelated (ih hrest)

end Gaps

/-! ### Vertices and edges -/

/-- Only the machine has no style. -/
theorem vertexStyle?_eq_none_iff {kind : NodeKind} : vertexStyle? kind = none ↔ kind = .stateMachine := by
  cases kind <;> simp [vertexStyle?]

/-- A node without a vertex stands for the machine. -/
theorem kind_of_vertexOf {identifiers : Table String} {n : Node} (h : vertexOf identifiers n = .ok none) :
    n.kind = .stateMachine := by
  rw [vertexOf] at h
  split at h
  next hstyle => exact vertexStyle?_eq_none_iff.mp hstyle
  next =>
    obtain ⟨id, -, h⟩ := bind_eq_ok.mp h
    cases Except.ok.inj h

/-- A vertex is that of its node, which is not the machine. -/
theorem isOf_of_vertexOf {identifiers : Table String} {n : Node} {v : Vertex}
    (h : vertexOf identifiers n = .ok (some v)) : n.kind ≠ .stateMachine ∧ v.IsOf identifiers n := by
  rw [vertexOf] at h
  split at h
  next => cases Except.ok.inj h
  next style hstyle =>
    obtain ⟨id, hid, h⟩ := bind_eq_ok.mp h
    obtain rfl := Option.some.inj (Except.ok.inj h)
    refine ⟨fun hkind => ?_, hid, rfl, rfl, rfl⟩
    rw [vertexStyle?_eq_none_iff.mpr hkind] at hstyle
    cases hstyle

/-- What there is of a transition that was looked at for an edge. -/
theorem edgeOf_cases {m : Machine} {t : Transition} {e? : Option Edge} (h : edgeOf m t = .ok e?) :
    (e? = none ∧ ((m.find? t.src).isSome && (m.find? t.dst).isSome) = false) ∨
      ∃ e, e? = some e ∧ ((m.find? t.src).isSome && (m.find? t.dst).isSome) = true ∧ e.IsOf t := by
  rw [edgeOf] at h
  obtain ⟨source?, hsource, h⟩ := bind_eq_ok.mp h
  obtain ⟨-, hsource⟩ := Machine.node?_eq_ok hsource
  cases source? with
  | none => exact .inl ⟨(Except.ok.inj h).symm, by rw [hsource]; rfl⟩
  | some source =>
    obtain ⟨target?, htarget, h⟩ := bind_eq_ok.mp h
    obtain ⟨-, htarget⟩ := Machine.node?_eq_ok htarget
    cases target? with
    | none => exact .inl ⟨(Except.ok.inj h).symm, by rw [hsource, htarget]; rfl⟩
    | some target =>
      -- both ends are nodes, and what is left is to name them
      obtain ⟨label, hlabel, h⟩ := bind_eq_ok.mp h
      obtain ⟨start, hstart, h⟩ := bind_eq_ok.mp h
      obtain ⟨stop, hstop, h⟩ := bind_eq_ok.mp h
      refine .inr ⟨_, (Except.ok.inj h).symm, by rw [hsource, htarget]; rfl, hstart, hstop, hlabel, ?_⟩
      simp

namespace Diagram

variable {m : Machine} {identifiers : Table String} {d : Diagram}

/-- **The diagram that is made of a machine draws it.** -/
theorem ofMachine_draws (h : ofMachine m identifiers = .ok d) : d.Draws m identifiers := by
  rw [ofMachine] at h
  obtain ⟨vertices, hvertices, h⟩ := bind_eq_ok.mp h
  obtain ⟨edges, hedges, h⟩ := bind_eq_ok.mp h
  obtain rfl := Except.ok.inj h
  refine ⟨rfl, ?_, ?_⟩
  · refine forall₂_filterMap_of_mapM (fun n hn => ?_) (fun n v hn => ?_) hvertices
    · simp [kind_of_vertexOf hn]
    · exact ⟨by simpa using (isOf_of_vertexOf hn).1, (isOf_of_vertexOf hn).2⟩
  -- the same for edges, where an end that is no node leaves the transition out
  · refine forall₂_filterMap_of_mapM (fun t ht => ?_) (fun t e ht => ?_) hedges
    · rcases edgeOf_cases ht with ⟨-, hends⟩ | ⟨e, he, -⟩
      · exact hends
      · cases he
    · rcases edgeOf_cases ht with ⟨he, -⟩ | ⟨e', he, hends, hedge⟩
      · cases he
      · obtain rfl := Option.some.inj he
        exact ⟨hends, hedge⟩

end Diagram

/-! ### Machines whose paths are texts -/

/-- Such a path can be made into a name. -/
theorem Data.IsTextOrNull.canName {d : Data} (h : d.IsTextOrNull) : d.CanName := by
  rcases h with rfl | htext
  · exact .inr rfl
  · exact .inl htext

/-- An event that is a text, or missing, can be read. -/
theorem Transition.event?_returns {t : Transition} (h : t.eventName.IsTextOrNull) :
    ∃ event?, t.event? = .ok event? := by
  rw [event?]
  cases t.attr? "Event" with
  | some event => exact ⟨_, rfl⟩
  | none =>
    rcases h with hnull | ⟨s, htext⟩
    · rw [hnull]
      exact ⟨_, rfl⟩
    · rw [htext]
      exact ⟨_, rfl⟩

/-- A machine whose paths and events are texts can be drawn. -/
theorem Machine.WellFormed.drawable {m : Machine} (h : m.WellFormed) : m.Drawable where
  vertices := fun n hn _ => .inl (h.paths n hn)
  sources := fun t ht => (h.sources t ht).isKey
  destinations := fun t ht _ => (h.destinations t ht).isKey
  edges := fun t ht _ _ => ⟨Transition.event?_returns (h.eventNames t ht), (h.sources t ht).canName,
    (h.destinations t ht).canName⟩

end HomeAutomaton
