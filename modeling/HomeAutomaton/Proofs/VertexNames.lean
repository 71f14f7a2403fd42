import HomeAutomaton.Data.Lists
import HomeAutomaton.Proofs.Drawing

/-!
# Which nodes share a vertex

The name of a vertex is made of the path of its node, and every character of the path that is not a letter
or a digit of ASCII is written as an underscore. So two paths have one name exactly if they are equally long
and differ in such characters alone. A diagram has a vertex of its own for every node that is drawn exactly
if no two of them have such paths; nothing tells them apart otherwise.

* `vertexName_eq_iff` says when two names are equal.
* `Diagram.vertices_apart_iff` is the result. `Diagram.vertices_merged` is a lamp with two states that are
  drawn as one.
-/

namespace HomeAutomaton

/-- Is the character a letter or a digit of ASCII? -/
def isNameChar (c : Char) : Bool :=
  ('a' ≤ c && c ≤ 'z') || ('A' ≤ c && c ≤ 'Z') || ('0' ≤ c && c ≤ '9')

/-- The two texts are equal, but for characters that are no letters and no digits of ASCII. -/
def SameName (s t : String) : Prop :=
  List.Forall₂ (fun a b => a = b ∨ isNameChar a = false ∧ isNameChar b = false) s.toList t.toList

/-- A character as it is written in the name of a vertex. -/
def nameChar (c : Char) : Char := if isNameChar c then c else '_'

/-- A name is a letter, and the path with its other characters replaced. -/
theorem vertexName_eq (path : String) :
    vertexName path = String.ofList ('n' :: path.toList.map nameChar) := by
  rw [vertexName]
  dsimp only
  refine congrArg (fun cs => String.ofList ('n' :: cs)) (List.map_congr_left fun c _ => ?_)
  -- an underscore is written as an underscore in either way
  by_cases hunderscore : c = '_'
  · subst hunderscore
    rfl
  · simp [nameChar, isNameChar, hunderscore]

/-- Two characters are written alike if they are one, or if both are replaced. -/
theorem nameChar_eq_iff {a b : Char} :
    nameChar a = nameChar b ↔ a = b ∨ isNameChar a = false ∧ isNameChar b = false := by
  have hunderscore : isNameChar '_' = false := by decide
  have hne : ∀ c, isNameChar c = true → c ≠ '_' := by
    rintro c hc rfl
    rw [hunderscore] at hc
    cases hc
  rw [nameChar, nameChar]
  -- where one of them is replaced, it is written as an underscore, which the other one is not
  cases ha : isNameChar a <;> cases hb : isNameChar b
  · simp
  · simp only [Bool.false_eq_true, if_false, if_true, and_false, or_false, reduceCtorEq]
    refine ⟨fun h => absurd h.symm (hne b hb), ?_⟩
    rintro rfl
    rw [ha] at hb
    cases hb
  · simp only [Bool.false_eq_true, if_false, if_true, false_and, or_false, reduceCtorEq]
    refine ⟨fun h => absurd h (hne a ha), ?_⟩
    rintro rfl
    rw [ha] at hb
    cases hb
  · simp

/-- **When two vertices have one name.** -/
theorem vertexName_eq_iff (s t : String) : vertexName s = vertexName t ↔ SameName s t := by
  rw [vertexName_eq, vertexName_eq, String.ofList_inj, List.cons_inj_right, ← List.forall₂_eq_eq_eq,
    List.forall₂_map_left_iff, List.forall₂_map_right_iff, SameName]
  simp only [nameChar_eq_iff]

namespace Diagram

variable {m : Machine} {identifiers : Table String} {d : Diagram}

/-- What is at an end of an edge: a node with the path, and if it is drawn, the name is that of its
vertex. -/
def EndsAt (d : Diagram) (m : Machine) (identifiers : Table String) (path : Data) (name : String) : Prop :=
  ∃ n ∈ m.nodes, n.path = path ∧
    (n ∈ m.drawnNodes → ∃ v ∈ d.vertices, v.IsOf identifiers n ∧ v.id = name)

/-- What is drawn has a vertex. -/
theorem exists_vertex (h : d.Draws m identifiers) {n : Node} (hn : n ∈ m.drawnNodes) :
    ∃ v ∈ d.vertices, v.IsOf identifiers n := by
  obtain ⟨v, hv, hvertex⟩ := exists_of_mem_right h.vertices.flip hn
  exact ⟨v, hv, hvertex⟩

/-- An end of an edge is at the node that its transition names. -/
theorem endsAt_of_find? (hm : m.WellFormed) (h : d.Draws m identifiers) {path : Data} {name : String}
    (hfound : (m.find? path).isSome = true) (hname : vertexId path = .ok name) :
    d.EndsAt m identifiers path name := by
  obtain ⟨n, hn⟩ := Option.isSome_iff_exists.mp hfound
  obtain ⟨hmem, hsame⟩ := Machine.find?_eq_some hn
  -- paths of nodes are texts, and a text is the same as itself alone
  obtain rfl := (Data.same_iff (hm.paths n hmem)).mp hsame
  refine ⟨n, hmem, rfl, fun hdrawn => ?_⟩
  obtain ⟨v, hv, hvertex⟩ := exists_vertex h hdrawn
  exact ⟨v, hv, hvertex, Except.ok.inj (hvertex.id.symm.trans hname)⟩

/-- The names of vertices differ where the paths of their nodes do not have the same name. -/
theorem nodup_ids_iff (hm : m.WellFormed) (h : d.Draws m identifiers) :
    (d.vertices.map (·.id)).Nodup ↔
      m.drawnNodes.Pairwise fun n later => ¬ SameName n.path.text later.path.text := by
  have hpaths : ∀ n ∈ m.drawnNodes, n.path.IsText := fun n hn => hm.paths n (List.mem_of_mem_filter hn)
  have hnames : (m.drawnNodes.map fun n => vertexName n.path.text) = d.vertices.map (·.id) := by
    rw [← List.forall₂_eq_eq_eq, List.forall₂_map_left_iff, List.forall₂_map_right_iff]
    refine ((List.forall₂_and_left _ _).mpr ⟨hpaths, h.vertices⟩).imp fun n v ⟨⟨s, hs⟩, hvertex⟩ => ?_
    have hid := hvertex.id
    rw [hs] at hid ⊢
    exact Except.ok.inj hid
  rw [← hnames, List.Nodup, List.pairwise_map]
  simp only [ne_eq, vertexName_eq_iff]

/-- **When every node has a vertex of its own.** A machine whose paths are texts has a diagram, with one
vertex for each drawn node in turn and one edge for each drawn transition. Each end of an edge that is at a
drawn node is at the vertex of that node. All vertices have different names exactly if no two drawn nodes
have paths that differ in nothing but characters which are no letters and no digits of ASCII. -/
theorem vertices_apart_iff (hm : m.WellFormed) (identifiers : Table String) :
    ∃ d, ofMachine m identifiers = .ok d ∧ d.Draws m identifiers ∧
      List.Forall₂ (fun t e => d.EndsAt m identifiers t.src e.source ∧
        d.EndsAt m identifiers t.dst e.destination) m.drawnTransitions d.edges ∧
      ((d.vertices.map (·.id)).Nodup ↔
        m.drawnNodes.Pairwise fun n later => ¬ SameName n.path.text later.path.text) := by
  have hreturns : ∃ d, ofMachine m identifiers = .ok d := ofMachine_returns_iff.mpr hm.drawable
  obtain ⟨d, hd⟩ := hreturns
  have hdraws := ofMachine_draws hd
  refine ⟨d, hd, hdraws, ?_, nodup_ids_iff hm hdraws⟩
  -- both ends of a drawn transition are nodes of the machine
  have hfound : ∀ t ∈ m.drawnTransitions,
      (m.find? t.src).isSome = true ∧ (m.find? t.dst).isSome = true := by
    intro t ht
    simpa using List.of_mem_filter ht
  refine ((List.forall₂_and_left _ _).mpr ⟨hfound, hdraws.edges⟩).imp fun t e ⟨⟨hsrc, hdst⟩, hedge⟩ => ?_
  exact ⟨endsAt_of_find? hm hdraws hsrc hedge.source, endsAt_of_find? hm hdraws hdst hedge.destination⟩

/-- A lamp that goes from one way of being on to another. -/
def lampMachine (other : String) (hroot : "/lamp" ≠ other) (hon : "/lamp/on" ≠ other) : Machine where
  nodes := [{ kind := .stateMachine, path := .str "/lamp" }, { kind := .state, path := .str "/lamp/on" },
    { kind := .state, path := .str other }]
  distinct := by simp [DistinctPaths, hroot, hon]
  transitions := [{ kind := .external, src := .str "/lamp/on", dst := .str other }]

/-- The lamp is well-formed whatever the other path is. -/
theorem lampMachine_wellFormed {other : String} {hroot : "/lamp" ≠ other} {hon : "/lamp/on" ≠ other} :
    (lampMachine other hroot hon).WellFormed where
  paths := by simp [lampMachine]
  sources := by simp [lampMachine, Data.IsTextOrNull]
  destinations := by simp [lampMachine, Data.IsTextOrNull]
  eventNames := by simp [lampMachine, Data.IsTextOrNull]

/-- With another word behind the last slash it has two vertices. -/
theorem vertices_apart_dim : (lampMachine "/lamp/dim" (by decide) (by decide)).WellFormed ∧
    ∃ d, ofMachine (lampMachine "/lamp/dim" (by decide) (by decide)) [] = .ok d ∧
      (d.vertices.map (·.id)).Nodup := by
  have hlamp : (lampMachine "/lamp/dim" (by decide) (by decide)).WellFormed := lampMachine_wellFormed
  obtain ⟨d, hd, -, -, hapart⟩ := vertices_apart_iff hlamp []
  refine ⟨hlamp, d, hd, hapart.mpr ?_⟩
  simp [Machine.drawnNodes, lampMachine, SameName, Data.text]

/-- Two nodes have different paths, `/lamp/on` and `/lamp_on`, and one vertex: the edge between them leads
from it to itself. -/
theorem vertices_merged :
    (lampMachine "/lamp_on" (by decide) (by decide)).drawnNodes.map (·.path) =
      [.str "/lamp/on", .str "/lamp_on"] ∧
    ∃ d, ofMachine (lampMachine "/lamp_on" (by decide) (by decide)) [] = .ok d ∧
      d.vertices.map (·.id) = ["n_lamp_on", "n_lamp_on"] ∧
        d.edges.map (fun e => (e.source, e.destination)) = [("n_lamp_on", "n_lamp_on")] := by
  refine ⟨rfl, _, rfl, ?_, ?_⟩ <;> decide +kernel

end Diagram

end HomeAutomaton
