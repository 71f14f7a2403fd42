import HomeAutomaton.Model.Traversal
import HomeAutomaton.Proofs.Collecting

/-!
# The walk of a tree is the recursion

The walk keeps its own list of children to visit, in which a record can stand several times, and passes
over a record that was visited when its turn comes. Running it is visiting the records of that list by
recursion, one after the other (`Machine.walk_pending`); so the machine of a tree is that of the
recursion.
-/

namespace HomeAutomaton

/-! ### Nodes and transitions one by one -/

namespace Machine

variable {m m' : Machine} {added : Bool}

/-- A node is new, or there is one with its path. -/
theorem nodes_of_addNode {n : Node} (h : m.addNode n = .ok (added, m')) :
    (added = false ∧ m' = m ∧ ∃ other ∈ m.nodes, other.path.same n.path = true) ∨
      (added = true ∧ m'.nodes = m.nodes ++ [n]) := by
  unfold addNode at h
  split at h
  next => cases h
  next =>
    split at h
    next hsame =>
      obtain ⟨rfl, rfl⟩ := Prod.mk.inj (Except.ok.inj h)
      exact .inl ⟨rfl, rfl, List.any_eq_true.mp hsame⟩
    next =>
      obtain ⟨rfl, rfl⟩ := Prod.mk.inj (Except.ok.inj h)
      exact .inr ⟨rfl, rfl⟩

/-- A transition changes no nodes. -/
theorem nodes_of_addTransition {t : Transition} {key : TransitionKey}
    (h : m.addTransition t key = .ok (added, m')) : m'.nodes = m.nodes := by
  unfold addTransition at h
  split at h
  next => cases h
  next =>
    split at h <;> obtain ⟨-, rfl⟩ := Prod.mk.inj (Except.ok.inj h) <;> rfl

end Machine

/-! ### Records of the graph -/

namespace Record

variable {g : Graph} {r : Record}

/-- The record is an object of the graph. -/
def IsIn (g : Graph) (r : Record) : Prop := g.record? (.ref r.label) = some r

/-- What is referred to is an object of the graph. -/
theorem isIn_of_record? {v : Value} (h : g.record? v = some r) : r.IsIn g := by
  obtain ⟨rfl, -⟩ := Graph.record?_eq_some h
  exact h

/-- Its number is one of the numbers of the graph. -/
theorem IsIn.label_lt (h : r.IsIn g) : r.label < g.cells.size := by
  obtain ⟨-, hcell⟩ := Graph.record?_eq_some h
  exact (Array.getElem?_eq_some_iff.mp hcell).1

/-- An object of the graph is known by its label. -/
theorem IsIn.eq_of_label {r' : Record} (h : r.IsIn g) (h' : r'.IsIn g) (hlabel : r.label = r'.label) :
    r = r' := by
  rw [IsIn, hlabel] at h
  exact Option.some.inj (h.symm.trans h')

/-- The children that are found are objects of the graph. -/
theorem isIn_of_mem_childrenIn {entries : Table Value} {cs : List Record}
    (h : childrenIn g entries = .ok cs) : ∀ c ∈ cs, c.IsIn g := by
  -- along the entries, in the order in which the lists of children are gone through
  induction entries generalizing cs with
  | nil =>
    obtain rfl := Except.ok.inj h
    exact fun c hc => absurd hc List.not_mem_nil
  | cons e rest ih =>
    obtain ⟨key, v⟩ := e
    rw [childrenIn] at h
    split at h
    next items _ =>
      split at h
      next name =>
        obtain ⟨later, hlater, h⟩ := bind_eq_ok.mp h
        obtain rfl := Except.ok.inj h
        intro c hc
        split at hc
        next =>
          rcases List.mem_append.mp hc with hc | hc
          · obtain ⟨v, -, hv⟩ := List.mem_filterMap.mp hc
            exact isIn_of_record? hv
          · exact ih hlater c hc
        next => exact ih hlater c hc
      next => cases h
    next => exact ih h

/-- Transitions are added to a machine and nothing else, and the records that they lead to are objects
of the graph. -/
structure AddsTransitions (g : Graph) (m m' : Machine) (referenced : List Record) : Prop where
  nodes : m'.nodes = m.nodes
  referenced : ∀ d ∈ referenced, d.IsIn g

namespace AddsTransitions

variable {m m₁ m' : Machine} {here later : List Record}

theorem refl (m : Machine) : AddsTransitions g m m [] :=
  ⟨rfl, fun _ hd => absurd hd List.not_mem_nil⟩

theorem trans (h : AddsTransitions g m m₁ here) (h' : AddsTransitions g m₁ m' later) :
    AddsTransitions g m m' (here ++ later) :=
  ⟨h'.nodes.trans h.nodes, List.forall_mem_append.mpr ⟨h.referenced, h'.referenced⟩⟩

end AddsTransitions

variable {n : Node} {m m' : Machine} {referenced : List Record}

theorem nodes_of_addPointerTransition {kind : TransitionKind} {otherwise : Data}
    (h : r.addPointerTransition g kind otherwise m = .ok m') : m'.nodes = m.nodes := by
  obtain ⟨pointers, -, h⟩ := bind_eq_ok.mp h
  obtain ⟨attributes, -, h⟩ := bind_eq_ok.mp h
  obtain ⟨⟨added, m₁⟩, hadd, h⟩ := bind_eq_ok.mp h
  obtain rfl := Except.ok.inj h
  exact Machine.nodes_of_addTransition hadd

/-- A transition that a record holds adds no more than one. -/
theorem addHeldTransition_adds {held : HeldTransition}
    (h : addHeldTransition g n held m = .ok m') :
    AddsTransitions g m m' (g.record? (held.record.field "dst")).toList := by
  obtain ⟨attributes, -, h⟩ := bind_eq_ok.mp h
  obtain ⟨⟨added, m₁⟩, hadd, h⟩ := bind_eq_ok.mp h
  obtain rfl := Except.ok.inj h
  exact ⟨Machine.nodes_of_addTransition hadd, fun d hd => isIn_of_record? (Option.mem_toList.mp hd)⟩

theorem addHeldTransitions_adds {helds : List HeldTransition}
    (h : addHeldTransitions g n m helds = .ok (m', referenced)) :
    AddsTransitions g m m' referenced := by
  induction helds generalizing m referenced with
  | nil =>
    obtain ⟨rfl, rfl⟩ := Prod.mk.inj (Except.ok.inj h)
    exact .refl m
  | cons held rest ih =>
    obtain ⟨m₁, hheld, h⟩ := bind_eq_ok.mp h
    obtain ⟨⟨m₂, later⟩, hlater, h⟩ := bind_eq_ok.mp h
    obtain ⟨rfl, rfl⟩ := Prod.mk.inj (Except.ok.inj h)
    exact (addHeldTransition_adds hheld).trans (ih hlater)

theorem addGroups_adds {kind : TransitionKind} {groups : List Record}
    (h : addGroups g n kind m groups = .ok (m', referenced)) : AddsTransitions g m m' referenced := by
  induction groups generalizing m referenced with
  | nil =>
    obtain ⟨rfl, rfl⟩ := Prod.mk.inj (Except.ok.inj h)
    exact .refl m
  | cons group rest ih =>
    obtain ⟨helds, -, h⟩ := bind_eq_ok.mp h
    obtain ⟨⟨m₁, here⟩, hhere, h⟩ := bind_eq_ok.mp h
    obtain ⟨⟨m₂, later⟩, hlater, h⟩ := bind_eq_ok.mp h
    obtain ⟨rfl, rfl⟩ := Prod.mk.inj (Except.ok.inj h)
    exact (addHeldTransitions_adds hhere).trans (ih hlater)

/-- The transitions of a record, one sort after the other. -/
theorem addTransitions_eq (r : Record) (g : Graph) (n : Node) (m : Machine) :
    r.addTransitions g n m = (do
      let external ← g.recordsIn (r.field "ExternalEvents")
      let (m, leaving) ← addGroups g n .external m external
      let internal ← g.recordsIn (r.field "InternalEvents")
      let (m, staying) ← addGroups g n .internal m internal
      let records ← g.recordsIn (r.field "ExternalTransitions")
      let (m, single) ← addHeldTransitions g n m (records.map fun r => ⟨r, .external, .null⟩)
      .ok (m, leaving ++ staying ++ single)) := by
  simp [addTransitions, eventGroups]

/-- Reading what a record holds adds transitions alone. -/
theorem addTransitions_adds (h : r.addTransitions g n m = .ok (m', referenced)) :
    AddsTransitions g m m' referenced := by
  rw [addTransitions_eq] at h
  obtain ⟨external, -, h⟩ := bind_eq_ok.mp h
  obtain ⟨⟨m₁, leaving⟩, hleaving, h⟩ := bind_eq_ok.mp h
  obtain ⟨internal, -, h⟩ := bind_eq_ok.mp h
  obtain ⟨⟨m₂, staying⟩, hstaying, h⟩ := bind_eq_ok.mp h
  obtain ⟨records, -, h⟩ := bind_eq_ok.mp h
  obtain ⟨⟨m₃, single⟩, hsingle, h⟩ := bind_eq_ok.mp h
  obtain ⟨rfl, rfl⟩ := Prod.mk.inj (Except.ok.inj h)
  exact ((addGroups_adds hleaving).trans (addGroups_adds hstaying)).trans
    (addHeldTransitions_adds hsingle)

/-- The record stands for a node. -/
def StandsFor (g : Graph) (r : Record) (n : Node) : Prop :=
  r.pointerKind? g = none ∧ (r.node? g .null).result = .ok (some n)

/-- The record stands in a list of children of the first one, which has no pointers. -/
def HasChild (g : Graph) (r c : Record) : Prop :=
  r.pointerKind? g = none ∧ ∃ cs, r.children g = .ok cs ∧ c ∈ cs

/-- What reading a record does: a node of the record is among the nodes afterwards, and it is the only
one that may be new; the children of the record are found; and whatever is found is an object of the
graph. -/
structure Entered (g : Graph) (r : Record) (m : Machine) (found : Found) : Prop where
  nodes : found.machine.nodes = m.nodes ∨
    ∃ n, r.StandsFor g n ∧ found.machine.nodes = m.nodes ++ [n]
  node : ∀ n, r.StandsFor g n → ∃ other ∈ found.machine.nodes, other.path.same n.path = true
  children : ∀ c, c ∈ found.children ↔ r.HasChild g c
  childrenIn : ∀ c ∈ found.children, c.IsIn g
  referencedIn : ∀ d ∈ found.referenced, d.IsIn g

/-- What adding the node of a record with its transitions does. -/
theorem addWithTransitions_adds (hkind : r.pointerKind? g = none)
    (h : (r.addWithTransitions g m).result = .ok (m', referenced)) :
    (m'.nodes = m.nodes ∨ ∃ n, r.StandsFor g n ∧ m'.nodes = m.nodes ++ [n]) ∧
      (∀ n, r.StandsFor g n → ∃ other ∈ m'.nodes, other.path.same n.path = true) ∧
      ∀ d ∈ referenced, d.IsIn g := by
  obtain ⟨n?, hn, h⟩ := Logged.bind_eq_ok.mp h
  -- the node of a record is the one that was read
  have hunique : ∀ n, r.StandsFor g n → n? = some n := fun n hstands =>
    Except.ok.inj (hn.symm.trans hstands.2)
  cases n? with
  | none =>
    obtain ⟨rfl, rfl⟩ := Prod.mk.inj (Except.ok.inj h)
    exact ⟨.inl rfl, fun n hstands => absurd (hunique n hstands).symm (Option.some_ne_none n),
      fun d hd => absurd hd List.not_mem_nil⟩
  | some n =>
    obtain ⟨⟨added, m₁⟩, hadd, hrest⟩ := Logged.bind_eq_ok.mp h
    rcases Machine.nodes_of_addNode hadd with ⟨rfl, rfl, hsame⟩ | ⟨rfl, hnodes⟩
    · obtain ⟨rfl, rfl⟩ := Prod.mk.inj (Except.ok.inj hrest)
      refine ⟨.inl rfl, fun n' hstands => ?_, fun d hd => absurd hd List.not_mem_nil⟩
      rwa [← Option.some.inj (hunique n' hstands)]
    · have hadds := addTransitions_adds hrest
      rw [← hadds.nodes] at hnodes
      refine ⟨.inr ⟨n, ⟨hkind, hn⟩, hnodes⟩, fun n' hstands => ⟨n, ?_, ?_⟩, hadds.referenced⟩
      · rw [hnodes]
        exact List.mem_append_right _ List.mem_cons_self
      · rw [← Option.some.inj (hunique n' hstands)]
        exact Data.same_self _

/-- **What reading a record does**, whether it has pointers or stands for a node. -/
theorem entered_of_enter {found : Found} (h : (r.enter g m).result = .ok found) :
    Entered g r m found := by
  rw [enter] at h
  split at h
  -- a transition with pointers has neither a node nor children
  next kind hkind =>
    obtain ⟨m₁, hadd, h⟩ := Logged.bind_eq_ok.mp h
    obtain rfl := Except.ok.inj h
    exact
      { nodes := .inl (nodes_of_addPointerTransition hadd)
        node := fun n hstands => nomatch hkind.symm.trans hstands.1
        children := fun c => ⟨fun hc => absurd hc List.not_mem_nil,
          fun hchild => nomatch hkind.symm.trans hchild.1⟩
        childrenIn := fun c hc => absurd hc List.not_mem_nil
        referencedIn := fun d hd => absurd hd List.not_mem_nil }
  next hkind =>
    obtain ⟨⟨m₁, referenced⟩, hadd, h⟩ := Logged.bind_eq_ok.mp h
    obtain ⟨children, hchildren, h⟩ := Logged.bind_eq_ok.mp h
    obtain rfl := Except.ok.inj h
    obtain ⟨hnodes, hnode, hreferenced⟩ := addWithTransitions_adds hkind hadd
    exact
      { nodes := hnodes
        node := hnode
        children := fun c => ⟨fun hc => ⟨hkind, children, hchildren, hc⟩, fun ⟨_, cs, hcs, hc⟩ =>
          Except.ok.inj (hcs.symm.trans hchildren) ▸ hc⟩
        childrenIn := isIn_of_mem_childrenIn hchildren
        referencedIn := hreferenced }

end Record

/-! ### The walk -/

namespace Machine

variable {g : Graph} {w w' : Walk} {r : Record}

/-- The walk that has come as far as a tour, with these records to visit first. -/
def Walk.ofTour (s : Tour) (pending : List Record) : Walk :=
  { machine := s.machine, seen := s.seen, pending, referenced := s.queue }

/-- All records that are still to be visited are objects of the graph. -/
def Walk.IsIn (g : Graph) (w : Walk) : Prop :=
  (∀ r ∈ w.pending, r.IsIn g) ∧ ∀ r ∈ w.referenced, r.IsIn g

/-- The walk after a record is read. -/
def Walk.enter (w : Walk) (found : Record.Found) : Walk :=
  { w with
    machine := found.machine
    pending := found.children ++ w.pending
    referenced := w.referenced ++ found.referenced }

/-- Visiting a record is reading it, with what is found put among what is still to be visited. -/
theorem visit_eq (g : Graph) (r : Record) (w : Walk) :
    visit g r w = (do
      let found ← r.enter g w.machine
      pure (w.enter found)) := by
  rw [visit, Record.enter]
  -- both read the record in the same way, and put what is found in the same places
  cases hkind : r.pointerKind? g with
  | some kind => simp [Walk.enter]
  | none =>
    simp only [Record.addWithTransitions, Logged.bind_assoc]
    refine Logged.bind_congr_ok fun n? _ => ?_
    cases n? with
    | none => simp [Walk.enter]
    | some n =>
      simp only [Logged.bind_assoc]
      refine Logged.bind_congr_ok fun added hadd => ?_
      obtain ⟨added, m⟩ := added
      rcases nodes_of_addNode hadd with ⟨rfl, rfl, -⟩ | ⟨rfl, -⟩ <;> simp [Walk.enter]

/-- The next record was not visited before. It and what is left then was still to be visited. -/
theorem Walk.next?_eq_some (h : w.next? = some (r, w')) :
    r.label ∉ w.seen ∧ w'.seen = r.label :: w.seen ∧ (w.IsIn g → r.IsIn g ∧ w'.IsIn g) := by
  have hfirst : ∀ {rs : List Record} {first : Record} {rest : List Record},
      rs.dropWhile (fun r => w.seen.contains r.label) = first :: rest →
      first.label ∉ w.seen ∧ ((∀ r ∈ rs, r.IsIn g) → first.IsIn g ∧ ∀ r ∈ rest, r.IsIn g) := by
    intro rs first rest heq
    have hnot := List.head?_dropWhile_not (fun r : Record => w.seen.contains r.label) rs
    rw [heq] at hnot
    refine ⟨by simpa using hnot, fun hall => List.forall_mem_cons.mp fun r hr => ?_⟩
    exact hall r (List.dropWhile_subset _ (heq ▸ hr))
  unfold Walk.next? at h
  dsimp only at h
  -- children first, and then what transitions lead to
  split at h
  next first rest heq =>
    obtain ⟨rfl, rfl⟩ := Prod.mk.inj (Option.some.inj h)
    obtain ⟨hnew, hin⟩ := hfirst heq
    exact ⟨hnew, rfl, fun hw => ⟨(hin hw.1).1, (hin hw.1).2, hw.2⟩⟩
  next =>
    split at h
    next first rest heq =>
      obtain ⟨rfl, rfl⟩ := Prod.mk.inj (Option.some.inj h)
      obtain ⟨hnew, hin⟩ := hfirst heq
      exact ⟨hnew, rfl, fun hw => ⟨(hin hw.2).1, fun r hr => absurd hr List.not_mem_nil,
        (hin hw.2).2⟩⟩
    next => cases h

/-- After a visit, all records that are still to be visited are again objects of the graph. -/
theorem Walk.IsIn.enter (h : w.IsIn g) {m : Machine} {found : Record.Found}
    (hfound : (r.enter g m).result = .ok found) : (w.enter found).IsIn g := by
  have hentered := Record.entered_of_enter hfound
  exact ⟨List.forall_mem_append.mpr ⟨hentered.childrenIn, h.1⟩,
    List.forall_mem_append.mpr ⟨h.2, hentered.referencedIn⟩⟩

/-- What a visit with a result goes through: a record that was not visited is read. -/
theorem visit_eq_ok {w₁ : Walk} (h : w.IsIn g) (hnext : w.next? = some (r, w'))
    (hvisit : (visit g r w').result = .ok w₁) :
    r.label ∉ w.seen ∧ w₁.IsIn g ∧ w₁.seen = r.label :: w.seen ∧
      (Tour.unseen g w₁.seen).length < (Tour.unseen g w.seen).length := by
  obtain ⟨hnew, hseen, hin⟩ := Walk.next?_eq_some hnext
  obtain ⟨hr, hw'⟩ := hin h
  rw [visit_eq] at hvisit
  obtain ⟨found, hfound, hw₁⟩ := Logged.bind_eq_ok.mp hvisit
  obtain rfl := Except.ok.inj hw₁
  have hsame : (w'.enter found).seen = r.label :: w.seen := hseen
  refine ⟨hnew, hw'.enter hfound, hsame, ?_⟩
  rw [hsame]
  exact Tour.unseen_length_lt hr.label_lt hnew

/-- When all objects of the graph were visited, nothing is left to visit. -/
theorem Walk.next?_eq_none (h : w.IsIn g) (hall : (Tour.unseen g w.seen).length = 0) :
    w.next? = none := by
  cases hnext : w.next? with
  | none => rfl
  | some next =>
    obtain ⟨r, w'⟩ := next
    obtain ⟨hnew, -, hin⟩ := Walk.next?_eq_some hnext
    have hlt := Tour.unseen_length_lt (hin h).1.label_lt hnew
    omega

/-- **The bound on the number of steps is never reached.** As many steps as there are objects left to
visit are enough, and more change nothing. -/
theorem walk_congr (h : w.IsIn g) {j k : Nat} (hj : (Tour.unseen g w.seen).length ≤ j)
    (hk : (Tour.unseen g w.seen).length ≤ k) : walk g j w = walk g k w := by
  induction j generalizing k w with
  | zero =>
    have hnext := Walk.next?_eq_none h (Nat.le_zero.mp hj)
    cases k with
    | zero => rfl
    | succ k => rw [walk, walk, hnext]
  | succ j ih =>
    cases k with
    | zero => rw [walk, walk, Walk.next?_eq_none h (Nat.le_zero.mp hk)]
    | succ k =>
      rw [walk, walk]
      cases hnext : w.next? with
      | none => rfl
      | some next =>
        obtain ⟨r, w'⟩ := next
        -- what is left to visit has become less, so the steps that are left are enough on both sides
        refine Logged.bind_congr_ok fun w₁ hvisit => ?_
        obtain ⟨-, hin, -, hlt⟩ := visit_eq_ok h hnext hvisit
        exact ih hin (by omega) (by omega)

/-- The machine after the walk, however many steps it takes. -/
def finish (g : Graph) (w : Walk) : Logged Machine := walk g (Tour.unseen g w.seen).length w

/-- With enough steps the walk is finished. -/
theorem walk_eq_finish (h : w.IsIn g) {k : Nat} (hk : (Tour.unseen g w.seen).length ≤ k) :
    walk g k w = finish g w := walk_congr h hk (Nat.le_refl _)

/-- With nothing left to visit the machine is there. -/
theorem finish_of_none (h : w.next? = none) : finish g w = pure w.machine := by
  rw [finish]
  cases (Tour.unseen g w.seen).length with
  | zero => rw [walk]
  | succ k => rw [walk, h]

/-- The next record is read, and the walk goes on with what was found. -/
theorem finish_of_some (h : w.IsIn g) (hnext : w.next? = some (r, w')) :
    finish g w = (do
      let found ← r.enter g w'.machine
      finish g (w'.enter found)) := by
  rw [finish, walk_congr h (Nat.le_refl _) (Nat.le_succ _), walk, hnext]
  simp only [visit_eq, Logged.bind_assoc, Logged.bind_done]
  refine Logged.bind_congr_ok fun found hfound => ?_
  have hvisit : (visit g r w').result = .ok (w'.enter found) := by
    rw [visit_eq]
    exact Logged.bind_eq_ok.mpr ⟨found, hfound, rfl⟩
  obtain ⟨-, hin, -, hlt⟩ := visit_eq_ok h hnext hvisit
  exact walk_eq_finish hin (Nat.le_of_lt hlt)

/-- Walks with the same machine and the same next step finish alike. -/
theorem finish_congr {w₁ w₂ : Walk} (h₁ : w₁.IsIn g) (h₂ : w₂.IsIn g)
    (hmachine : w₁.machine = w₂.machine) (hnext : w₁.next? = w₂.next?) :
    finish g w₁ = finish g w₂ := by
  cases hn : w₂.next? with
  | none => rw [finish_of_none (hnext.trans hn), finish_of_none hn, hmachine]
  | some next => rw [finish_of_some h₁ (hnext.trans hn), finish_of_some h₂ hn]

/-- Passing over a record that was visited changes nothing. -/
theorem Walk.next?_cons_of_seen {s : Tour} {rest : List Record} (h : r.label ∈ s.seen) :
    (ofTour s (r :: rest)).next? = (ofTour s rest).next? := by
  simp [Walk.next?, ofTour, h]

/-- A record that was not visited is next. -/
theorem Walk.next?_cons_of_not_seen {s : Tour} {rest : List Record} (h : r.label ∉ s.seen) :
    (ofTour s (r :: rest)).next? = some (r, { ofTour s rest with seen := r.label :: s.seen }) := by
  simp [Walk.next?, ofTour, h]

/-- When there are no children left, the oldest record that waits is next. -/
theorem Walk.next?_nil_of_cons {s : Tour} {queue : List Record} (h : s.queue = r :: queue) :
    (ofTour s []).next? = (ofTour { s with queue } [r]).next? := by
  by_cases hseen : r.label ∈ s.seen <;> simp [Walk.next?, ofTour, h, hseen]

end Machine

/-! ### The walk and the recursion -/

namespace Tour

variable {g : Graph} {s s' : Tour} {rs : List Record}

/-- A visit goes on from where the tour is. -/
theorem progress_of_visit (h : (s.visit g rs).result = .ok s') : s.Progress g s' := by
  obtain ⟨p, -, hs'⟩ := Logged.bind_eq_ok.mp h
  obtain rfl := Except.ok.inj hs'
  exact p.2

/-- The records that wait are objects of the graph, before a visit and after it. -/
theorem Visits.isIn_of_mem_queue (h : Visits g s rs s') (hqueue : ∀ d ∈ s.queue, d.IsIn g) :
    ∀ d ∈ s'.queue, d.IsIn g := by
  induction h with
  | nil => exact hqueue
  | pass _ _ ih => exact ih hqueue
  | enter _ hfound _ _ ihc ihr =>
    have hentered := Record.entered_of_enter hfound
    exact ihr (ihc (List.forall_mem_append.mpr ⟨hqueue, hentered.referencedIn⟩))

end Tour

namespace Machine

variable {g : Graph} {s : Tour} {rs rest : List Record}

/-- **The list of what is to be visited is worked off like the recursion.** -/
theorem finish_append (hrs : ∀ r ∈ rs, r.IsIn g) (hrest : ∀ r ∈ rest, r.IsIn g)
    (hqueue : ∀ r ∈ s.queue, r.IsIn g) :
    finish g (.ofTour s (rs ++ rest)) = (do
      let s' ← s.visit g rs
      finish g (.ofTour s' rest)) := by
  -- along the recursion: nothing to visit, a record that is read now, or one that was visited
  induction s, rs using Tour.visitWith.induct g generalizing rest with
  | case1 s => rw [Tour.visit_nil, Logged.bind_done, List.nil_append]
  | case2 s r below hfresh ihc ihr =>
    obtain ⟨hr, hbelow⟩ := List.forall_mem_cons.mp hrs
    have hlater : ∀ r ∈ below ++ rest, r.IsIn g := List.forall_mem_append.mpr ⟨hbelow, hrest⟩
    rw [Tour.visit_cons_of_fresh hfresh, List.cons_append,
      finish_of_some ⟨List.forall_mem_cons.mpr ⟨hr, hlater⟩, hqueue⟩
        (Walk.next?_cons_of_not_seen hfresh.2)]
    simp only [Logged.bind_assoc]
    refine Logged.bind_congr_ok fun found hfound => ?_
    -- the children of the record come first, then the records beside it
    have hentered := Record.entered_of_enter hfound
    have hqueue' : ∀ d ∈ (s.enter r found).queue, d.IsIn g :=
      List.forall_mem_append.mpr ⟨hqueue, hentered.referencedIn⟩
    refine (ihc found hentered.childrenIn hlater hqueue').trans ?_
    refine Logged.bind_congr_ok fun s₁ hs₁ => ?_
    exact ihr found s₁ (Tour.progress_of_visit hs₁) hbelow hrest
      ((Tour.visits_of_visit hs₁).isIn_of_mem_queue hqueue')
  | case3 s r below hfresh ih =>
    obtain ⟨hr, hbelow⟩ := List.forall_mem_cons.mp hrs
    have hlater : ∀ r ∈ below ++ rest, r.IsIn g := List.forall_mem_append.mpr ⟨hbelow, hrest⟩
    have hseen : r.label ∈ s.seen := by
      by_contra hnew
      exact hfresh ⟨hr.label_lt, hnew⟩
    rw [Tour.visit_cons_of_not_fresh hfresh, ← ih hbelow hrest hqueue]
    exact finish_congr ⟨List.forall_mem_cons.mpr ⟨hr, hlater⟩, hqueue⟩ ⟨hlater, hqueue⟩ rfl
      (Walk.next?_cons_of_seen hseen)

/-- When no children are left, the walk visits what waits. -/
theorem finish_drain (hqueue : ∀ r ∈ s.queue, r.IsIn g) :
    finish g (.ofTour s []) = (do
      let s' ← s.drain g
      pure s'.machine) := by
  induction s using Tour.drain.induct g with
  | case1 s hnil =>
    rw [Tour.drain_of_nil hnil, Logged.bind_done]
    exact finish_of_none (by simp [Walk.next?, Walk.ofTour, hnil])
  | case2 s r queue hcons ih =>
    have hall : ∀ d ∈ r :: queue, d.IsIn g := hcons ▸ hqueue
    obtain ⟨hr, hrest⟩ := List.forall_mem_cons.mp hall
    have hone : ∀ d ∈ [r], d.IsIn g := List.forall_mem_singleton.mpr hr
    have hnone : ∀ d ∈ ([] : List Record), d.IsIn g := fun d hd => absurd hd List.not_mem_nil
    -- the oldest record that waits is in the place of a child
    have hnext : finish g (.ofTour s []) = finish g (.ofTour { s with queue } ([r] ++ [])) :=
      finish_congr ⟨hnone, hqueue⟩ ⟨hone, hrest⟩ rfl (Walk.next?_nil_of_cons hcons)
    rw [hnext, finish_append hone hnone hrest, Tour.drain_of_cons hcons, Logged.bind_assoc]
    refine Logged.bind_congr_ok fun s₁ hs₁ => ?_
    exact ih s₁ (Tour.progress_of_visit hs₁) ((Tour.visits_of_visit hs₁).isIn_of_mem_queue hrest)

/-- The machine of a tree is that of the recursion. -/
theorem ofTree_eq {root : Record} (hroot : root.IsIn g) : ofTree g root = traverse g root := by
  have hone : ∀ d ∈ [root], d.IsIn g := List.forall_mem_singleton.mpr hroot
  have hnone : ∀ d ∈ ([] : List Record), d.IsIn g := fun d hd => absurd hd List.not_mem_nil
  have hwalk : ofTree g root = finish g (.ofTour {} ([root] ++ [])) := by
    exact walk_eq_finish ⟨hone, hnone⟩ (Nat.le_succ_of_le (Tour.unseen_length_le g _))
  rw [hwalk, finish_append hone hnone hnone, traverse]
  refine Logged.bind_congr_ok fun s hs => ?_
  exact finish_drain ((Tour.visits_of_visit hs).isIn_of_mem_queue hnone)

end Machine

end HomeAutomaton
