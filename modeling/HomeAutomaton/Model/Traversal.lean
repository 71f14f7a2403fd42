import HomeAutomaton.Model.Tree

/-!
# Trees by recursion

What a tree model amounts to, by recursion on its records: a record is read, then its children are
visited one after the other, each with all that stands below it. What the transitions of a node lead to
waits in a queue until all children are visited. Records can be shared and can refer to one another in a
circle, so a record that was visited before is passed over; the recursion ends because the records of
the graph that were not visited become fewer.

* `Record.enter` reads one record.
* `Tour.visit` visits records with what stands below them, `Tour.drain` those that wait.
* `Machine.traverse` collects the nodes and transitions of a tree.
* `Tour.Visits` says what a visit with a result went through, for proofs by induction.
-/

namespace HomeAutomaton

namespace Record

/-- What is found in a record: the machine with what the record stands for, the children, and what the
transitions of its node lead to. -/
structure Found where
  machine : Machine
  children : List Record := []
  referenced : List Record := []

/-- The machine with the node that the record stands for. Only if the node is new, its transitions are
added, and the records that they lead to are found. -/
def addWithTransitions (r : Record) (g : Graph) (m : Machine) : Logged (Machine × List Record) := do
  match ← r.node? g .null with
  | none => pure (m, [])
  | some n =>
    let (added, m) ← (m.addNode n : Except Fault (Bool × Machine))
    if added then (r.addTransitions g n m : Except Fault (Machine × List Record)) else pure (m, [])

/-- The record is read: a transition with pointers, or what may be a node, with children. -/
def enter (r : Record) (g : Graph) (m : Machine) : Logged Found :=
  match r.pointerKind? g with
  | some kind => do
    let m ← r.addPointerTransition g kind .null m
    pure { machine := m }
  | none => do
    let (m, referenced) ← r.addWithTransitions g m
    let children ← r.children g
    pure { machine := m, children, referenced }

end Record

/-- How far the records of a tree are visited. -/
structure Tour where
  machine : Machine := {}
  /-- The labels of the records visited. -/
  seen : List Nat := []
  /-- Destinations to visit when there are no children left, the oldest first. -/
  queue : List Record := []

namespace Tour

/-- The labels of the objects of the graph that are not among those seen. -/
def unseen (g : Graph) (seen : List Nat) : List Nat :=
  (List.range g.cells.size).filter fun label => !seen.contains label

theorem unseen_length_le (g : Graph) (seen : List Nat) : (unseen g seen).length ≤ g.cells.size :=
  Nat.le_trans (List.length_filter_le _ _) (Nat.le_of_eq List.length_range)

/-- Seeing an object of the graph for the first time leaves fewer. -/
theorem unseen_length_lt {g : Graph} {seen : List Nat} {label : Nat} (hlt : label < g.cells.size)
    (hnew : label ∉ seen) : (unseen g (label :: seen)).length < (unseen g seen).length := by
  have hmem : label ∈ unseen g seen :=
    List.mem_filter.mpr ⟨List.mem_range.mpr hlt, by simpa using hnew⟩
  -- what is left then is what was left, without this label
  have hfilter : unseen g (label :: seen) = (unseen g seen).filter fun l => l != label := by
    simp only [unseen, List.filter_filter, List.contains_cons, Bool.not_or]
    rfl
  rw [hfilter, List.length_filter_lt_length_iff_exists]
  exact ⟨label, hmem, by simp⟩

/-- The record is one of the graph's, and it was not visited. -/
def IsFresh (g : Graph) (s : Tour) (r : Record) : Prop := r.label < g.cells.size ∧ r.label ∉ s.seen

instance (g : Graph) (s : Tour) (r : Record) : Decidable (s.IsFresh g r) :=
  inferInstanceAs (Decidable (_ ∧ _))

/-- The tour after a record is read. -/
def enter (s : Tour) (r : Record) (found : Record.Found) : Tour :=
  { machine := found.machine, seen := r.label :: s.seen, queue := s.queue ++ found.referenced }

/-- The second tour is the first one, or it has visited more. -/
def Progress (g : Graph) (s s' : Tour) : Prop :=
  s' = s ∨ (unseen g s'.seen).length < (unseen g s.seen).length

theorem Progress.of_enter {g : Graph} {s s₁ s₂ : Tour} {r : Record} {found : Record.Found}
    (h : s.IsFresh g r) (h₁ : (s.enter r found).Progress g s₁) (h₂ : s₁.Progress g s₂) :
    (unseen g s₁.seen).length < (unseen g s.seen).length ∧ s.Progress g s₂ := by
  have hlt : (unseen g (s.enter r found).seen).length < (unseen g s.seen).length :=
    unseen_length_lt h.1 h.2
  have hlt₁ : (unseen g s₁.seen).length < (unseen g s.seen).length := by
    rcases h₁ with rfl | h₁
    · exact hlt
    · omega
  refine ⟨hlt₁, .inr ?_⟩
  rcases h₂ with rfl | h₂
  · exact hlt₁
  · omega

/-- Records are visited, each with all that stands below it, together with the proof that this leads
further. -/
def visitWith (g : Graph) : (s : Tour) → List Record → Logged {s' : Tour // s.Progress g s'}
  | s, [] => pure ⟨s, .inl rfl⟩
  | s, r :: rest =>
    if h : s.IsFresh g r then do
      let found ← r.enter g s.machine
      let ⟨s₁, h₁⟩ ← visitWith g (s.enter r found) found.children
      let ⟨s₂, h₂⟩ ← visitWith g s₁ rest
      pure ⟨s₂, (Progress.of_enter h h₁ h₂).2⟩
    else visitWith g s rest
termination_by s rs => ((unseen g s.seen).length, rs.length)
decreasing_by
  · exact .left _ _ (unseen_length_lt h.1 h.2)
  · exact .left _ _ (Progress.of_enter h h₁ (.inl rfl)).1
  · exact .right _ (Nat.lt_succ_self _)

/-- Records are visited, each with all that stands below it. -/
def visit (g : Graph) (s : Tour) (rs : List Record) : Logged Tour := do
  let s' ← s.visitWith g rs
  pure s'.1

/-- The records that wait are visited, the oldest first. -/
def drain (g : Graph) (s : Tour) : Logged Tour :=
  match _hqueue : s.queue with
  | [] => pure s
  | r :: queue => do
    let ⟨s', _h⟩ ← visitWith g { s with queue } [r]
    drain g s'
termination_by ((unseen g s.seen).length, s.queue.length)
decreasing_by
  rcases _h with rfl | hlt
  · rw [_hqueue]
    exact .right _ (Nat.lt_succ_self _)
  · exact .left _ _ hlt

/-! ### The recursion in equations -/

variable {g : Graph} {s s' s₁ : Tour} {r : Record} {rest rs : List Record}

theorem visit_nil : s.visit g [] = pure s := by
  rw [visit, visitWith]
  rfl

/-- A record that was visited is passed over. -/
theorem visit_cons_of_not_fresh (h : ¬ s.IsFresh g r) : s.visit g (r :: rest) = s.visit g rest := by
  rw [visit, visitWith, dif_neg h, visit]

/-- A record that was not visited is read; its children come before the records beside it. -/
theorem visit_cons_of_fresh (h : s.IsFresh g r) :
    s.visit g (r :: rest) = (do
      let found ← r.enter g s.machine
      let s₁ ← (s.enter r found).visit g found.children
      s₁.visit g rest) := by
  rw [visit, visitWith, dif_pos h]
  simp only [visit, Logged.bind_assoc, Logged.bind_done]

theorem drain_of_nil (h : s.queue = []) : s.drain g = pure s := by
  rw [drain]
  split
  next => rfl
  next r queue hqueue => rw [h] at hqueue; cases hqueue

/-- The oldest record that waits is visited. -/
theorem drain_of_cons {queue : List Record} (h : s.queue = r :: queue) :
    s.drain g = (do
      let s₁ ← Tour.visit g { s with queue } [r]
      s₁.drain g) := by
  rw [drain]
  split
  next hqueue => rw [h] at hqueue; cases hqueue
  next r' queue' hqueue =>
    obtain ⟨rfl, rfl⟩ := List.cons.inj (h.symm.trans hqueue)
    simp only [visit, Logged.bind_assoc, Logged.bind_done]

/-! ### Visits with a result -/

/-- What a visit with a result goes through: records that were visited are passed over, the others are
read, with their children after them. -/
inductive Visits (g : Graph) : Tour → List Record → Tour → Prop where
  | nil {s : Tour} : Visits g s [] s
  | pass {s s' : Tour} {r : Record} {rest : List Record} : ¬ s.IsFresh g r → Visits g s rest s' →
      Visits g s (r :: rest) s'
  | enter {s s₁ s' : Tour} {r : Record} {rest : List Record} {found : Record.Found} :
      s.IsFresh g r → (r.enter g s.machine).result = .ok found →
      Visits g (s.enter r found) found.children s₁ → Visits g s₁ rest s' →
      Visits g s (r :: rest) s'

theorem visits_of_visitWith {rs : List Record} {s : Tour} {p : {s' : Tour // s.Progress g s'}}
    (h : (s.visitWith g rs).result = .ok p) : Visits g s rs p.1 := by
  fun_induction visitWith g s rs with
  | case1 s =>
    obtain rfl := Except.ok.inj h
    exact .nil
  | case2 s r rest hfresh ihc ihr =>
    obtain ⟨found, hfound, h⟩ := Logged.bind_eq_ok.mp h
    obtain ⟨⟨s₁, h₁⟩, hchildren, h⟩ := Logged.bind_eq_ok.mp h
    obtain ⟨⟨s₂, h₂⟩, hrest, h⟩ := Logged.bind_eq_ok.mp h
    obtain rfl := Except.ok.inj h
    exact .enter hfresh hfound (ihc found hchildren) (ihr found s₁ h₁ hrest)
  | case3 s r rest hfresh ih => exact .pass hfresh (ih h)

/-- A visit with a result goes through its records. -/
theorem visits_of_visit (h : (s.visit g rs).result = .ok s') : Visits g s rs s' := by
  obtain ⟨p, hp, hs'⟩ := Logged.bind_eq_ok.mp h
  obtain rfl := Except.ok.inj hs'
  exact visits_of_visitWith hp

end Tour

/-- The nodes and transitions of a tree, by recursion: the root with all that stands below it, and then
what transitions lead to. -/
def Machine.traverse (g : Graph) (root : Record) : Logged Machine := do
  let s ← Tour.visit g {} [root]
  let s ← s.drain g
  pure s.machine

end HomeAutomaton
