import HomeAutomaton.Proofs.TreeOrder
import HomeAutomaton.Proofs.TreeExport
import Mathlib.Data.List.TakeWhile

/-!
# What is collected of a tree

The walk of a tree reads every record that it comes to, and it comes to the children of what it reads and
to what the transitions of its nodes lead to. Nothing is lost on the way, with two exceptions that are part
of the design: a transition with pointers has no children, and of several nodes with one path the first
that is visited is the node, so that the transitions of the others are not read.

* `Record.Gathered` says which records a tree consists of, given which of them have children and which
  have transitions.
* `Machine.Keeps` says that nodes and transitions of such records are in a machine.
* `Machine.Walk.Gathers` is the invariant of the walk.
* `Machine.ofTree_keeps` is the result, and `Machine.repeated_node_unread` a tree in which the transition
  of a second record is not read.
-/

namespace HomeAutomaton

/-! ### What a tree consists of -/

namespace Record

variable (g : Graph)

/-- The root, the children of those of its records that have children, and the destinations of the
transitions of those that have transitions. -/
inductive Gathered (parent holder : Record → Prop) (root : Record) : Record → Prop where
  | root : Gathered parent holder root root
  | child {r c : Record} : Gathered parent holder root r → parent r → IsChild g r.entries c →
      Gathered parent holder root c
  | destination {r h d : Record} : Gathered parent holder root r → holder r → h ∈ r.held g →
      g.record? (h.field "dst") = some d → Gathered parent holder root d

/-- The record names a kind of node. -/
def NamesNode (r : Record) : Prop := (r.nodeKind? g).isSome = true

/-- The record has no pointers. -/
def NoPointers (r : Record) : Prop := r.pointerKind? g = none

/-- Of the records that were visited, in this order, the record is the first node with its path. -/
def IsFirst (visited : List Record) (r : Record) : Prop :=
  ∃ before after, visited = before ++ r :: after ∧ r.IsNode g .null ∧
    ∀ b ∈ before, b.IsNode g .null → (b.pathOr g .null).same (r.pathOr g .null) = false

/-- Nothing keeps a record from being read: no two nodes have the same path, every node has one, and
nothing stands below a transition with pointers. -/
structure Unambiguous (gathered : Record → Prop) : Prop where
  paths : ∀ r r', gathered r → gathered r' → r.IsNode g .null → r'.IsNode g .null →
    (r.pathOr g .null).same (r'.pathOr g .null) = true → r = r'
  named : ∀ r, gathered r → r.NamesNode g → r.IsNode g .null
  leaves : ∀ r c, gathered r → ¬ r.NoPointers g → ¬ IsChild g r.entries c

end Record

/-- The machine has a transition with this path, or if it counts as missing, one without a path. -/
def Machine.ListsPath (m : Machine) (path : Data) : Prop :=
  ∃ t ∈ m.transitions, t.path = path ∨ (t.path.isFilled = false ∧ path.isFilled = false)

/-- **The machine keeps what the records hold**: the nodes, the transitions with a path that stand in the
records of nodes, and the transitions with pointers. -/
structure Machine.Keeps (g : Graph) (gathered holder : Record → Prop) (m : Machine) : Prop where
  nodes : ∀ r, gathered r → r.IsNode g .null → ∃ n ∈ m.nodes, n.path = r.pathOr g .null
  held : ∀ r, gathered r → holder r → ∀ h ∈ r.held g,
    (g.data (h.field "path")).isFilled = true → m.ListsPath (g.data (h.field "path"))
  pointers : ∀ r, gathered r → ¬ r.NoPointers g → m.ListsPath (r.pathOr g .null)

/-! ### Transitions one by one -/

namespace Machine

variable {m m' : Machine}

/-- The machine has a transition with the same path, or one without a path. -/
def HasPath (m : Machine) (path : Data) : Prop :=
  ∃ t ∈ m.transitions, path.same t.path = true ∨ (t.path.isFilled = false ∧ path.isFilled = false)

/-- Every key is that of a transition: its path, or the record of one that has none. -/
def Keyed (m : Machine) : Prop :=
  ∀ key ∈ m.keys, ∃ t ∈ m.transitions, key = .path t.path ∨
    (t.path.isFilled = false ∧ ∃ label, key = .record label)

/-- There are no keys in an empty machine. -/
theorem keyed_empty : Keyed {} := fun _ h => absurd h List.not_mem_nil

/-- The second machine has all that the first one has, and its keys are kept in order if those of the
first were. -/
structure Grows (m m' : Machine) : Prop where
  nodes : m.nodes ⊆ m'.nodes
  transitions : m.transitions ⊆ m'.transitions
  keys : m.keys ⊆ m'.keys
  keyed : m.Keyed → m'.Keyed

namespace Grows

variable {m₁ : Machine}

/-- A machine has all that it has. -/
theorem refl (m : Machine) : m.Grows m :=
  ⟨List.Subset.refl _, List.Subset.refl _, List.Subset.refl _, id⟩

theorem trans (h : m.Grows m₁) (h' : m₁.Grows m') : m.Grows m' where
  nodes := List.Subset.trans h.nodes h'.nodes
  transitions := List.Subset.trans h.transitions h'.transitions
  keys := List.Subset.trans h.keys h'.keys
  keyed := fun hm => h'.keyed (h.keyed hm)

theorem hasPath (h : m.Grows m') {path : Data} (hpath : m.HasPath path) : m'.HasPath path := by
  obtain ⟨t, ht, hsame⟩ := hpath
  exact ⟨t, h.transitions ht, hsame⟩

end Grows

/-- A node more leaves all that there is. -/
theorem addNode_grows {n : Node} {added : Bool} (h : m.addNode n = .ok (added, m')) : m.Grows m' := by
  unfold addNode at h
  split at h
  next => cases h
  next =>
    split at h
    next =>
      obtain ⟨-, rfl⟩ := Prod.mk.inj (Except.ok.inj h)
      exact .refl m
    next =>
      obtain ⟨-, rfl⟩ := Prod.mk.inj (Except.ok.inj h)
      exact ⟨List.subset_append_left _ _, List.Subset.refl _, List.Subset.refl _, id⟩

/-- A transition that is added is there afterwards, by its path at least. -/
theorem addTransition_grows {t : Transition} {label : Nat} {added : Bool}
    (h : m.addTransition t (.ofPath t.path (.record label)) = .ok (added, m')) :
    m.Grows m' ∧ (m.Keyed → m'.HasPath t.path) := by
  -- a transition is added unless its key is there, and then there is one with its path
  unfold addTransition at h
  split at h
  next => cases h
  next =>
    split at h
    -- another transition has the key
    next hany =>
      obtain ⟨-, rfl⟩ := Prod.mk.inj (Except.ok.inj h)
      refine ⟨.refl m, fun hm => ?_⟩
      obtain ⟨key, hkey, hsame⟩ := List.any_eq_true.mp hany
      obtain ⟨other, hother, rfl | ⟨hempty, label', rfl⟩⟩ := hm key hkey
      · unfold TransitionKey.ofPath at hsame
        split at hsame
        next => exact ⟨other, hother, .inl hsame⟩
        next => cases hsame
      · unfold TransitionKey.ofPath at hsame
        split at hsame
        next => cases hsame
        next hnot => exact ⟨other, hother, .inr ⟨hempty, by simpa using hnot⟩⟩
    next =>
      obtain ⟨-, rfl⟩ := Prod.mk.inj (Except.ok.inj h)
      have hnew : t ∈ m.transitions ++ [t] := List.mem_append_right _ List.mem_cons_self
      refine ⟨⟨List.Subset.refl _, List.subset_append_left _ _, List.subset_append_left _ _,
        fun hm key hkey => ?_⟩, fun _ => ⟨t, hnew, .inl (Data.same_self _)⟩⟩
      rcases List.mem_append.mp hkey with hkey | hkey
      · obtain ⟨other, hother, hform⟩ := hm key hkey
        exact ⟨other, List.mem_append_left _ hother, hform⟩
      · obtain rfl := List.mem_singleton.mp hkey
        refine ⟨t, hnew, ?_⟩
        unfold TransitionKey.ofPath
        split
        next => exact .inl rfl
        next hnot => exact .inr ⟨by simpa using hnot, label, rfl⟩

end Machine

/-! ### Records one by one -/

/-- The records that are read from a value in the place of a list are those among its items. -/
theorem Graph.eq_memberRecords {g : Graph} {v : Value} {rs : List Record}
    (h : g.recordsIn v = .ok rs) : rs = g.memberRecords v := by
  -- of the result this is said whatever the condition is
  have hends : Ends (Fault.Breaks False) (g.recordsIn v) fun rs => rs = g.memberRecords v :=
    recordsIn_ends False.elim
  rwa [h] at hends

namespace Record

variable {g : Graph} {r : Record} {n : Node} {m m' : Machine} {referenced : List Record}

/-- What stands in a list of children is a child. -/
theorem mem_of_isChild {entries : Table Value} {cs : List Record} {c : Record}
    (h : childrenIn g entries = .ok cs) (hc : IsChild g entries c) : c ∈ cs := by
  -- along the entries, in which one list holds the child
  induction entries generalizing cs with
  | nil =>
    obtain ⟨_, _, hmem, -⟩ := hc
    exact absurd hmem List.not_mem_nil
  | cons e rest ih =>
    obtain ⟨key, v⟩ := e
    obtain ⟨name, w, hmem, hlist, hc⟩ := hc
    rw [childrenIn] at h
    split at h
    next items hitems =>
      split at h
      next name' =>
        obtain ⟨later, hlater, h⟩ := bind_eq_ok.mp h
        obtain rfl := Except.ok.inj h
        rcases List.mem_cons.mp hmem with heq | hmem
        · obtain ⟨hname, rfl⟩ := Prod.mk.inj heq
          obtain rfl := Data.str.inj hname
          rw [Graph.listedRecords, hitems] at hc
          rw [if_pos hlist]
          exact List.mem_append_left _ hc
        · have hc' := ih hlater ⟨name, w, hmem, hlist, hc⟩
          split
          · exact List.mem_append_right _ hc'
          · exact hc'
      next => cases h
    next hnot =>
      rcases List.mem_cons.mp hmem with heq | hmem
      -- no list, no children
      · obtain ⟨-, rfl⟩ := Prod.mk.inj heq
        rw [Graph.listedRecords] at hc
        split at hc
        next items hitems => exact absurd hitems (hnot items)
        next => exact absurd hc List.not_mem_nil
      · exact ih h ⟨name, w, hmem, hlist, hc⟩

/-- Groups that were worked off are worked off as one list. -/
theorem addGroups_eq_ok {kind : TransitionKind} {groups : List Record}
    (h : addGroups g n kind m groups = .ok (m', referenced)) :
    addHeldTransitions g n m (groups.flatMap fun group =>
      (g.memberRecords (group.field "Transitions")).map fun h =>
        ⟨h, kind, g.data (group.field "name")⟩) = .ok (m', referenced) := by
  -- along the groups; a list that is worked off in two parts is worked off as a whole
  induction groups generalizing m m' referenced with
  | nil => exact h
  | cons group rest ih =>
    obtain ⟨helds, hhelds, h⟩ := bind_eq_ok.mp h
    obtain ⟨⟨m₁, here⟩, hhere, h⟩ := bind_eq_ok.mp h
    obtain ⟨⟨m₂, later⟩, hlater, h⟩ := bind_eq_ok.mp h
    obtain ⟨rfl, rfl⟩ := Prod.mk.inj (Except.ok.inj h)
    obtain ⟨records, hrecords, hhelds⟩ := bind_eq_ok.mp hhelds
    obtain rfl := Except.ok.inj hhelds
    obtain rfl := Graph.eq_memberRecords hrecords
    rw [List.flatMap_cons, addHeldTransitions_append, hhere]
    simp only [ok_bind, ih hlater]

/-- The transitions of a record that were added are those that it holds, in order. -/
theorem addTransitions_eq_ok (h : r.addTransitions g n m = .ok (m', referenced)) :
    addHeldTransitions g n m (r.heldTransitions g) = .ok (m', referenced) := by
  rw [addTransitions_eq] at h
  obtain ⟨external, hexternal, h⟩ := bind_eq_ok.mp h
  obtain ⟨⟨m₁, leaving⟩, hleaving, h⟩ := bind_eq_ok.mp h
  obtain ⟨internal, hinternal, h⟩ := bind_eq_ok.mp h
  obtain ⟨⟨m₂, staying⟩, hstaying, h⟩ := bind_eq_ok.mp h
  obtain ⟨records, hrecords, h⟩ := bind_eq_ok.mp h
  obtain ⟨⟨m₃, single⟩, hsingle, h⟩ := bind_eq_ok.mp h
  obtain ⟨rfl, rfl⟩ := Prod.mk.inj (Except.ok.inj h)
  obtain rfl := Graph.eq_memberRecords hexternal
  obtain rfl := Graph.eq_memberRecords hinternal
  obtain rfl := Graph.eq_memberRecords hrecords
  have hfirst := addGroups_eq_ok hleaving
  have hsecond := addGroups_eq_ok hstaying
  rw [heldTransitions, eventGroups]
  simp only [List.flatMap_cons, List.flatMap_nil, List.append_nil, addHeldTransitions_append, hfirst,
    hsecond, hsingle, ok_bind]

/-- A transition that is held is there afterwards. -/
theorem addHeldTransition_grows {held : HeldTransition} (h : addHeldTransition g n held m = .ok m') :
    m.Grows m' ∧ (m.Keyed → m'.HasPath (g.data (held.record.field "path"))) := by
  obtain ⟨attributes, -, h⟩ := bind_eq_ok.mp h
  obtain ⟨⟨added, m₁⟩, hadd, h⟩ := bind_eq_ok.mp h
  obtain rfl := Except.ok.inj h
  exact Machine.addTransition_grows hadd

/-- All transitions of a list are there afterwards, and all records that they lead to are found. -/
theorem addHeldTransitions_grows {helds : List HeldTransition}
    (h : addHeldTransitions g n m helds = .ok (m', referenced)) :
    m.Grows m' ∧ ∀ held ∈ helds, (m.Keyed → m'.HasPath (g.data (held.record.field "path"))) ∧
      ∀ d, g.record? (held.record.field "dst") = some d → d ∈ referenced := by
  -- along the list; what is there stays there
  induction helds generalizing m referenced with
  | nil =>
    obtain ⟨rfl, rfl⟩ := Prod.mk.inj (Except.ok.inj h)
    exact ⟨.refl m, fun held hheld => absurd hheld List.not_mem_nil⟩
  | cons held rest ih =>
    obtain ⟨m₁, hfirst, h⟩ := bind_eq_ok.mp h
    obtain ⟨⟨m₂, later⟩, hlater, h⟩ := bind_eq_ok.mp h
    obtain ⟨rfl, rfl⟩ := Prod.mk.inj (Except.ok.inj h)
    obtain ⟨hgrows, hpath⟩ := addHeldTransition_grows hfirst
    obtain ⟨hgrows', hrest⟩ := ih hlater
    refine ⟨hgrows.trans hgrows', List.forall_mem_cons.mpr ⟨⟨?_, ?_⟩, fun held hheld => ?_⟩⟩
    · exact fun hm => hgrows'.hasPath (hpath hm)
    · exact fun d hd => List.mem_append_left _ (Option.mem_toList.mpr hd)
    · obtain ⟨hhas, hfound⟩ := hrest held hheld
      exact ⟨fun hm => hhas (hgrows.keyed hm), fun d hd => List.mem_append_right _ (hfound d hd)⟩

theorem addPointerTransition_grows {kind : TransitionKind} {otherwise : Data}
    (h : r.addPointerTransition g kind otherwise m = .ok m') :
    m.Grows m' ∧ (m.Keyed → m'.HasPath (r.pathOr g otherwise)) := by
  obtain ⟨pointers, -, h⟩ := bind_eq_ok.mp h
  obtain ⟨attributes, -, h⟩ := bind_eq_ok.mp h
  obtain ⟨⟨added, m₁⟩, hadd, h⟩ := bind_eq_ok.mp h
  obtain rfl := Except.ok.inj h
  exact Machine.addTransition_grows hadd

/-- A record without pointers that stands for a node is read as a node with its path. -/
theorem node?_of_isNode (h : r.IsNode g .null) {n? : Option Node}
    (hn : (r.node? g .null).result = .ok n?) : ∃ n, n? = some n ∧ n.path = r.pathOr g .null := by
  obtain ⟨-, hkind, hfilled⟩ := h
  obtain ⟨kind, hkind⟩ := Option.isSome_iff_exists.mp hkind
  rw [node?, hkind] at hn
  obtain ⟨_, -, hn⟩ := Logged.bind_eq_ok.mp hn
  dsimp only at hn
  rw [if_neg (by simp [hfilled])] at hn
  obtain ⟨_, -, hn⟩ := Logged.bind_eq_ok.mp hn
  obtain ⟨attributes, -, hn⟩ := Logged.bind_eq_ok.mp hn
  obtain rfl := Except.ok.inj hn
  exact ⟨_, rfl, rfl⟩

/-- The node of a record has its path. -/
theorem StandsFor.path_eq {n : Node} (h : r.StandsFor g n) : n.path = r.pathOr g .null := by
  obtain ⟨n', hn', hpath⟩ := node?_of_isNode (isNode_of_node? h.1 h.2) h.2
  rwa [← Option.some.inj hn'] at hpath

/-- What is collected when a record is read: transitions stay, children are found, a transition with
pointers is there afterwards, and so is whatever a node holds that is the first with its path. -/
structure Collected (g : Graph) (r : Record) (m : Machine) (found : Found) : Prop where
  grows : m.Grows found.machine
  children : r.NoPointers g → ∀ c, IsChild g r.entries c → c ∈ found.children
  pointers : m.Keyed → ¬ r.NoPointers g → found.machine.HasPath (r.pathOr g .null)
  held : r.IsNode g .null → (∀ n ∈ m.nodes, n.path.same (r.pathOr g .null) = false) →
    ∀ held ∈ r.heldTransitions g,
      (m.Keyed → found.machine.HasPath (g.data (held.record.field "path"))) ∧
      ∀ d, g.record? (held.record.field "dst") = some d → d ∈ found.referenced

/-- A node that is new has its transitions added. -/
theorem addWithTransitions_collects
    (h : (r.addWithTransitions g m).result = .ok (m', referenced)) :
    m.Grows m' ∧
      (r.IsNode g .null → (∀ n ∈ m.nodes, n.path.same (r.pathOr g .null) = false) →
        ∀ held ∈ r.heldTransitions g,
          (m.Keyed → m'.HasPath (g.data (held.record.field "path"))) ∧
          ∀ d, g.record? (held.record.field "dst") = some d → d ∈ referenced) := by
  obtain ⟨n?, hn, h⟩ := Logged.bind_eq_ok.mp h
  cases n? with
  | none =>
    obtain ⟨rfl, rfl⟩ := Prod.mk.inj (Except.ok.inj h)
    refine ⟨.refl m, fun hnode => ?_⟩
    obtain ⟨n, hsome, -⟩ := node?_of_isNode hnode hn
    cases hsome
  | some n =>
    obtain ⟨⟨added, m₁⟩, hadd, hrest⟩ := Logged.bind_eq_ok.mp h
    cases added with
    -- another node has the path, so nothing is read
    | false =>
      obtain ⟨rfl, rfl⟩ := Prod.mk.inj (Except.ok.inj hrest)
      rcases Machine.nodes_of_addNode hadd with ⟨-, rfl, other, hother, hsame⟩ | ⟨hfalse, -⟩
      · refine ⟨.refl _, fun hnode hnew => ?_⟩
        obtain ⟨n', hn', hpath⟩ := node?_of_isNode hnode hn
        rw [Option.some.inj hn', hpath, hnew other hother] at hsame
        cases hsame
      · cases hfalse
    | true =>
      -- the node is added, and then all that the record holds
      have hgrows := Machine.addNode_grows hadd
      obtain ⟨hgrows', hheld⟩ := addHeldTransitions_grows (addTransitions_eq_ok hrest)
      refine ⟨hgrows.trans hgrows', fun _ _ held hmem => ?_⟩
      obtain ⟨hhas, hfound⟩ := hheld held hmem
      exact ⟨fun hm => hhas (hgrows.keyed hm), hfound⟩

/-- **What reading a record collects**, as a transition or as a node. -/
theorem collected_of_enter {found : Found} (h : (r.enter g m).result = .ok found) :
    Collected g r m found := by
  rw [enter] at h
  split at h
  -- with pointers it is a transition and nothing else
  next kind hkind =>
    obtain ⟨m₁, hadd, h⟩ := Logged.bind_eq_ok.mp h
    obtain rfl := Except.ok.inj h
    obtain ⟨hgrows, hpath⟩ := addPointerTransition_grows hadd
    have hnot : r.pointerKind? g ≠ none := by
      rw [hkind]
      exact Option.some_ne_none _
    exact
      { grows := hgrows
        children := fun hnone => absurd hnone hnot
        pointers := fun hm _ => hpath hm
        held := fun hnode => absurd hnode.1 hnot }
  next hkind =>
    obtain ⟨⟨m₁, referenced⟩, hadd, h⟩ := Logged.bind_eq_ok.mp h
    obtain ⟨children, hchildren, h⟩ := Logged.bind_eq_ok.mp h
    obtain rfl := Except.ok.inj h
    obtain ⟨hgrows, hheld⟩ := addWithTransitions_collects hadd
    exact
      { grows := hgrows
        children := fun _ c hc => mem_of_isChild hchildren hc
        pointers := fun _ hpointers => absurd hkind hpointers
        held := hheld }

/-- Where the record of a node can be read, so can its node. -/
theorem standsFor_of_enter (hnode : r.IsNode g .null) {found : Found}
    (h : (r.enter g m).result = .ok found) : ∃ n, r.StandsFor g n := by
  rw [enter, hnode.1] at h
  obtain ⟨added, hadd, -⟩ := Logged.bind_eq_ok.mp h
  obtain ⟨n?, hn, -⟩ := Logged.bind_eq_ok.mp hadd
  obtain ⟨n, rfl, -⟩ := node?_of_isNode hnode hn
  exact ⟨n, hnode.1, hn⟩

/-- With one more record visited, the first nodes are those that were, and possibly this one. -/
theorem IsFirst.of_concat {visited : List Record} {x : Record}
    (h : x.IsFirst g (visited ++ [r])) : x.IsFirst g visited ∨ (x = r ∧ r.IsNode g .null ∧
      ∀ b ∈ visited, b.IsNode g .null → (b.pathOr g .null).same (r.pathOr g .null) = false) := by
  obtain ⟨before, after, hsplit, hnode, hfirst⟩ := h
  rcases List.eq_nil_or_concat after with rfl | ⟨after, last, rfl⟩
  · obtain ⟨rfl, hlast⟩ := List.append_inj' hsplit rfl
    obtain rfl := List.singleton_inj.mp hlast
    exact .inr ⟨rfl, hnode, hfirst⟩
  · rw [List.concat_eq_append, ← List.cons_append, ← List.append_assoc] at hsplit
    obtain ⟨rfl, -⟩ := List.append_inj' hsplit rfl
    exact .inl ⟨before, after, rfl, hnode, hfirst⟩

end Record

/-! ### The walk -/

namespace Machine

variable {g : Graph} {root r : Record} {w w' w₁ : Walk} {visited : List Record}

namespace Walk

/-- A record that was to be visited is next, or is to be visited after that, unless it was visited. -/
theorem next?_keeps (h : w.next? = some (r, w')) {x : Record}
    (hx : x ∈ w.pending ∨ x ∈ w.referenced) :
    x.label ∈ w.seen ∨ x = r ∨ x ∈ w'.pending ∨ x ∈ w'.referenced := by
  -- what is dropped in front of the next record was visited
  have hdrop : ∀ {rs : List Record}, x ∈ rs →
      x.label ∈ w.seen ∨ x ∈ rs.dropWhile fun r => w.seen.contains r.label := by
    intro rs hmem
    rw [← @List.takeWhile_append_dropWhile _ (fun r : Record => w.seen.contains r.label) rs] at hmem
    refine (List.mem_append.mp hmem).imp_left fun hskipped => ?_
    simpa using List.mem_takeWhile_imp hskipped
  unfold next? at h
  dsimp only at h
  -- children first, and then what transitions lead to
  split at h
  next first rest heq =>
    obtain ⟨rfl, rfl⟩ := Prod.mk.inj (Option.some.inj h)
    rcases hx with hx | hx
    · have hsome := hdrop hx
      rw [heq] at hsome
      exact hsome.imp_right fun hmem => (List.mem_cons.mp hmem).imp_right .inl
    · exact .inr (.inr (.inr hx))
  next heq =>
    split at h
    next first rest heq' =>
      obtain ⟨rfl, rfl⟩ := Prod.mk.inj (Option.some.inj h)
      rcases hx with hx | hx
      · have hnone := hdrop hx
        rw [heq] at hnone
        exact .inl (hnone.resolve_right List.not_mem_nil)
      · have hsome := hdrop hx
        rw [heq'] at hsome
        exact hsome.imp_right fun hmem => (List.mem_cons.mp hmem).imp_right .inr
    next => cases h

/-- When nothing is left to visit, whatever was to be visited is visited. -/
theorem seen_of_next?_eq_none (h : w.next? = none) {x : Record}
    (hx : x ∈ w.pending ∨ x ∈ w.referenced) : x.label ∈ w.seen := by
  unfold next? at h
  dsimp only at h
  split at h
  next => cases h
  next hpending =>
    split at h
    next => cases h
    next hreferenced =>
      rw [List.dropWhile_eq_nil_iff] at hpending hreferenced
      have hseen := hx.elim (hpending x) (hreferenced x)
      simpa using hseen

/-- The record was visited, or it is still to be visited. -/
def Knows (w : Walk) (visited : List Record) (r : Record) : Prop :=
  r ∈ visited ∨ r ∈ w.pending ∨ r ∈ w.referenced

/-- **What a walk has gathered** when these records were visited, in this order: whatever they ask for is
in the machine, and the records that they lead to are known. -/
structure Gathers (g : Graph) (root : Record) (visited : List Record) (w : Walk) : Prop where
  isIn : w.IsIn g
  visitedIn : ∀ r ∈ visited, r.IsIn g
  seen : ∀ label ∈ w.seen, ∃ r ∈ visited, r.label = label
  keyed : w.machine.Keyed
  root : w.Knows visited root
  children : ∀ r ∈ visited, r.NoPointers g → ∀ c, Record.IsChild g r.entries c → w.Knows visited c
  nodes : ∀ n ∈ w.machine.nodes, ∃ r ∈ visited, r.StandsFor g n
  named : ∀ r ∈ visited, r.IsNode g .null →
    ∃ n ∈ w.machine.nodes, n.path.same (r.pathOr g .null) = true
  held : ∀ r : Record, r.IsFirst g visited → ∀ held ∈ r.heldTransitions g,
    w.machine.HasPath (g.data (held.record.field "path")) ∧
      ∀ d, g.record? (held.record.field "dst") = some d → w.Knows visited d
  pointers : ∀ r ∈ visited, ¬ r.NoPointers g → w.machine.HasPath (r.pathOr g .null)

/-- At the start the root is known, and nothing else. -/
theorem gathers_start (hroot : root.IsIn g) : Gathers g root [] { pending := [root] } where
  isIn := ⟨List.forall_mem_singleton.mpr hroot, fun _ hd => absurd hd List.not_mem_nil⟩
  visitedIn := fun _ hr => absurd hr List.not_mem_nil
  seen := fun _ hl => absurd hl List.not_mem_nil
  keyed := keyed_empty
  root := .inr (.inl List.mem_cons_self)
  children := fun _ hr => absurd hr List.not_mem_nil
  nodes := fun _ hn => absurd hn List.not_mem_nil
  named := fun _ hr => absurd hr List.not_mem_nil
  held := by
    rintro r ⟨before, after, hsplit, -⟩
    exact absurd (hsplit ▸ List.mem_append_right before List.mem_cons_self) List.not_mem_nil
  pointers := fun _ hr => absurd hr List.not_mem_nil

/-- What was known stays known when the next record is read. -/
theorem Gathers.knows (h : w.Gathers g root visited) (hnext : w.next? = some (r, w'))
    (found : Record.Found) {x : Record} (hx : w.Knows visited x) :
    (w'.enter found).Knows (visited ++ [r]) x := by
  rcases hx with hx | hx
  · exact .inl (List.mem_append_left _ hx)
  rcases next?_keeps hnext hx with hseen | rfl | hpending | hreferenced
  -- a record with the label of one that was visited is that one
  · obtain ⟨y, hy, hlabel⟩ := h.seen _ hseen
    have hin : x.IsIn g := hx.elim (h.isIn.1 x) (h.isIn.2 x)
    obtain rfl := (h.visitedIn y hy).eq_of_label hin hlabel
    exact .inl (List.mem_append_left _ hy)
  · exact .inl (List.mem_append_right _ List.mem_cons_self)
  · exact .inr (.inl (List.mem_append_right _ hpending))
  · exact .inr (.inr (List.mem_append_left _ hreferenced))

/-- The nodes of the machine stay those of visited records when the next record is read. -/
theorem Gathers.nodes_enter {found : Record.Found} (h : w.Gathers g root visited)
    (hfound : (r.enter g w.machine).result = .ok found) :
    ∀ n ∈ found.machine.nodes, ∃ x ∈ visited ++ [r], x.StandsFor g n := by
  have hold : ∀ n ∈ w.machine.nodes, ∃ x ∈ visited ++ [r], x.StandsFor g n := by
    intro n hn
    obtain ⟨x, hx, hstands⟩ := h.nodes n hn
    exact ⟨x, List.mem_append_left _ hx, hstands⟩
  intro n hn
  -- reading a record adds no node but its own
  rcases (Record.entered_of_enter hfound).nodes with hsame | ⟨n', hstands, hnew⟩
  · exact hold n (hsame ▸ hn)
  · rcases List.mem_append.mp (hnew ▸ hn) with hn | hn
    · exact hold n hn
    · exact ⟨r, List.mem_append_right _ List.mem_cons_self, List.mem_singleton.mp hn ▸ hstands⟩

/-- Every node record that was visited has a node when the next record is read. -/
theorem Gathers.named_enter {found : Record.Found} (h : w.Gathers g root visited)
    (hfound : (r.enter g w.machine).result = .ok found) :
    ∀ x ∈ visited ++ [r], x.IsNode g .null →
      ∃ n ∈ found.machine.nodes, n.path.same (x.pathOr g .null) = true := by
  have hentered := Record.entered_of_enter hfound
  -- records from before keep their nodes, and the record itself has one now
  refine List.forall_mem_append.mpr ⟨fun x hx hnode => ?_, ?_⟩
  · obtain ⟨n, hn, hsame⟩ := h.named x hx hnode
    refine ⟨n, ?_, hsame⟩
    rcases hentered.nodes with heq | ⟨_, -, hnew⟩
    · rwa [heq]
    · rw [hnew]
      exact List.mem_append_left _ hn
  · refine List.forall_mem_singleton.mpr fun hnode => ?_
    obtain ⟨n, hstands⟩ := Record.standsFor_of_enter hnode hfound
    have hthere := hentered.node n hstands
    rwa [hstands.path_eq] at hthere

/-- The transitions of the first node records are in the machine when the next record is read. -/
theorem Gathers.held_enter {found : Record.Found} {x : Record} (h : w.Gathers g root visited)
    (hnext : w.next? = some (r, w')) (hfound : (r.enter g w.machine).result = .ok found)
    (hx : x.IsFirst g (visited ++ [r])) : ∀ held ∈ x.heldTransitions g,
      found.machine.HasPath (g.data (held.record.field "path")) ∧
        ∀ d, g.record? (held.record.field "dst") = some d →
          (w'.enter found).Knows (visited ++ [r]) d := by
  have hcollected := Record.collected_of_enter hfound
  intro held hheld
  rcases hx.of_concat with hx | ⟨rfl, hnode, hfirst⟩
  · obtain ⟨hpath, hdestination⟩ := h.held x hx held hheld
    exact ⟨hcollected.grows.hasPath hpath, fun d hd => h.knows hnext found (hdestination d hd)⟩
  · -- the record is the first node with its path, so its transitions are read now
    have hnew : ∀ n ∈ w.machine.nodes, n.path.same (x.pathOr g .null) = false := by
      intro n hn
      obtain ⟨b, hb, hstands⟩ := h.nodes n hn
      rw [hstands.path_eq]
      exact hfirst b hb (Record.isNode_of_node? hstands.1 hstands.2)
    obtain ⟨hpath, hdestination⟩ := hcollected.held hnode hnew held hheld
    exact ⟨hpath h.keyed, fun d hd => .inr (.inr (List.mem_append_right _ (hdestination d hd)))⟩

/-- One record more is visited. -/
theorem Gathers.step (h : w.Gathers g root visited) (hnext : w.next? = some (r, w'))
    (hvisit : (visit g r w').result = .ok w₁) : w₁.Gathers g root (visited ++ [r]) := by
  obtain ⟨-, hseen, hin⟩ := next?_eq_some (g := g) hnext
  obtain ⟨hr, hw'⟩ := hin h.isIn
  obtain ⟨hmachine, -⟩ := next?_forall hnext h.isIn.1 h.isIn.2
  rw [visit_eq, hmachine] at hvisit
  obtain ⟨found, hfound, hw₁⟩ := Logged.bind_eq_ok.mp hvisit
  obtain rfl := Except.ok.inj hw₁
  have hcollected := Record.collected_of_enter hfound
  exact
    { isIn := hw'.enter hfound
      visitedIn := List.forall_mem_append.mpr ⟨h.visitedIn, List.forall_mem_singleton.mpr hr⟩
      seen := by
        intro label hlabel
        rcases List.mem_cons.mp (hseen ▸ hlabel) with rfl | hlabel
        -- the number that is new is that of the record
        · exact ⟨r, List.mem_append_right _ List.mem_cons_self, rfl⟩
        · obtain ⟨x, hx, heq⟩ := h.seen label hlabel
          exact ⟨x, List.mem_append_left _ hx, heq⟩
      keyed := hcollected.grows.keyed h.keyed
      root := h.knows hnext found h.root
      -- the children of records visited before wait or were visited; those of this one wait now
      children := by
        refine List.forall_mem_append.mpr
          ⟨fun x hx hnone c hc => h.knows hnext found (h.children x hx hnone c hc), ?_⟩
        refine List.forall_mem_singleton.mpr fun hnone c hc => .inr (.inl ?_)
        exact List.mem_append_left _ (hcollected.children hnone c hc)
      nodes := h.nodes_enter hfound
      named := h.named_enter hfound
      held := fun x hx => h.held_enter hnext hfound hx
      pointers := by
        refine List.forall_mem_append.mpr ⟨fun x hx hpointers => ?_, ?_⟩
        · exact hcollected.grows.hasPath (h.pointers x hx hpointers)
        · exact List.forall_mem_singleton.mpr (hcollected.pointers h.keyed) }

/-- A run visits records one after the other, and gathers what they ask for. -/
theorem Run.gathers {last : Walk} {rs : List Record} (hrun : Run g w rs last)
    (h : w.Gathers g root visited) : last.Gathers g root (visited ++ rs) := by
  induction hrun generalizing visited with
  | stay => rwa [List.append_nil]
  | step hnext hvisit _ ih =>
    rw [List.append_cons]
    exact ih (h.step hnext hvisit)

/-- When nothing is left to visit, all records that are known were visited. -/
theorem Gathers.mem_of_knows (h : w.Gathers g root visited) (hnone : w.next? = none)
    (hr : w.Knows visited r) : r ∈ visited := by
  rcases hr with hr | hr
  · exact hr
  · obtain ⟨x, hx, hlabel⟩ := h.seen _ (seen_of_next?_eq_none hnone hr)
    have hin : r.IsIn g := hr.elim (h.isIn.1 r) (h.isIn.2 r)
    rwa [← (h.visitedIn x hx).eq_of_label hin hlabel]

/-- All records that a run visits are met on the way from the root. -/
theorem Run.met {last : Walk} {rs : List Record} (hrun : Run g w rs last)
    (h : w.Legible False .lenient g root) : ∀ r ∈ rs, Record.Met g root r := by
  induction hrun with
  | stay => exact fun r hr => absurd hr List.not_mem_nil
  | @step w w' w₁ last r rs hnext hvisit _ ih =>
    obtain ⟨-, hr, hpending, hreferenced⟩ := next?_forall hnext h.pending h.referenced
    have hends : (visit g r w').Ends (fun _ => True) (Walk.Legible False .lenient g root) :=
      visit_ends .any False.elim hr ⟨False.elim, hpending, hreferenced⟩
    rw [Logged.Ends, hvisit] at hends
    exact List.forall_mem_cons.mpr ⟨hr, ih hends⟩

end Walk

end Machine

/-! ### Nothing is lost -/

namespace Record

variable {g : Graph} {root r : Record} {parent holder : Record → Prop}

/-- The transitions that a record holds are among those that are read. -/
theorem WellGrown.exists_held (h : r.WellGrown g) {t : Record} (ht : t ∈ r.held g) :
    ∃ held ∈ r.heldTransitions g, held.record = t := by
  rcases List.mem_append.mp ht with ht | ht
  · obtain ⟨group, hgroup, ht⟩ := List.mem_flatMap.mp ht
    rw [← Graph.memberRecords_eq (h.transitionLists group hgroup)] at ht
    obtain ⟨e, he, hgroup⟩ := List.mem_flatMap.mp hgroup
    rw [← Graph.memberRecords_eq (h.groupLists e he)] at hgroup
    refine ⟨⟨t, e.2, g.data (group.field "name")⟩, List.mem_append_left _ ?_, rfl⟩
    refine List.mem_flatMap.mpr ⟨e, he, List.mem_flatMap.mpr ⟨group, hgroup, ?_⟩⟩
    exact List.mem_map.mpr ⟨t, ht, rfl⟩
  · rw [← Graph.memberRecords_eq h.singleList] at ht
    exact ⟨⟨t, .external, .null⟩, List.mem_append_right _ (List.mem_map.mpr ⟨t, ht, rfl⟩), rfl⟩

/-- A record without event groups has the form that it should have if its keys and its other transitions
do. -/
theorem WellGrown.of_no_groups (hkeys : ∀ e ∈ r.entries, e.1.IsText)
    (hgroups : ∀ e ∈ eventGroups, r.field e.1 = .null)
    (hsingle : g.IsListOrNull (r.field "ExternalTransitions")) (hheld : ∀ h ∈ r.held g, IsHeld g h) :
    r.WellGrown g := by
  have hnone : r.groups g = [] := by
    refine List.flatMap_eq_nil_iff.mpr fun e he => ?_
    rw [hgroups e he]
    rfl
  exact
    { keys := hkeys
      groupLists := fun e he => .inl (hgroups e he)
      groupNames := fun group hgroup => absurd (hnone ▸ hgroup) List.not_mem_nil
      transitionLists := fun group hgroup => absurd (hnone ▸ hgroup) List.not_mem_nil
      singleList := hsingle
      heldTyped := hheld }

/-- What is gathered can be reached. -/
theorem Gathered.reachable (h : Gathered g parent holder root r) : Reachable g root r := by
  induction h with
  | root => exact .root
  | child _ _ hc ih =>
    obtain ⟨name, v, hmem, hlist, hc⟩ := hc
    exact .child ih hmem hlist hc
  | destination _ _ ht hd ih => exact .destination ih ht hd

/-- What is met can be reached by children and by the transitions of nodes. -/
theorem Met.gathered (htyped : ∀ r, Reachable g root r → r.WellTyped g ∧ r.WellGrown g)
    (h : Met g root r) : Gathered g (fun _ => True) (NamesNode g) root r := by
  induction h with
  | root => exact .root
  | child _ _ hmem hlist hc ih => exact .child ih trivial ⟨_, _, hmem, hlist, hc⟩
  | destination hmet hnode hheld hdst ih =>
    have hgrown := (htyped _ (reachable_of_met htyped hmet)).2
    exact .destination ih hnode.2.1 (hgrown.of_mem_heldTransitions hheld).1 hdst

end Record

namespace Machine

variable {g : Graph} {root : Record} {m : Machine}

/-- A transition with a path that is a text or null is found by it. -/
theorem HasPath.listsPath {path : Data} (h : m.HasPath path) (hpath : path.IsTextOrNull) :
    m.ListsPath path := by
  obtain ⟨t, ht, hsame | hempty⟩ := h
  · rcases hpath with rfl | htext
    · refine ⟨t, ht, .inl ?_⟩
      cases hpath : t.path <;> simp [hpath, Data.same, Data.sameScalar, Data.toInt?] at hsame ⊢
    · exact ⟨t, ht, .inl ((Data.same_iff htext).mp hsame).symm⟩
  · exact ⟨t, ht, .inr hempty⟩

/-- Whatever is gathered was visited. -/
theorem Walk.Gathers.mem_of_gathered {w : Walk} {rs : List Record} (h : w.Gathers g root rs)
    (hnone : w.next? = none) (hgrown : ∀ r ∈ rs, r.WellGrown g) {r : Record}
    (hr : Record.Gathered g (Record.NoPointers g) (Record.IsFirst g rs) root r) : r ∈ rs := by
  induction hr with
  | root => exact h.mem_of_knows hnone h.root
  | @child r c _ hparent hc ih => exact h.mem_of_knows hnone (h.children r ih hparent c hc)
  | @destination r t d _ hholder ht hd ih =>
    obtain ⟨held, hheld, rfl⟩ := (hgrown r ih).exists_held ht
    exact h.mem_of_knows hnone ((h.held r hholder held hheld).2 d hd)

/-- What was visited, and whatever it asks for, is kept. -/
theorem Walk.Gathers.keeps {w : Walk} {rs : List Record} (h : w.Gathers g root rs)
    (hnone : w.next? = none) (htyped : ∀ r ∈ rs, r.WellTyped g ∧ r.WellGrown g) :
    w.machine.Keeps g (Record.Gathered g (Record.NoPointers g) (Record.IsFirst g rs) root)
      (Record.IsFirst g rs) := by
  have hvisited : ∀ r, Record.Gathered g (Record.NoPointers g) (Record.IsFirst g rs) root r →
      r ∈ rs := fun r hr => h.mem_of_gathered hnone (fun r hr => (htyped r hr).2) hr
  have hpath : ∀ r ∈ rs, (r.pathOr g .null).IsTextOrNull := fun r hr =>
    Record.pathOr_isTextOrNull (htyped r hr).1.path (.inl rfl)
  -- nodes by their paths, then the transitions of first nodes, then those with pointers
  refine ⟨fun r hr hnode => ?_, fun r hr hholder t ht _ => ?_, fun r hr hpointers => ?_⟩
  · obtain ⟨n, hn, hsame⟩ := h.named r (hvisited r hr) hnode
    have htext := (hpath r (hvisited r hr)).isText hnode.2.2
    exact ⟨n, hn, (Data.same_iff' htext).mp hsame⟩
  · have hgrown := (htyped r (hvisited r hr)).2
    obtain ⟨held, hheld, rfl⟩ := hgrown.exists_held ht
    refine (h.held r hholder held hheld).1.listsPath ?_
    exact Graph.data_isTextOrNull (hgrown.heldTyped _ ht).path
  · exact (h.pointers r (hvisited r hr) hpointers).listsPath (hpath r (hvisited r hr))

end Machine

namespace Record

variable {g : Graph} {root r : Record} {rs : List Record}

/-- Where no two nodes have the same path, every node is the first with its path. -/
theorem Unambiguous.isFirst {gathered : Record → Prop} (h : Unambiguous g gathered)
    (hnodup : (rs.map (·.label)).Nodup) (hrs : ∀ r ∈ rs, gathered r) (hr : r ∈ rs)
    (hnames : r.NamesNode g) : r.IsFirst g rs := by
  have hnode := h.named r (hrs r hr) hnames
  obtain ⟨before, after, rfl⟩ := List.append_of_mem hr
  refine ⟨before, after, rfl, hnode, fun b hb hother => ?_⟩
  rw [← Bool.not_eq_true]
  intro hsame
  -- the same record would have been visited twice
  obtain rfl := h.paths b r (hrs b (List.mem_append_left _ hb)) (hrs r hr) hother hnode hsame
  rw [List.map_append, List.nodup_append] at hnodup
  exact hnodup.2.2 b.label (List.mem_map_of_mem hb) b.label List.mem_cons_self rfl

/-- Where nothing keeps a record from being read, all records that can be reached are gathered. -/
theorem Unambiguous.gathered
    (h : Unambiguous g (Gathered g (fun _ => True) (NamesNode g) root))
    (hfirst : ∀ r, Gathered g (NoPointers g) (IsFirst g rs) root r → r.NamesNode g →
      r.IsFirst g rs)
    (hr : Gathered g (fun _ => True) (NamesNode g) root r) :
    Gathered g (NoPointers g) (IsFirst g rs) root r := by
  -- on the way from the root; pointers stop nothing, and each node is the first with its path
  induction hr with
  | root => exact .root
  | @child r c hr _ hc ih =>
    refine .child ih ?_ hc
    by_contra hpointers
    exact h.leaves r c hr hpointers hc
  | @destination r t d _ hholder ht hd ih => exact .destination ih (hfirst r ih hholder) ht hd

end Record

namespace Machine

variable {g : Graph} {root : Record}

/-- **Collecting a tree loses nothing.** From well-typed records there is a machine, unless a record that is
met has a type that cannot be written. The machine keeps all that the walk comes to: the records that can be reached from the root by the children of records without
pointers, and by the transitions of nodes, each the first that is visited with its path. If nothing keeps
a record from being read, these are all records that can be reached. -/
theorem ofTree_keeps {v : Value} (hroot : g.record? v = some root)
    (htyped : ∀ r, Record.Reachable g root r → r.WellTyped g ∧ r.WellGrown g) :
    (ofTree g root).Ends (Fault.Mistyped g (Record.Met g root)) fun m =>
      ∃ rs last, Walk.Run g { pending := [root] } rs last ∧ last.next? = none ∧ last.machine = m ∧
        m.Keeps g (Record.Gathered g (Record.NoPointers g) (Record.IsFirst g rs) root)
          (Record.IsFirst g rs) ∧
        (Record.Unambiguous g (Record.Gathered g (fun _ => True) (Record.NamesNode g) root) →
          m.Keeps g (Record.Gathered g (fun _ => True) (Record.NamesNode g) root)
            (Record.NamesNode g)) := by
  refine (ofTree_wellTyped htyped).mono fun m hm _ => ?_
  have hin : root.IsIn g := Record.isIn_of_record? hroot
  have hstart := Walk.gathers_start hin
  have henough := Nat.le_succ_of_le (Tour.unseen_length_le g [])
  obtain ⟨rs, last, hrun, hnone, rfl⟩ := exists_run_of_finish hstart.isIn henough hm
  -- what is visited was met, so it is well-typed
  have hmet : ∀ r ∈ rs, Record.Met g root r := hrun.met
    ⟨False.elim, List.forall_mem_singleton.mpr .root, fun _ hd => absurd hd List.not_mem_nil⟩
  have hvisited : ∀ r ∈ rs, r.WellTyped g ∧ r.WellGrown g := fun r hr =>
    htyped r (Record.reachable_of_met htyped (hmet r hr))
  have hgathers : last.Gathers g root rs := hrun.gathers hstart
  have hkeeps := hgathers.keeps hnone hvisited
  refine ⟨rs, last, hrun, hnone, rfl, hkeeps, fun hclear => ?_⟩
  -- where no path is taken twice, each record is the first with its path
  have hfirst : ∀ r, Record.Gathered g (Record.NoPointers g) (Record.IsFirst g rs) root r →
      r.NamesNode g → r.IsFirst g rs := by
    intro r hr hnames
    have hmem := hgathers.mem_of_gathered hnone (fun r hr => (hvisited r hr).2) hr
    exact hclear.isFirst (hrun.nodup hstart.isIn).1 (fun r hr => (hmet r hr).gathered htyped) hmem
      hnames
  -- so what could be gathered is gathered
  have hall : ∀ r, Record.Gathered g (fun _ => True) (Record.NamesNode g) root r →
      Record.Gathered g (Record.NoPointers g) (Record.IsFirst g rs) root r :=
    fun r hr => hclear.gathered hfirst hr
  exact
    { nodes := fun r hr => hkeeps.nodes r (hall r hr)
      held := fun r hr hnames => hkeeps.held r (hall r hr) (hfirst r (hall r hr) hnames)
      pointers := fun r hr => hkeeps.pointers r (hall r hr) }

/-- A lamp with two states: the second is `/on`, from which a transition leads to the record of the
first. -/
def lampTree (first : String) : Graph :=
  { cells := #[
      .map [(.str "type", .str "State Machine"), (.str "path", .str "/lamp"), (.str "State_list", .ref 1)],
      .list [.ref 2, .ref 3],
      .map [(.str "type", .str "State"), (.str "path", .str first)],
      .map [(.str "type", .str "State"), (.str "path", .str "/on"), (.str "ExternalTransitions", .ref 4)],
      .list [.ref 5],
      .map [(.str "path", .str "/press"), (.str "dst", .ref 2)]] }

/-- The record of the machine. -/
def lampTop : Record :=
  ⟨0, [(.str "type", .str "State Machine"), (.str "path", .str "/lamp"), (.str "State_list", .ref 1)]⟩

/-- The first state, with the path that is asked for. -/
def lampFirst (first : String) : Record := ⟨2, [(.str "type", .str "State"), (.str "path", .str first)]⟩

/-- The second one, with a transition. -/
def lampOn : Record :=
  ⟨3, [(.str "type", .str "State"), (.str "path", .str "/on"), (.str "ExternalTransitions", .ref 4)]⟩

/-- The transition. -/
def lampPress : Record := ⟨5, [(.str "path", .str "/press"), (.str "dst", .ref 2)]⟩

/-- The second state alone holds a transition. -/
theorem lampTree_held (first : String) : lampTop.held (lampTree first) = [] ∧
    (lampFirst first).held (lampTree first) = [] ∧ lampOn.held (lampTree first) = [lampPress] :=
  ⟨rfl, rfl, rfl⟩

/-- No other records can be reached. -/
theorem lampTree_reachable {first : String} {r : Record}
    (h : Record.Reachable (lampTree first) lampTop r) :
    r = lampTop ∨ r = lampFirst first ∨ r = lampOn := by
  obtain ⟨htop, hfirst, hon⟩ := lampTree_held first
  have hlisted : (lampTree first).listedRecords (.ref 1) = [lampFirst first, lampOn] := rfl
  induction h with
  | root => exact .inl rfl
  | child _ hmem hlist hc ih =>
    rcases ih with rfl | rfl | rfl <;> simp only [lampTop, lampFirst, lampOn, List.mem_cons,
      List.not_mem_nil, or_false, Prod.mk.injEq, Data.str.injEq] at hmem <;>
      rcases hmem with ⟨rfl, rfl⟩ | ⟨rfl, rfl⟩ | ⟨rfl, rfl⟩
    -- only the list of states has children
    all_goals first
      | exact absurd hc List.not_mem_nil
      | exact absurd hlist (by decide)
      | exact .inr (by simpa [hlisted] using hc)
  | destination _ hheld hdst ih =>
    rcases ih with rfl | rfl | rfl
    · exact absurd (htop ▸ hheld) List.not_mem_nil
    · exact absurd (hfirst ▸ hheld) List.not_mem_nil
    · obtain rfl := List.mem_singleton.mp (hon ▸ hheld)
      exact .inr (.inl (Option.some.inj hdst).symm)

/-- All of them are well typed. -/
theorem lampTree_typed {first : String} {r : Record}
    (h : Record.Reachable (lampTree first) lampTop r) :
    r.WellTyped (lampTree first) ∧ r.WellGrown (lampTree first) := by
  obtain ⟨htop, hfirst, hon⟩ := lampTree_held first
  have hpress : Record.IsHeld (lampTree first) lampPress :=
    ⟨.inr ⟨_, rfl⟩, .inl rfl, .inr ⟨lampFirst first, rfl, .inr ⟨_, rfl⟩⟩⟩
  -- the machine, the first state and the second
  rcases lampTree_reachable h with rfl | rfl | rfl
  · refine ⟨⟨.inr ⟨_, rfl⟩, .inl rfl, .inl rfl, .inl rfl, .inl rfl⟩, .of_no_groups ?_ ?_ (.inl rfl) ?_⟩
    · simp [lampTop]
    · simp [eventGroups, lampTop, Record.field, Table.get?]
    · simp [htop]
  · refine ⟨⟨.inr ⟨_, rfl⟩, .inl rfl, .inl rfl, .inl rfl, .inl rfl⟩, .of_no_groups ?_ ?_ (.inl rfl) ?_⟩
    · simp [lampFirst]
    · simp [eventGroups, lampFirst, Record.field, Table.get?]
    · simp [hfirst]
  · refine ⟨⟨.inr ⟨_, rfl⟩, .inl rfl, .inl rfl, .inl rfl, .inl rfl⟩,
      .of_no_groups ?_ ?_ (.inr ⟨_, rfl⟩) ?_⟩
    · simp [lampOn]
    · simp [eventGroups, lampOn, Record.field, Table.get?]
    · simpa [hon] using hpress

/-- Both states and the transition are gathered. -/
theorem lampTree_gathers (first : String) :
    Record.Gathered (lampTree first) (fun _ => True) (Record.NamesNode (lampTree first)) lampTop lampOn ∧
      Record.Gathered (lampTree first) (fun _ => True) (Record.NamesNode (lampTree first)) lampTop
        (lampFirst first) ∧
      lampPress ∈ lampOn.held (lampTree first) := by
  have hpress : lampPress ∈ lampOn.held (lampTree first) := List.mem_cons_self
  have hon : Record.Gathered (lampTree first) (fun _ => True) (Record.NamesNode (lampTree first))
      lampTop lampOn :=
    .child .root trivial ⟨"State_list", .ref 1, by simp [lampTop], by decide,
      List.mem_cons_of_mem _ List.mem_cons_self⟩
  have htype : lampOn.typeText? (lampTree first) = some "State" := by
    simp [Record.typeText?, Record.typeData, lampOn, Record.field, Table.get?, Graph.data,
      Graph.dataWithin, Data.hasLongNumber, Data.nameText]
  -- the state names a node, so its transition leads to the other one
  have hnames : lampOn.NamesNode (lampTree first) := by
    rw [Record.NamesNode, Record.nodeKind?, htype]
    rfl
  exact ⟨hon, .destination hon hnames hpress rfl, hpress⟩

/-- With another path for the first state nothing is in the way. -/
theorem lampTree_unambiguous : Record.Unambiguous (lampTree "/off")
    (Record.Gathered (lampTree "/off") (fun _ => True) (Record.NamesNode (lampTree "/off")) lampTop) where
  paths r r' hr hr' _ _ hsame := by
    rcases lampTree_reachable hr.reachable with rfl | rfl | rfl <;>
      rcases lampTree_reachable hr'.reachable with rfl | rfl | rfl <;>
      first
      | rfl
      | exact absurd hsame (by decide)
  named r hr hnames := by
    rcases lampTree_reachable hr.reachable with rfl | rfl | rfl <;> exact ⟨rfl, hnames, rfl⟩
  leaves r c hr hpointers := by
    refine absurd ?_ hpointers
    rcases lampTree_reachable hr.reachable with rfl | rfl | rfl <;> rfl

/-- Then the first state and the transition are in the machine. -/
theorem ofTree_keeps_lamp :
    (lampTree "/off").record? (.ref 0) = some lampTop ∧
    (∀ r, Record.Reachable (lampTree "/off") lampTop r →
      r.WellTyped (lampTree "/off") ∧ r.WellGrown (lampTree "/off")) ∧
    ∃ m, (ofTree (lampTree "/off") lampTop).result = .ok m ∧ (∃ n ∈ m.nodes, n.path = .str "/off") ∧
      m.ListsPath (.str "/press") := by
  have hroot : (lampTree "/off").record? (.ref 0) = some lampTop := rfl
  have hresult : (ofTree (lampTree "/off") lampTop).result.toOption.map (fun _ => true) = some true := by
    decide +kernel
  obtain ⟨m, hm, -⟩ := Returns.of_check hresult
  have hends := ofTree_keeps hroot fun r => lampTree_typed
  rw [Logged.Ends, hm] at hends
  obtain ⟨rs, last, -, -, -, -, hkeeps⟩ := hends
  -- nothing in the lamp has the path of something else
  have hall := hkeeps lampTree_unambiguous
  obtain ⟨hon, hoff, hpress⟩ := lampTree_gathers "/off"
  refine ⟨hroot, fun r => lampTree_typed, m, hm, ?_, ?_⟩
  · exact hall.nodes _ hoff ⟨rfl, rfl, rfl⟩
  · exact hall.held _ hon rfl _ hpress rfl

/-- Of two nodes with one path, the transitions of the second are not read. -/
theorem repeated_node_unread :
    (lampTree "/on").record? (.ref 0) = some lampTop ∧
    (∀ r, Record.Reachable (lampTree "/on") lampTop r →
      r.WellTyped (lampTree "/on") ∧ r.WellGrown (lampTree "/on")) ∧
    ∃ m, (ofTree (lampTree "/on") lampTop).result = .ok m ∧
      ¬ m.Keeps (lampTree "/on")
        (Record.Gathered (lampTree "/on") (fun _ => True) (Record.NamesNode (lampTree "/on")) lampTop)
        (Record.NamesNode (lampTree "/on")) := by
  have hresult : (ofTree (lampTree "/on") lampTop).result.toOption.map
      (fun m => m.transitions.isEmpty) = some true := by decide +kernel
  obtain ⟨m, hm, hempty⟩ := Returns.of_check hresult
  refine ⟨rfl, fun r => lampTree_typed, m, hm, fun hkeeps => ?_⟩
  -- the transition of the second state is there to be kept
  obtain ⟨hon, -, hpress⟩ := lampTree_gathers "/on"
  obtain ⟨t, ht, -⟩ := hkeeps.held _ hon rfl _ hpress rfl
  rw [List.isEmpty_iff.mp hempty] at ht
  exact absurd ht List.not_mem_nil

end Machine

end HomeAutomaton
