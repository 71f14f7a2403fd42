import HomeAutomaton.Proofs.Containment
import Mathlib.Data.List.Forall2

/-!
# Values and the trees that they unfold to

A value in which nothing stands inside itself unfolds to a tree, however often its objects are shared.
The tree is what the value is written out as, and the graph that is built of the tree has a value that
unfolds to it again, in which nothing is shared. So a value and its copy differ in the numbers of their
objects alone.

* `Graph.Unfolds` relates values and trees.
* `Graph.Unfolds.data_eq` says that the tree is what is written out, and `Graph.unfolds_ofDataFrom` that a
  copy unfolds to the same tree.
* `Graph.Alike` relates values that unfold to the same tree, and `Graph.Alike.cases` says how they look.
-/

namespace HomeAutomaton

namespace Graph

/-! ### Unfolding -/

mutual

/-- The value unfolds to the tree. Nothing in it is a record with attributes of its own. -/
def Unfolds (g : Graph) (v : Value) : Data → Prop
  | .null => v = .null
  | .bool b => v = .bool b
  | .int n => v = .int n
  | .float x => v = .float x
  | .str s => v = .str s
  | .kind k => v = .kind k
  | .bytes bs => g.deref? v = some (.bytes bs)
  | .date d => g.deref? v = some (.date d)
  | .dateTime t => g.deref? v = some (.dateTime t)
  | .list ds => ∃ vs, g.deref? v = some (.list vs) ∧ UnfoldItems g vs ds
  | .tuple ds => ∃ vs, g.deref? v = some (.tuple vs) ∧ UnfoldItems g vs ds
  | .set ds => ∃ vs, g.deref? v = some (.set vs) ∧ UnfoldItems g vs ds
  | .map ds => ∃ es, g.deref? v = some (.map es) ∧ UnfoldEntries g es ds
  | .object .. | .up _ => False
termination_by structural d => d

/-- The items unfold to the trees. -/
def UnfoldItems (g : Graph) : List Value → List Data → Prop
  | [], [] => True
  | v :: vs, d :: ds => Unfolds g v d ∧ UnfoldItems g vs ds
  | _, _ => False
termination_by structural _ ds => ds

/-- The entries have the same keys, and their values unfold to the trees. -/
def UnfoldEntries (g : Graph) : Table Value → List (Data × Data) → Prop
  | [], [] => True
  | (k, v) :: es, (k', d) :: ds => k = k' ∧ Unfolds g v d ∧ UnfoldEntries g es ds
  | _, _ => False
termination_by structural _ ds => ds

end

variable {g g' : Graph} {v v' : Value}

/-- What is an object is referred to. -/
theorem deref?_eq_some {cell : Cell} (h : g.deref? v = some cell) :
    ∃ label, v = .ref label ∧ g.cell? label = some cell := by
  cases v with
  | ref label => exact ⟨label, rfl, h⟩
  | _ => cases h

mutual

/-- A value unfolds to one tree. -/
theorem Unfolds.unique : ∀ {d d' : Data} {v : Value}, g.Unfolds v d → g.Unfolds v d' → d = d'
  -- the object tells the sort of the other tree, and the members are compared as a list
  | .list ds, d', v, h, h' => by
    obtain ⟨vs, hcell, hitems⟩ := h
    cases d' <;> simp [Unfolds, hcell] at h' <;>
      first
      | exact congrArg _ (UnfoldItems.unique hitems h')
      | (subst h'; cases hcell)
  | .tuple ds, d', v, h, h' => by
    obtain ⟨vs, hcell, hitems⟩ := h
    cases d' <;> simp [Unfolds, hcell] at h' <;>
      first
      | exact congrArg _ (UnfoldItems.unique hitems h')
      | (subst h'; cases hcell)
  | .set ds, d', v, h, h' => by
    obtain ⟨vs, hcell, hitems⟩ := h
    cases d' <;> simp [Unfolds, hcell] at h' <;>
      first
      | exact congrArg _ (UnfoldItems.unique hitems h')
      | (subst h'; cases hcell)
  | .map ds, d', v, h, h' => by
    obtain ⟨es, hcell, hentries⟩ := h
    cases d' <;> simp [Unfolds, hcell] at h' <;>
      first
      | exact congrArg _ (UnfoldEntries.unique hentries h')
      | (subst h'; cases hcell)
  | .null, d', v, h, h' | .bool _, d', v, h, h' | .int _, d', v, h, h' | .float _, d', v, h, h'
  | .str _, d', v, h, h' | .kind _, d', v, h, h' => by
    rw [Unfolds] at h
    subst h
    cases d' <;> simp_all [Unfolds, deref?]
  -- what has nothing in it is told by the object itself
  | .bytes _, d', v, h, h' | .date _, d', v, h, h' | .dateTime _, d', v, h, h' => by
    rw [Unfolds] at h
    cases d' <;> simp [Unfolds, h] at h' <;>
      first
      | (subst h'; rfl)
      | (subst h'; cases h)
  | .object .., _, _, h, _ | .up _, _, _, h, _ => by rw [Unfolds] at h; exact h.elim

/-- Items unfold to one list of trees. -/
theorem UnfoldItems.unique : ∀ {ds ds' : List Data} {vs : List Value}, g.UnfoldItems vs ds →
    g.UnfoldItems vs ds' → ds = ds'
  | [], [], _, _, _ => rfl
  | d :: ds, d' :: ds', v :: vs, h, h' => by
    rw [UnfoldItems] at h h'
    rw [Unfolds.unique h.1 h'.1, UnfoldItems.unique h.2 h'.2]
  | [], _ :: _, [], _, h' => False.elim h'
  | [], _ :: _, _ :: _, h, _ => False.elim h
  | _ :: _, [], [], h, _ => False.elim h
  | _ :: _, [], _ :: _, _, h' => False.elim h'

/-- Entries unfold to one list of keys and trees. -/
theorem UnfoldEntries.unique : ∀ {ds ds' : List (Data × Data)} {es : Table Value},
    g.UnfoldEntries es ds → g.UnfoldEntries es ds' → ds = ds'
  | [], [], _, _, _ => rfl
  | (k, d) :: ds, (k', d') :: ds', (key, v) :: es, h, h' => by
    rw [UnfoldEntries] at h h'
    rw [← h.1, ← h'.1, Unfolds.unique h.2.1 h'.2.1, UnfoldEntries.unique h.2.2 h'.2.2]
  | [], _ :: _, [], _, h' => False.elim h'
  | [], _ :: _, _ :: _, h, _ => False.elim h
  | _ :: _, [], [], h, _ => False.elim h
  | _ :: _, [], _ :: _, _, h' => False.elim h'

end

/-! ### Writing out -/

/-- What is around the place unfolds to larger trees. -/
def Larger (g : Graph) (around : List Nat) (size : Nat) : Prop :=
  ∀ label ∈ around, ∃ d, g.Unfolds (.ref label) d ∧ size < sizeOf d

/-- Trees larger than one are larger than what is inside it. -/
theorem Larger.mono {around : List Nat} {size size' : Nat} (h : g.Larger around size)
    (hle : size' ≤ size) : g.Larger around size' := by
  intro label hmem
  obtain ⟨d, hd, hlt⟩ := h label hmem
  exact ⟨d, hd, Nat.lt_of_le_of_lt hle hlt⟩

/-- A value is not around the place where it stands. -/
theorem Larger.not_mem {around : List Nat} {d : Data} {label : Nat} (h : g.Larger around (sizeOf d))
    (hd : g.Unfolds (.ref label) d) : label ∉ around := by
  intro hmem
  obtain ⟨d', hd', hlt⟩ := h label hmem
  rw [hd.unique hd'] at hlt
  exact Nat.lt_irrefl _ hlt

/-- One more object around the place, whose tree has the place in it. -/
theorem Larger.cons {around : List Nat} {d : Data} {label size : Nat} (h : g.Larger around (sizeOf d))
    (hd : g.Unfolds (.ref label) d) (hlt : size < sizeOf d) : g.Larger (label :: around) size :=
  List.forall_mem_cons.mpr ⟨⟨d, hd, hlt⟩, h.mono (Nat.le_of_lt hlt)⟩

/-- What is inside an object stands in a place that the object is around too. -/
theorem Unfolds.opened {d : Data} {cell : Cell} {depth : Nat} {around : List Nat} (h : g.Unfolds v d)
    (hcell : g.deref? v = some cell) (haround : g.Around depth around)
    (hlarger : g.Larger around (sizeOf d)) :
    ∃ label rest, v = .ref label ∧ depth = rest + 1 ∧ label ∉ around ∧ g.cell? label = some cell ∧
      g.Around rest (label :: around) ∧
        ∀ size, size < sizeOf d → g.Larger (label :: around) size := by
  obtain ⟨label, rfl, hcell⟩ := deref?_eq_some hcell
  obtain ⟨rest, rfl⟩ := haround.depth_eq
  have hnew := hlarger.not_mem h
  exact ⟨label, rest, rfl, rfl, hnew, hcell, haround.enter hnew hcell, fun _ => hlarger.cons h⟩

mutual

/-- **A place is written out as the tree that its value unfolds to,** since no object around it can be the value
itself: its tree would be larger than itself. -/
theorem Unfolds.dataWithin_eq : ∀ {d : Data} {v : Value} {depth : Nat} {around : List Nat},
    g.Unfolds v d → g.Around depth around → g.Larger around (sizeOf d) →
    g.dataWithin depth around v = d
  -- the object is entered, and its members are written out with one object more around them
  | .list ds, v, depth, around, h, haround, hlarger => by
    obtain ⟨vs, hlist, hitems⟩ := id h
    obtain ⟨label, rest, rfl, rfl, hnew, hcell, hinside, hsmaller⟩ := h.opened hlist haround hlarger
    rw [dataWithin, List.idxOf?_eq_none_iff.mpr hnew, hcell]
    exact congrArg Data.list (UnfoldItems.dataWithin_eq hitems hinside (hsmaller _ (by simp)))
  | .tuple ds, v, depth, around, h, haround, hlarger => by
    obtain ⟨vs, hlist, hitems⟩ := id h
    obtain ⟨label, rest, rfl, rfl, hnew, hcell, hinside, hsmaller⟩ := h.opened hlist haround hlarger
    rw [dataWithin, List.idxOf?_eq_none_iff.mpr hnew, hcell]
    exact congrArg Data.tuple (UnfoldItems.dataWithin_eq hitems hinside (hsmaller _ (by simp)))
  | .set ds, v, depth, around, h, haround, hlarger => by
    obtain ⟨vs, hlist, hitems⟩ := id h
    obtain ⟨label, rest, rfl, rfl, hnew, hcell, hinside, hsmaller⟩ := h.opened hlist haround hlarger
    rw [dataWithin, List.idxOf?_eq_none_iff.mpr hnew, hcell]
    exact congrArg Data.set (UnfoldItems.dataWithin_eq hitems hinside (hsmaller _ (by simp)))
  | .map ds, v, depth, around, h, haround, hlarger => by
    obtain ⟨es, hmap, hentries⟩ := id h
    obtain ⟨label, rest, rfl, rfl, hnew, hcell, hinside, hsmaller⟩ := h.opened hmap haround hlarger
    rw [dataWithin, List.idxOf?_eq_none_iff.mpr hnew, hcell]
    exact congrArg Data.map (UnfoldEntries.dataWithin_eq hentries hinside (hsmaller _ (by simp)))
  | .null, v, depth, around, h, _, _ | .bool _, v, depth, around, h, _, _
  | .int _, v, depth, around, h, _, _ | .float _, v, depth, around, h, _, _
  | .str _, v, depth, around, h, _, _ | .kind _, v, depth, around, h, _, _ => by
    rw [Unfolds] at h
    subst h
    cases depth <;> rw [dataWithin]
  -- objects without members only have to be new
  | .bytes _, v, depth, around, h, haround, hlarger | .date _, v, depth, around, h, haround, hlarger
  | .dateTime _, v, depth, around, h, haround, hlarger => by
    obtain ⟨label, rest, rfl, rfl, hnew, hcell, -⟩ :=
      h.opened (by rwa [Unfolds] at h) haround hlarger
    rw [dataWithin, List.idxOf?_eq_none_iff.mpr hnew, hcell]
  | .object .., _, _, _, h, _, _ | .up _, _, _, _, h, _, _ => by rw [Unfolds] at h; exact h.elim

/-- The items of a place are written out as their trees. -/
theorem UnfoldItems.dataWithin_eq : ∀ {ds : List Data} {vs : List Value} {depth : Nat}
    {around : List Nat}, g.UnfoldItems vs ds → g.Around depth around → g.Larger around (sizeOf ds) →
    vs.map (g.dataWithin depth around) = ds
  | [], [], _, _, _, _, _ => rfl
  | d :: ds, v :: vs, depth, around, h, haround, hlarger => by
    rw [UnfoldItems] at h
    have hfirst := Unfolds.dataWithin_eq h.1 haround (hlarger.mono (by simp; omega))
    have hrest := UnfoldItems.dataWithin_eq h.2 haround (hlarger.mono (by simp))
    rw [List.map_cons, hfirst, hrest]
  | [], _ :: _, _, _, h, _, _ | _ :: _, [], _, _, h, _, _ => False.elim h

theorem UnfoldEntries.dataWithin_eq : ∀ {ds : List (Data × Data)} {es : Table Value} {depth : Nat}
    {around : List Nat}, g.UnfoldEntries es ds → g.Around depth around →
    g.Larger around (sizeOf ds) → es.map (fun e => (e.1, g.dataWithin depth around e.2)) = ds
  | [], [], _, _, _, _, _ => rfl
  | (k, d) :: ds, (key, v) :: es, depth, around, h, haround, hlarger => by
    rw [UnfoldEntries] at h
    have hfirst := Unfolds.dataWithin_eq h.2.1 haround (hlarger.mono (by simp; omega))
    have hrest := UnfoldEntries.dataWithin_eq h.2.2 haround (hlarger.mono (by simp))
    rw [List.map_cons, hfirst, hrest, h.1]
  | [], _ :: _, _, _, h, _, _ | _ :: _, [], _, _, h, _, _ => False.elim h

end

/-- **A value is written out as the tree that it unfolds to.** -/
theorem Unfolds.data_eq {d : Data} (h : g.Unfolds v d) : g.data v = d :=
  h.dataWithin_eq (Around.start g) fun _ hmem => absurd hmem List.not_mem_nil

/-! ### Copies -/

/-- The second graph has the objects of the first. -/
def Extends (g g' : Graph) : Prop :=
  ∀ label cell, g.cell? label = some cell → g'.cell? label = some cell

theorem Extends.refl (g : Graph) : g.Extends g := fun _ _ h => h

theorem Extends.trans {g₁ g₂ g₃ : Graph} (h : g₁.Extends g₂) (h' : g₂.Extends g₃) : g₁.Extends g₃ :=
  fun label cell hcell => h' label cell (h label cell hcell)

/-- What is referred to stays the same. -/
theorem Extends.deref? (h : g.Extends g') {cell : Cell} (hcell : g.deref? v = some cell) :
    g'.deref? v = some cell := by
  obtain ⟨label, rfl, hcell⟩ := deref?_eq_some hcell
  exact h label cell hcell

/-- One object more is there, and all others still are. -/
theorem extends_add (g : Graph) (cell : Cell) :
    g.Extends (g.add cell).2 ∧ (g.add cell).2.deref? (g.add cell).1 = some cell := by
  refine ⟨fun label old hold => ?_, ?_⟩
  · have hlt : label < g.cells.size := (Array.getElem?_eq_some_iff.mp hold).1
    rw [cell?] at hold
    rw [add, cell?, Array.getElem?_push, if_neg (Nat.ne_of_lt hlt), hold]
  · rw [add, Graph.deref?, cell?, Array.getElem?_push, if_pos rfl]

mutual

/-- With more objects in the graph, a value unfolds to the same tree. -/
theorem Unfolds.extend (hext : g.Extends g') : ∀ {d : Data} {v : Value}, g.Unfolds v d → g'.Unfolds v d
  | .list _, _, ⟨vs, hcell, hitems⟩ => ⟨vs, hext.deref? hcell, UnfoldItems.extend hext hitems⟩
  | .tuple _, _, ⟨vs, hcell, hitems⟩ => ⟨vs, hext.deref? hcell, UnfoldItems.extend hext hitems⟩
  | .set _, _, ⟨vs, hcell, hitems⟩ => ⟨vs, hext.deref? hcell, UnfoldItems.extend hext hitems⟩
  | .map _, _, ⟨es, hcell, hentries⟩ => ⟨es, hext.deref? hcell, UnfoldEntries.extend hext hentries⟩
  | .bytes _, _, h | .date _, _, h | .dateTime _, _, h => hext.deref? h
  | .null, _, h | .bool _, _, h | .int _, _, h | .float _, _, h | .str _, _, h | .kind _, _, h => h
  | .object .., _, h | .up _, _, h => False.elim h

/-- So do lists of values. -/
theorem UnfoldItems.extend (hext : g.Extends g') : ∀ {ds : List Data} {vs : List Value},
    g.UnfoldItems vs ds → g'.UnfoldItems vs ds
  | [], [], _ => trivial
  | _ :: _, _ :: _, h => ⟨Unfolds.extend hext h.1, UnfoldItems.extend hext h.2⟩
  | [], _ :: _, h | _ :: _, [], h => False.elim h

theorem UnfoldEntries.extend (hext : g.Extends g') : ∀ {ds : List (Data × Data)} {es : Table Value},
    g.UnfoldEntries es ds → g'.UnfoldEntries es ds
  | [], [], _ => trivial
  | _ :: _, _ :: _, h => ⟨h.1, Unfolds.extend hext h.2.1, UnfoldEntries.extend hext h.2.2⟩
  | [], _ :: _, h | _ :: _, [], h => False.elim h

end

mutual

/-- **A copy unfolds to the same tree.** The graph that is built of the tree of a value, on top of
another graph, has a value that unfolds to it. -/
theorem unfolds_ofDataFrom : ∀ {d : Data} {v : Value}, g.Unfolds v d → ∀ start : Graph,
    start.Extends (start.ofDataFrom d).2 ∧ (start.ofDataFrom d).2.Unfolds (start.ofDataFrom d).1 d
  | .list ds, _, ⟨vs, _, hitems⟩, start => by
    obtain ⟨hext, hcopies⟩ := unfoldItems_itemsFrom hitems start
    obtain ⟨hext', hcell⟩ := extends_add (start.itemsFrom ds).2 (.list (start.itemsFrom ds).1)
    rw [ofDataFrom]
    exact ⟨hext.trans hext', _, hcell, UnfoldItems.extend hext' hcopies⟩
  | .tuple ds, _, ⟨vs, _, hitems⟩, start => by
    obtain ⟨hext, hcopies⟩ := unfoldItems_itemsFrom hitems start
    obtain ⟨hext', hcell⟩ := extends_add (start.itemsFrom ds).2 (.tuple (start.itemsFrom ds).1)
    rw [ofDataFrom]
    exact ⟨hext.trans hext', _, hcell, UnfoldItems.extend hext' hcopies⟩
  | .set ds, _, ⟨vs, _, hitems⟩, start => by
    obtain ⟨hext, hcopies⟩ := unfoldItems_itemsFrom hitems start
    obtain ⟨hext', hcell⟩ := extends_add (start.itemsFrom ds).2 (.set (start.itemsFrom ds).1)
    rw [ofDataFrom]
    exact ⟨hext.trans hext', _, hcell, UnfoldItems.extend hext' hcopies⟩
  | .map ds, _, ⟨es, _, hentries⟩, start => by
    obtain ⟨hext, hcopies⟩ := unfoldEntries_entriesFrom hentries start
    obtain ⟨hext', hcell⟩ := extends_add (start.entriesFrom ds).2 (.map (start.entriesFrom ds).1)
    rw [ofDataFrom]
    exact ⟨hext.trans hext', _, hcell, UnfoldEntries.extend hext' hcopies⟩
  -- what holds no other values is added as it is
  | .bytes bs, _, _, start => extends_add start (.bytes bs)
  | .date d, _, _, start => extends_add start (.date d)
  | .dateTime t, _, _, start => extends_add start (.dateTime t)
  | .null, _, _, start | .bool _, _, _, start | .int _, _, _, start | .float _, _, _, start
  | .str _, _, _, start | .kind _, _, _, start => ⟨.refl start, rfl⟩
  | .object .., _, h, _ | .up _, _, h, _ => False.elim h

/-- A list of copies. The later ones extend the graph, which leaves the earlier ones alone. -/
theorem unfoldItems_itemsFrom : ∀ {ds : List Data} {vs : List Value}, g.UnfoldItems vs ds →
    ∀ start : Graph, start.Extends (start.itemsFrom ds).2 ∧
      (start.itemsFrom ds).2.UnfoldItems (start.itemsFrom ds).1 ds
  | [], [], _, start => ⟨.refl start, trivial⟩
  | d :: ds, _ :: _, h, start => by
    obtain ⟨hext, hcopy⟩ := unfolds_ofDataFrom h.1 start
    obtain ⟨hext', hcopies⟩ := unfoldItems_itemsFrom h.2 (start.ofDataFrom d).2
    rw [itemsFrom]
    exact ⟨hext.trans hext', Unfolds.extend hext' hcopy, hcopies⟩
  | [], _ :: _, h, _ | _ :: _, [], h, _ => False.elim h

/-- A list of entries with copies. -/
theorem unfoldEntries_entriesFrom : ∀ {ds : List (Data × Data)} {es : Table Value},
    g.UnfoldEntries es ds → ∀ start : Graph, start.Extends (start.entriesFrom ds).2 ∧
      (start.entriesFrom ds).2.UnfoldEntries (start.entriesFrom ds).1 ds
  | [], [], _, start => ⟨.refl start, trivial⟩
  | (k, d) :: ds, _ :: _, h, start => by
    obtain ⟨hext, hcopy⟩ := unfolds_ofDataFrom h.2.1 start
    obtain ⟨hext', hcopies⟩ := unfoldEntries_entriesFrom h.2.2 (start.ofDataFrom d).2
    rw [entriesFrom]
    exact ⟨hext.trans hext', rfl, Unfolds.extend hext' hcopy, hcopies⟩
  | [], _ :: _, h, _ | _ :: _, [], h, _ => False.elim h

end

/-! ### Values of two graphs -/

/-- The two values unfold to the same tree. -/
def Alike (g g' : Graph) (v v' : Value) : Prop := ∃ d, g.Unfolds v d ∧ g'.Unfolds v' d

/-- The entries have the same keys, and values that unfold to the same trees. -/
def AlikeEntries (g g' : Graph) : Table Value → Table Value → Prop :=
  List.Forall₂ fun e e' => e.1 = e'.1 ∧ Alike g g' e.2 e'.2

/-- The two objects are of one sort, and hold values that unfold to the same trees. -/
inductive AlikeCells (g g' : Graph) : Cell → Cell → Prop where
  | list {vs vs' : List Value} : List.Forall₂ (Alike g g') vs vs' →
      AlikeCells g g' (.list vs) (.list vs')
  | tuple {vs vs' : List Value} : List.Forall₂ (Alike g g') vs vs' →
      AlikeCells g g' (.tuple vs) (.tuple vs')
  | set {vs vs' : List Value} : List.Forall₂ (Alike g g') vs vs' → AlikeCells g g' (.set vs) (.set vs')
  | map {es es' : Table Value} : AlikeEntries g g' es es' → AlikeCells g g' (.map es) (.map es')
  | bytes (bs : List UInt8) : AlikeCells g g' (.bytes bs) (.bytes bs)
  | date (d : Date) : AlikeCells g g' (.date d) (.date d)
  | dateTime (t : DateTime) : AlikeCells g g' (.dateTime t) (.dateTime t)

/-- Items that unfold to the same trees are alike, one by one. -/
theorem forall₂_alike : ∀ {ds : List Data} {vs vs' : List Value}, g.UnfoldItems vs ds →
    g'.UnfoldItems vs' ds → List.Forall₂ (Alike g g') vs vs'
  | [], [], [], _, _ => .nil
  | _ :: _, _ :: _, _ :: _, h, h' => .cons ⟨_, h.1, h'.1⟩ (forall₂_alike h.2 h'.2)
  | [], _ :: _, _, h, _ | _ :: _, [], _, h, _ => False.elim h
  | [], _, _ :: _, _, h' | _ :: _, _, [], _, h' => False.elim h'

theorem alikeEntries : ∀ {ds : List (Data × Data)} {es es' : Table Value}, g.UnfoldEntries es ds →
    g'.UnfoldEntries es' ds → AlikeEntries g g' es es'
  | [], [], [], _, _ => .nil
  | _ :: _, _ :: _, _ :: _, h, h' =>
    .cons ⟨h.1.trans h'.1.symm, _, h.2.1, h'.2.1⟩ (alikeEntries h.2.2 h'.2.2)
  | [], _ :: _, _, h, _ | _ :: _, [], _, h, _ => False.elim h
  | [], _, _ :: _, _, h' | _ :: _, _, [], _, h' => False.elim h'

/-- **How alike values look**: they are the same and no objects, or they are objects that hold values that
are alike. -/
theorem Alike.cases (h : Alike g g' v v') :
    (v = v' ∧ ∀ label, v ≠ .ref label) ∨
      ∃ label label' cell cell', v = .ref label ∧ v' = .ref label' ∧ g.cell? label = some cell ∧
        g'.cell? label' = some cell' ∧ AlikeCells g g' cell cell' := by
  -- both values are objects, at numbers of their own
  have hobject : ∀ {cell cell'}, g.deref? v = some cell → g'.deref? v' = some cell' →
      AlikeCells g g' cell cell' →
      ∃ label label' cell cell', v = .ref label ∧ v' = .ref label' ∧ g.cell? label = some cell ∧
        g'.cell? label' = some cell' ∧ AlikeCells g g' cell cell' := by
    intro cell cell' hcell hcell' hcells
    obtain ⟨label, rfl, hcell⟩ := deref?_eq_some hcell
    obtain ⟨label', rfl, hcell'⟩ := deref?_eq_some hcell'
    exact ⟨label, label', cell, cell', rfl, rfl, hcell, hcell', hcells⟩
  obtain ⟨d, hd, hd'⟩ := h
  -- the tree tells the sort of both
  cases d with
  | list ds =>
    obtain ⟨vs, hcell, hitems⟩ := hd
    obtain ⟨vs', hcell', hitems'⟩ := hd'
    exact .inr (hobject hcell hcell' (.list (forall₂_alike hitems hitems')))
  | tuple ds =>
    obtain ⟨vs, hcell, hitems⟩ := hd
    obtain ⟨vs', hcell', hitems'⟩ := hd'
    exact .inr (hobject hcell hcell' (.tuple (forall₂_alike hitems hitems')))
  | set ds =>
    obtain ⟨vs, hcell, hitems⟩ := hd
    obtain ⟨vs', hcell', hitems'⟩ := hd'
    exact .inr (hobject hcell hcell' (.set (forall₂_alike hitems hitems')))
  | map ds =>
    obtain ⟨es, hcell, hentries⟩ := hd
    obtain ⟨es', hcell', hentries'⟩ := hd'
    exact .inr (hobject hcell hcell' (.map (alikeEntries hentries hentries')))
  | bytes bs => exact .inr (hobject hd hd' (.bytes bs))
  | date d => exact .inr (hobject hd hd' (.date d))
  | dateTime t => exact .inr (hobject hd hd' (.dateTime t))
  | object | up => exact False.elim hd
  | null | bool | int | float | str | kind =>
    -- scalars are their own trees
    rw [Unfolds] at hd hd'
    subst hd hd'
    exact .inl ⟨rfl, fun _ heq => nomatch heq⟩

/-- Values that are alike are written out alike. -/
theorem Alike.data (h : Alike g g' v v') : g.data v = g'.data v' := by
  obtain ⟨d, hd, hd'⟩ := h
  rw [hd.data_eq, hd'.data_eq]

end Graph

end HomeAutomaton
