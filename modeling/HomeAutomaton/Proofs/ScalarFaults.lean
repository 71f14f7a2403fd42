import HomeAutomaton.Proofs.FormFaults
import HomeAutomaton.Proofs.TakenEntries
import Mathlib.Data.Finset.Card

/-!
# What the scalars of a text can be wrong in

If a text is well formed and has no value all the same, then one of its nodes is at fault: the text of a
scalar is none of the type that its tag asks for, or that it looks like. A mapping can be read as a scalar as
well; its text is then that of a scalar it leads to, and if it leads to a circle, reading it does not end.

Nothing else goes on for ever. A node is met once, and a collection waits when it is met, so there are no more of
them to be filled than there are nodes.

* `Yaml.Tag.Refuses` says which texts a type does not have, and why, and `Yaml.Refused` that this is so of a
  node.
* `Yaml.Building.Within` is the invariant, and `Yaml.Building.value_ends` and the statements behind it say that
  each step keeps it up and fails for a refused node alone.
* `Model.refused_of_error` is the result.
-/

namespace HomeAutomaton.Yaml

open Building Text

/-! ### Nodes at fault -/

/-- The text stands for no value of the type, for this reason. -/
inductive Tag.Refuses : Tag → String → LoadError → Prop
  | bool {text : String} {cause : LoadError} : boolOfText text = .error cause → Refuses .bool text cause
  | int {text : String} {cause : LoadError} : intOfText text.toList = .error cause → Refuses .int text cause
  | float {text : String} {cause : LoadError} {mark : Nat} :
      floatOfText mark (lowercase text.toList) = .error cause → Refuses .float text cause
  | timestampForm {text : String} :
      Timestamp.ofText? (dropFinalBreak text.toList) = none → Refuses .timestamp text .badTimestamp
  | timestamp {text : String} {t : Timestamp} {cause : LoadError} :
      Timestamp.ofText? (dropFinalBreak text.toList) = some t → t.value = .error cause →
      Refuses .timestamp text cause

/-- A node of the type is read as a scalar. The key `=` is so once it has become a text. -/
def Tag.IsScalar : Tag → Prop
  | .null | .bool | .int | .float | .str | .binary | .timestamp | .value => True
  | _ => False

/-- One of the nodes has no value. -/
inductive Refused (nodes : Array Node) : LoadError → Prop
  /-- The text of a scalar stands for no value of its type. -/
  | scalar {number : Nat} {text : String} {cause : LoadError} :
      (nodes.getD number default).content = .scalar text →
      (nodes.getD number default).tag.Refuses text cause → Refused nodes cause
  /-- A mapping is to be read as a scalar, and the text of the node that it leads to stands for no value of
  its type. -/
  | mapping {number : Nat} {text : String} {cause : LoadError} :
      Nodes.IsMapping nodes number → (nodes.getD number default).tag ≠ .timestamp →
      Nodes.HasText nodes number text → (nodes.getD number default).tag.Refuses text cause →
      Refused nodes cause
  /-- A mapping is to be read as a point in time. Its text is found, but not used. -/
  | timestamp {number : Nat} {text : String} :
      Nodes.IsMapping nodes number → (nodes.getD number default).tag = .timestamp →
      Nodes.HasText nodes number text → Refused nodes .timestampNotText
  /-- A mapping is to be read as a scalar, and leads from key `=` to key `=` in a circle. -/
  | circle {number : Nat} :
      (nodes.getD number default).tag.IsScalar → Nodes.Circles nodes number → Refused nodes .endless

/-- The text is not well formed after all, or one of its nodes has no value. -/
def Blames (nodes : Array Node) (e : LoadError) : Prop := e = .malformed ∨ Refused nodes e

variable {nodes nodes' : Array Node} {number : Nat}

/-- A node that has a text its type refuses is itself refused, as a scalar or as a mapping. -/
theorem Nodes.HasText.refused {text : String} {cause : LoadError} (h : Nodes.HasText nodes number text)
    (htag : (nodes.getD number default).tag ≠ .timestamp)
    (hrefuses : (nodes.getD number default).tag.Refuses text cause) : Refused nodes cause := by
  by_cases hscalar : (nodes.getD number default).content = .scalar text
  · exact .scalar hscalar hrefuses
  · exact .mapping (h.isMapping hscalar) htag h hrefuses

/-- The type of a node that is read as a scalar later on was one that is read as a scalar before. -/
theorem Nodes.Derived.isScalar (h : Nodes.Derived nodes nodes')
    (hscalar : (nodes'.getD number default).tag.IsScalar) : (nodes.getD number default).tag.IsScalar := by
  rcases (h.becomes number).tag with hsame | ⟨hvalue, -⟩
  · rwa [← hsame]
  · rw [hvalue]
    exact trivial

/-- **The text of a node** that is read as a scalar. -/
theorem Nodes.Derived.scalarText_ends (h : Nodes.Derived nodes nodes')
    (hscalar : (nodes'.getD number default).tag.IsScalar) :
    Ends (Blames nodes) (scalarText nodes' (nodes'.size + 1) number) (Nodes.HasText nodes number) := by
  refine ((Nodes.scalarText_ends nodes' number).weaken ?_).mono fun _ _ => h.hasText
  rintro e (rfl | ⟨rfl, hcircles⟩)
  · exact .inl rfl
  · exact .inr (.circle (h.isScalar hscalar) (h.circles hcircles))

/-- A text of the node is read as a value of its type, and what it is refused for is what the type refuses. -/
theorem Nodes.Derived.read_ends (h : Nodes.Derived nodes nodes') {tag : Tag}
    (htag : (nodes'.getD number default).tag = tag) (hstr : tag ≠ .str) (htime : tag ≠ .timestamp)
    {text : String} (htext : Nodes.HasText nodes number text) {α : Type} {read : Except LoadError α}
    (hread : ∀ cause, read = .error cause → tag.Refuses text cause) :
    Ends (Blames nodes) read fun _ => True := by
  have htag' := (h.tag_eq fun hstr' => hstr (htag.symm.trans hstr')).trans htag
  refine Ends.of_error fun cause hcause => .inr (htext.refused ?_ ?_)
  · rwa [htag']
  · rw [htag']
    exact hread cause hcause

/-- Bytes that cannot be decoded are malformed. -/
theorem bytesOfText_ends (text : String) : Ends (Blames nodes) (bytesOfText text) fun _ => True := by
  rw [bytesOfText]
  split
  next =>
    split
    next => exact trivial
    next => exact .inl rfl
  next => exact .inl rfl

/-- A node that is to be a point in time. -/
theorem timestampOf_ends (h : Nodes.Derived nodes nodes')
    (htag : (nodes'.getD number default).tag = .timestamp) :
    Ends (Blames nodes) (timestampOf nodes' number) fun _ => True := by
  have htag' : (nodes.getD number default).tag = .timestamp := by
    refine (h.tag_eq ?_).trans htag
    rw [htag]
    exact nofun
  have hscalar : (nodes'.getD number default).tag.IsScalar := by
    rw [htag]
    exact trivial
  rw [timestampOf]
  refine (h.scalarText_ends hscalar).bind fun text htext => ?_
  split
  next text hscalar =>
    have hbefore := h.scalar_iff.mp hscalar
    split
    next hform => exact .inr (.scalar hbefore (htag' ▸ .timestampForm hform))
    next t hform =>
      refine (Ends.of_error fun cause hvalue => ?_).bind fun value _ => ?_
      · exact .inr (.scalar hbefore (htag' ▸ .timestamp hform hvalue))
      · cases value <;> exact trivial
  next hnone =>
    -- what has a text and is no scalar is a mapping
    have hmapping := htext.isMapping fun hscalar => hnone text (h.scalar_iff.mpr hscalar)
    exact .inr (.timestamp hmapping htag' htext)

namespace Building

/-! ### Nodes that are met -/

/-- How many nodes were not met yet. -/
def unmet (nodes : Array Node) (b : Building) : Nat :=
  ((Finset.range nodes.size).filter fun number => b.made.lookup number = none).card

/-- The nodes are what the nodes have become, and no more than so many collections wait or may come to wait. -/
structure Within (nodes : Array Node) (bound : Nat) (b : Building) : Prop where
  derived : Nodes.Derived nodes b.nodes
  waiting : b.waiting.length + b.unmet nodes ≤ bound

variable {b : Building} {bound : Nat}

/-- What is not met after a node was recorded was not met before, and is another node. -/
theorem lookup_record_eq_none_iff {v : Value} {other : Nat} :
    (b.record number v).2.made.lookup other = none ↔ other ≠ number ∧ b.made.lookup other = none := by
  have hmade : (b.record number v).2.made = (number, v) :: b.made := rfl
  rw [hmade, List.lookup_cons]
  by_cases heq : other = number
  · rw [beq_iff_eq.mpr heq]
    exact ⟨nofun, fun h => absurd heq h.1⟩
  · rw [beq_eq_false_iff_ne.mpr heq]
    exact ⟨fun hnone => ⟨heq, hnone⟩, And.right⟩

/-- Recording a node makes no other node unmet. -/
theorem unmet_record_le (v : Value) : (b.record number v).2.unmet nodes ≤ b.unmet nodes :=
  Finset.card_le_card (Finset.monotone_filter_right _ fun _ _ hnone => (lookup_record_eq_none_iff.mp hnone).2)

/-- And it makes one node less of them if the node was not met before. -/
theorem unmet_record_lt (hmet : b.made.lookup number = none) (hlt : number < nodes.size) (v : Value) :
    (b.record number v).2.unmet nodes < b.unmet nodes := by
  refine Finset.card_lt_card ((Finset.ssubset_iff_of_subset
    (Finset.monotone_filter_right _ fun _ _ hnone => (lookup_record_eq_none_iff.mp hnone).2)).mpr
    ⟨number, Finset.mem_filter.mpr ⟨Finset.mem_range.mpr hlt, hmet⟩, fun hmem => ?_⟩)
  exact (lookup_record_eq_none_iff.mp (Finset.mem_filter.mp hmem).2).1 rfl

namespace Within

/-- Recording a value keeps the bound. -/
theorem record (h : b.Within nodes bound) (number : Nat) (v : Value) :
    (b.record number v).2.Within nodes bound :=
  ⟨h.derived, (Nat.add_le_add_left (unmet_record_le v) _).trans h.waiting⟩

theorem addCell (h : b.Within nodes bound) (number : Nat) (c : Cell) :
    (b.addCell number c).2.Within nodes bound := by
  have hgraph : Within nodes bound { b with graph := (b.graph.add c).2 } := ⟨h.derived, h.waiting⟩
  exact hgraph.record number _

/-- What waits was not met before. -/
theorem addWaiting (h : b.Within nodes bound) (hmet : b.made.lookup number = none)
    (hlt : number < nodes.size) (c : Cell) : (b.addWaiting number c).2.Within nodes bound := by
  refine ⟨h.derived, ?_⟩
  have hless : (b.addCell number c).2.unmet nodes < b.unmet nodes :=
    unmet_record_lt (b := { b with graph := (b.graph.add c).2 }) hmet hlt _
  have hwaiting := h.waiting
  have hlength : (b.addWaiting number c).2.waiting.length = b.waiting.length + 1 := rfl
  have hunmet : (b.addWaiting number c).2.unmet nodes = (b.addCell number c).2.unmet nodes := rfl
  omega

end Within

/-! ### Building values -/

/-- The tag of a node that is there. -/
theorem lt_size_of_tag (h : Nodes.Derived nodes nodes') {tag : Tag}
    (htag : (nodes'.getD number default).tag = tag) (hstr : tag ≠ .str) (hdefault : tag ≠ default) :
    number < nodes.size := by
  have hbefore := (h.tag_eq fun hstr' => hstr (htag.symm.trans hstr')).trans htag
  by_contra hbeyond
  rw [Array.getD_eq_getD_getElem?, Array.getElem?_eq_none (Nat.le_of_not_lt hbeyond)] at hbefore
  exact hdefault hbefore.symm

/-- **The value of a node** exists unless the node is refused. -/
theorem value_ends (h : b.Within nodes bound) (number : Nat) :
    Ends (Blames nodes) (b.value number) fun read => read.2.Within nodes bound := by
  rw [value]
  split
  next => exact .ok h
  next hmet =>
    dsimp only
    -- scalars are read from their text, which has to be there
    have htext := @Nodes.Derived.scalarText_ends _ _ number h.derived
    -- a collection is a node that is there, and waits
    have hwaits {tag : Tag} (htag : (b.nodes.getD number default).tag = tag) (hstr : tag ≠ .str)
        (hdefault : tag ≠ default) (c : Cell) : (b.addWaiting number c).2.Within nodes bound :=
      h.addWaiting hmet (lt_size_of_tag h.derived htag hstr hdefault) c
    split
    next htag =>
      rw [htag] at htext
      cases hread : scalarText b.nodes (b.nodes.size + 1) number with
      | ok text => exact .ok (h.record _ _)
      | error e => exact (htext trivial).blame_of_error hread
    next htag =>
      rw [htag] at htext
      exact (htext trivial).bind fun text hhas =>
        (h.derived.read_ends htag nofun nofun hhas fun _ => .bool).bind fun _ _ => .ok (h.record _ _)
    next htag =>
      rw [htag] at htext
      exact (htext trivial).bind fun text hhas =>
        (h.derived.read_ends htag nofun nofun hhas fun _ => .int).bind fun _ _ => .ok (h.record _ _)
    next htag =>
      rw [htag] at htext
      exact (htext trivial).bind fun text hhas =>
        (h.derived.read_ends htag nofun nofun hhas fun _ => .float).bind fun _ _ => .ok (h.record _ _)
    next htag =>
      rw [htag] at htext
      exact (htext trivial).bind fun _ _ => .ok (h.record _ _)
    next htag =>
      rw [htag] at htext
      exact (htext trivial).bind fun text _ => (bytesOfText_ends text).bind fun _ _ => .ok (h.addCell _ _)
    next htag => exact (timestampOf_ends h.derived htag).bind fun _ _ => .ok (h.addCell _ _)
    next htag => exact .ok (hwaits htag nofun nofun _)
    next htag => exact .ok (hwaits htag nofun nofun _)
    next htag => exact .ok (hwaits htag nofun nofun _)
    next htag => exact .ok (hwaits htag nofun nofun _)
    next htag => exact .ok (hwaits htag nofun nofun _)
    -- the other tags have no value in this place
    all_goals exact .inl rfl

/-- The values of nodes, one after the other. -/
theorem values_ends (h : b.Within nodes bound) (numbers : List Nat) :
    Ends (Blames nodes) (b.values numbers) fun read => read.2.Within nodes bound := by
  induction numbers generalizing b with
  | nil => exact .ok h
  | cons number rest ih =>
    rw [values]
    exact (value_ends h number).bind fun _ h => (ih h).bind fun _ h => .ok h

/-- The table of keys and values. A key that can change is malformed. -/
theorem tableFrom_ends (h : b.Within nodes bound) (table : Table Value) (entries : List (Nat × Nat)) :
    Ends (Blames nodes) (b.tableFrom table entries) fun read => read.2.Within nodes bound := by
  induction entries generalizing b table with
  | nil => exact .ok h
  | cons entry rest ih =>
    obtain ⟨k, v⟩ := entry
    rw [tableFrom]
    refine (value_ends h k).bind fun key h => ?_
    dsimp only
    split
    next => exact .inl rfl
    next => exact (value_ends h v).bind fun value h => ih h _

/-- The pairs of an ordered mapping. -/
theorem pairsFrom_ends (h : b.Within nodes bound) (read : List Value) (numbers : List Nat) :
    Ends (Blames nodes) (b.pairsFrom read numbers) fun read => read.2.Within nodes bound := by
  induction numbers generalizing b read with
  | nil => exact .ok h
  | cons number rest ih =>
    rw [pairsFrom]
    split
    next k v _ =>
      refine (value_ends h k).bind fun key h => (value_ends h v).bind fun value h => ?_
      have hadded : Within nodes bound
          { value.2 with graph := (value.2.graph.add (.tuple [key.1, value.1])).2 } := ⟨h.derived, h.waiting⟩
      exact ih hadded _
    next => exact .inl rfl

/-- The entries that a mapping takes over are bounded by those that there are. -/
theorem allEntriesOf_ends (h : b.Within nodes bound) (number : Nat) :
    Ends (Blames nodes) (b.allEntriesOf number) fun read => read.2.Within nodes bound := by
  rw [allEntriesOf]
  split
  next => exact .inl rfl
  next hmapping =>
    rw [Bool.not_eq_true] at hmapping
    have hdepth := Nat.lt_succ_of_le (Nodes.pending_le_length b.nodes)
    have htaken := Nodes.takeOver_ends (Nodes.isMapping_of_entriesOf? hmapping) hdepth
    exact (htaken.weaken fun _ => .inl).bind fun _ htaken =>
      .ok ⟨h.derived.trans htaken.derived, h.waiting⟩

/-- A mapping, after what it takes over. -/
theorem tableOf_ends (h : b.Within nodes bound) (number : Nat) :
    Ends (Blames nodes) (b.tableOf number) fun read => read.2.Within nodes bound :=
  (allEntriesOf_ends h number).bind fun _ h => tableFrom_ends h _ _

/-- A set: its keys are looked up once more, and have their values by then. -/
theorem membersOf_ends (h : b.Within nodes bound) (number : Nat) :
    Ends (Blames nodes) (b.membersOf number) fun read => read.2.Within nodes bound :=
  (allEntriesOf_ends h number).bind fun _ h =>
    (tableFrom_ends h _ _).bind fun _ h => (values_ends h _).bind fun _ h => .ok h

/-- The content of a collection of any type. -/
theorem contentOf_ends (h : b.Within nodes bound) (number : Nat) :
    Ends (Blames nodes) (b.contentOf number) fun read => read.2.Within nodes bound := by
  rw [contentOf]
  dsimp only
  split
  -- sequences, ordered mappings, pairs, mappings and sets; any other content does not fit its tag
  next => exact (values_ends h _).bind fun _ h => .ok h
  next => exact (pairsFrom_ends h _ _).bind fun _ h => .ok h
  next => exact (pairsFrom_ends h _ _).bind fun _ h => .ok h
  next => exact (tableOf_ends h _).bind fun _ h => .ok h
  next => exact (membersOf_ends h _).bind fun _ h => .ok h
  next => exact .inl rfl

/-- One collection is filled. What it holds may wait in turn. -/
theorem fill_ends (h : b.Within nodes bound) (number label : Nat) :
    Ends (Blames nodes) (b.fill number label) fun filled => filled.Within nodes bound :=
  (contentOf_ends h number).bind fun _ h => .ok ⟨h.derived, h.waiting⟩

/-- **Filling all collections** comes to an end where there is a step for each that is to be filled now, and two
for each that waits or may come to wait: one in which it is filled and one in which it gets its turn. -/
theorem fillAll_ends {steps : Nat} {now : List (Nat × Nat)} (h : b.Within nodes bound)
    (hsteps : now.length + 2 * bound < steps) :
    Ends (Blames nodes) (fillAll steps b now) fun _ => True := by
  induction steps generalizing b now bound with
  | zero => exact absurd hsteps (Nat.not_lt_zero _)
  | succ steps ih =>
    -- on the steps, and by what is to be filled now
    cases now with
    | cons entry now =>
      rw [List.length_cons] at hsteps
      rw [fillAll]
      exact (fill_ends h _ _).bind fun _ h => ih h (by omega)
    | nil =>
      rw [fillAll]
      split
      next => exact trivial
      next hne =>
        have hwaiting := h.waiting
        have hpos : 0 < b.waiting.length :=
          List.length_pos_iff.mpr fun hnil => hne (by rw [hnil, List.reverse_nil])
        -- nothing is to be filled now, so all that waits gets its turn
        have hturn : Within nodes (bound - b.waiting.length) { b with waiting := [] } := by
          refine ⟨h.derived, ?_⟩
          have hunmet : unmet nodes { b with waiting := [] } = b.unmet nodes := rfl
          rw [List.length_nil]
          omega
        refine ih hturn ?_
        rw [List.length_nil] at hsteps
        rw [List.length_reverse]
        omega

end Building

/-- The value of nodes fails to exist for one of them. -/
theorem modelOfNodes_error {root : Nat} {e : LoadError} (h : modelOfNodes root nodes = .error e) :
    Blames nodes e := by
  have hfirst : Within nodes nodes.size { nodes } := by
    refine ⟨.refl nodes, ?_⟩
    have hall := Finset.card_filter_le (Finset.range nodes.size) fun number =>
      ([] : List (Nat × Value)).lookup number = none
    rw [Finset.card_range] at hall
    exact (Nat.zero_add _).trans_le hall
  have hends : Ends (Blames nodes) (modelOfNodes root nodes) fun _ => True :=
    (value_ends hfirst root).bind fun _ h => (fillAll_ends h (by simp)).bind fun _ _ => trivial
  exact hends.blame_of_error h

end HomeAutomaton.Yaml

namespace HomeAutomaton

open Yaml

/-- **Why a text has no value.** It is not well formed, or it has a number or a code that is out of bounds
where its tokens end, or one of its nodes is refused. -/
theorem Model.refused_of_error {text : String} {cause : LoadError} (h : Model.ofYaml text = .error cause) :
    cause = .malformed ∨ ((Token.ofText text).2 = some cause ∧ cause.OfForm) ∨
      ∃ root nodes, Composes text root nodes ∧ Refused nodes cause := by
  rcases Model.ofYaml_error h with hform | hform | ⟨root, nodes, hcomposes, hbuilding⟩
  · exact .inl hform
  · exact .inr (.inl hform)
  · exact (modelOfNodes_error hbuilding).imp_right fun hrefused => .inr ⟨root, nodes, hcomposes, hrefused⟩

end HomeAutomaton
