import HomeAutomaton.Data.Table
import HomeAutomaton.Proofs.Containment
import HomeAutomaton.Returns
import HomeAutomaton.Yaml.Load

/-!
# What a YAML text can hold

Reading a YAML text gives plain values alone: texts, numbers, truth values, dates and bytes, in lists, sets
and mappings whose keys can be looked up. An object may stand inside itself, since aliases are references,
but there is nothing else about such a value that other values do not have.

* `Building.Plain` is the invariant of reading, and every step of it keeps it up.
* `Model.ofYaml_plain` is the result.
-/

namespace HomeAutomaton

/-! ### Graphs that grow -/

namespace Graph

variable {g : Graph}

/-- There is nothing in an empty graph that is not plain. -/
theorem plain_empty : Plain {} := fun _ h => absurd h List.not_mem_nil

/-- One plain object more keeps a graph plain. -/
theorem Plain.add (h : g.Plain) {cell : Cell} (hcell : cell.Plain) :
    (g.add cell).1.IsPlain ∧ (g.add cell).2.Plain := by
  refine ⟨by simp [Graph.add, Value.IsPlain], fun other hother => ?_⟩
  rw [Graph.add, Array.toList_push, List.mem_append, List.mem_singleton] at hother
  rcases hother with hother | rfl
  · exact h other hother
  · exact hcell

/-- A plain object in the place of another keeps a graph plain. -/
theorem Plain.setIfInBounds (h : g.Plain) (label : Nat) {cell : Cell} (hcell : cell.Plain) :
    Plain ⟨g.cells.setIfInBounds label cell⟩ := by
  intro other hother
  rw [Array.toList_setIfInBounds] at hother
  rcases List.mem_or_eq_of_mem_set hother with hother | rfl
  · exact h other hother
  · exact hcell

end Graph

/-- The keys of a table can be looked up, and all that is in it is plain. -/
def Table.Plain (table : Table Value) : Prop :=
  ∀ e ∈ table, (e.1.isKey = true ∧ e.1.isPlain = true) ∧ e.2.IsPlain

/-- An entry is put into a table, or replaces the one of its key. -/
theorem Table.Plain.put {table : Table Value} (h : table.Plain) {key : Data} {v : Value}
    (hkey : key.isKey = true) (hplain : key.isPlain = true) (hv : v.IsPlain) :
    (table.put key v).Plain :=
  Table.forall_put (P := fun k => k.isKey = true ∧ k.isPlain = true) ⟨hkey, hplain⟩ hv h

namespace Cell

/-- A list of plain values is plain. -/
theorem plain_list {items : List Value} (h : ∀ v ∈ items, v.IsPlain) : (Cell.list items).Plain where
  notObject := by simp
  items := h
  keys := fun _ hk => absurd hk List.not_mem_nil

theorem plain_tuple {items : List Value} (h : ∀ v ∈ items, v.IsPlain) : (Cell.tuple items).Plain where
  notObject := by simp
  items := h
  keys := fun _ hk => absurd hk List.not_mem_nil

theorem plain_set {items : List Value} (h : ∀ v ∈ items, v.IsPlain) : (Cell.set items).Plain where
  notObject := by simp
  items := h
  keys := fun _ hk => absurd hk List.not_mem_nil

/-- A mapping whose keys can be looked up. -/
theorem plain_map {table : Table Value} (h : table.Plain) : (Cell.map table).Plain where
  notObject := by simp
  items := List.forall_mem_map.mpr fun e he => (h e he).2
  keys := List.forall_mem_map.mpr fun e he => (h e he).1

/-- An object without anything in it is plain. -/
theorem plain_of_leaf {cell : Cell} (h : cell.items = []) (hkeys : cell.keys = [])
    (hobject : ∀ attributes, cell ≠ .object attributes) : cell.Plain where
  notObject := hobject
  items := fun _ hv => absurd (h ▸ hv) List.not_mem_nil
  keys := fun _ hk => absurd (hkeys ▸ hk) List.not_mem_nil

/-- Bytes have nothing in them. -/
theorem plain_bytes (bs : List UInt8) : (Cell.bytes bs).Plain := plain_of_leaf rfl rfl (by simp)

theorem plain_date (d : Date) : (Cell.date d).Plain := plain_of_leaf rfl rfl (by simp)

theorem plain_dateTime (t : DateTime) : (Cell.dateTime t).Plain := plain_of_leaf rfl rfl (by simp)

end Cell

/-! ### Plain data in a graph -/

namespace Graph

mutual

/-- Plain data has a plain value. -/
theorem ofDataFrom_plain : ∀ (d : Data) {g : Graph}, g.Plain → d.isPlain = true →
    (g.ofDataFrom d).1.IsPlain ∧ (g.ofDataFrom d).2.Plain
  | .null, _, h, _ | .bool _, _, h, _ | .int _, _, h, _ | .float _, _, h, _ | .str _, _, h, _
  | .up _, _, h, _ => by
    rw [ofDataFrom]
    exact ⟨by simp [Value.IsPlain], h⟩
  | .bytes bs, _, h, _ => by
    rw [ofDataFrom]
    exact h.add (Cell.plain_bytes bs)
  | .date d, _, h, _ => by
    rw [ofDataFrom]
    exact h.add (Cell.plain_date d)
  | .dateTime t, _, h, _ => by
    rw [ofDataFrom]
    exact h.add (Cell.plain_dateTime t)
  -- what is inside is built first, on the graph so far, and the object is added behind it
  | .list items, _, h, hplain => by
    rw [Data.isPlain] at hplain
    obtain ⟨hitems, hgraph⟩ := itemsFrom_plain items h hplain
    rw [ofDataFrom]
    exact hgraph.add (Cell.plain_list hitems)
  | .tuple items, _, h, hplain => by
    rw [Data.isPlain] at hplain
    obtain ⟨hitems, hgraph⟩ := itemsFrom_plain items h hplain
    rw [ofDataFrom]
    exact hgraph.add (Cell.plain_tuple hitems)
  | .set items, _, h, hplain => by
    rw [Data.isPlain] at hplain
    obtain ⟨hitems, hgraph⟩ := itemsFrom_plain items h hplain
    rw [ofDataFrom]
    exact hgraph.add (Cell.plain_set hitems)
  | .map entries, _, h, hplain => by
    rw [Data.isPlain] at hplain
    obtain ⟨hentries, hgraph⟩ := entriesFrom_plain entries h hplain
    rw [ofDataFrom]
    exact hgraph.add (Cell.plain_map hentries)
  | .kind _, _, _, hplain | .object .., _, _, hplain => by simp [Data.isPlain] at hplain

/-- A list of plain data has plain values. -/
theorem itemsFrom_plain : ∀ (items : List Data) {g : Graph}, g.Plain → Data.allPlain items = true →
    (∀ v ∈ (g.itemsFrom items).1, v.IsPlain) ∧ (g.itemsFrom items).2.Plain
  | [], _, h, _ => by
    rw [itemsFrom]
    exact ⟨fun _ hv => absurd hv List.not_mem_nil, h⟩
  | d :: ds, _, h, hplain => by
    rw [Data.allPlain, Bool.and_eq_true] at hplain
    obtain ⟨hv, hgraph⟩ := ofDataFrom_plain d h hplain.1
    obtain ⟨hvs, hgraph'⟩ := itemsFrom_plain ds hgraph hplain.2
    rw [itemsFrom]
    exact ⟨List.forall_mem_cons.mpr ⟨hv, hvs⟩, hgraph'⟩

/-- Plain entries have plain values under keys that can be looked up. -/
theorem entriesFrom_plain : ∀ (entries : List (Data × Data)) {g : Graph}, g.Plain →
    Data.allPlainEntries entries = true →
    Table.Plain (g.entriesFrom entries).1 ∧ (g.entriesFrom entries).2.Plain
  | [], _, h, _ => by
    rw [entriesFrom]
    exact ⟨fun _ he => absurd he List.not_mem_nil, h⟩
  | (k, d) :: es, _, h, hplain => by
    simp only [Data.allPlainEntries, Bool.and_eq_true] at hplain
    obtain ⟨hv, hgraph⟩ := ofDataFrom_plain d h hplain.1.2
    obtain ⟨hes, hgraph'⟩ := entriesFrom_plain es hgraph hplain.2
    rw [entriesFrom]
    exact ⟨List.forall_mem_cons.mpr ⟨⟨hplain.1.1, hv⟩, hes⟩, hgraph'⟩

end

end Graph

/-! ### Reading a text -/

namespace Yaml.Building

variable {b b' : Building} {number : Nat} {v : Value}

/-- All objects that were made are plain, and so are the values of the nodes that were met. -/
structure Plain (b : Building) : Prop where
  graph : b.graph.Plain
  made : ∀ e ∈ b.made, e.2.IsPlain

/-- A plain value is noted for its node. -/
theorem Plain.record (h : b.Plain) (hv : v.IsPlain) :
    (b.record number v).1.IsPlain ∧ (b.record number v).2.Plain :=
  ⟨hv, h.graph, List.forall_mem_cons.mpr ⟨hv, h.made⟩⟩

/-- A plain object is made for a node. -/
theorem Plain.addCell (h : b.Plain) {c : Cell} (hc : c.Plain) :
    (b.addCell number c).1.IsPlain ∧ (b.addCell number c).2.Plain := by
  obtain ⟨hv, hgraph⟩ := h.graph.add hc
  have hb : Plain { b with graph := (b.graph.add c).2 } := ⟨hgraph, h.made⟩
  exact hb.record hv

/-- Its content may be filled in later. -/
theorem Plain.addWaiting (h : b.Plain) {c : Cell} (hc : c.Plain) :
    (b.addWaiting number c).1.IsPlain ∧ (b.addWaiting number c).2.Plain := by
  have hcell : (b.addCell number c).1.IsPlain ∧ (b.addCell number c).2.Plain := h.addCell hc
  exact ⟨hcell.1, hcell.2.graph, hcell.2.made⟩

/-- A timestamp is a date, with a time or without. -/
theorem plain_of_timestampOf {nodes : Array Node} {c : Cell}
    (h : timestampOf nodes number = .ok c) : c.Plain := by
  rw [timestampOf] at h
  obtain ⟨_, -, h⟩ := bind_eq_ok.mp h
  split at h
  next text =>
    split at h
    next => cases h
    next t =>
      obtain ⟨value, -, h⟩ := bind_eq_ok.mp h
      -- without a time it is a date
      cases value with
      | inl d =>
        obtain rfl := Except.ok.inj h
        exact Cell.plain_date d
      | inr t =>
        obtain rfl := Except.ok.inj h
        exact Cell.plain_dateTime t
  next => cases h

/-- The value of a node is plain. -/
theorem Plain.value (h : b.Plain) (hr : b.value number = .ok (v, b')) : v.IsPlain ∧ b'.Plain := by
  rw [Building.value] at hr
  -- a node met again has the value that was made the first time
  split at hr
  next w hmade =>
    obtain ⟨rfl, rfl⟩ := Prod.mk.inj (Except.ok.inj hr)
    obtain ⟨before, after, heq, -⟩ := List.lookup_eq_some_iff.mp hmade
    exact ⟨h.made _ (heq ▸ List.mem_append_right before List.mem_cons_self), h⟩
  next =>
    -- the value is a scalar, or an object with its content, or one that is to be filled
    have hscalar : ∀ {w : Value}, w.IsPlain → b.record number w = (v, b') → v.IsPlain ∧ b'.Plain := by
      intro w hw heq
      obtain ⟨rfl, rfl⟩ := Prod.mk.inj heq
      exact h.record hw
    have hcell : ∀ {c : Cell}, c.Plain → b.addCell number c = (v, b') → v.IsPlain ∧ b'.Plain := by
      intro c hc heq
      obtain ⟨rfl, rfl⟩ := Prod.mk.inj heq
      exact h.addCell hc
    have hwaiting : ∀ {c : Cell}, c.Plain → b.addWaiting number c = (v, b') →
        v.IsPlain ∧ b'.Plain := by
      intro c hc heq
      obtain ⟨rfl, rfl⟩ := Prod.mk.inj heq
      exact h.addWaiting hc
    cases htag : (b.nodes.getD number default).tag <;> simp only [htag] at hr
    case null =>
      cases htext : scalarText b.nodes (b.nodes.size + 1) number with
      | error e => rw [htext] at hr; cases hr
      | ok text =>
        rw [htext] at hr
        exact hscalar (by simp [Value.IsPlain]) (Except.ok.inj hr)
    case bool | int | float =>
      obtain ⟨text, -, hr⟩ := bind_eq_ok.mp hr
      obtain ⟨x, -, hr⟩ := bind_eq_ok.mp hr
      exact hscalar (by simp [Value.IsPlain]) (Except.ok.inj hr)
    case str =>
      obtain ⟨text, -, hr⟩ := bind_eq_ok.mp hr
      exact hscalar (by simp [Value.IsPlain]) (Except.ok.inj hr)
    case binary =>
      obtain ⟨text, -, hr⟩ := bind_eq_ok.mp hr
      obtain ⟨bs, -, hr⟩ := bind_eq_ok.mp hr
      exact hcell (Cell.plain_bytes bs) (Except.ok.inj hr)
    case timestamp =>
      obtain ⟨c, hc, hr⟩ := bind_eq_ok.mp hr
      exact hcell (plain_of_timestampOf hc) (Except.ok.inj hr)
    -- collections are empty at first and filled later
    case seq | omap | pairs =>
      exact hwaiting (Cell.plain_list fun _ hw => absurd hw List.not_mem_nil) (Except.ok.inj hr)
    case map =>
      exact hwaiting (Cell.plain_map fun _ he => absurd he List.not_mem_nil) (Except.ok.inj hr)
    case set =>
      exact hwaiting (Cell.plain_set fun _ hw => absurd hw List.not_mem_nil) (Except.ok.inj hr)
    case merge | value | unknown => cases hr

/-- The values of nodes are plain. -/
theorem Plain.values {numbers : List Nat} {vs : List Value} (h : b.Plain)
    (hr : b.values numbers = .ok (vs, b')) : (∀ v ∈ vs, v.IsPlain) ∧ b'.Plain := by
  -- along the nodes; the invariant of the building is handed on from one to the next
  induction numbers generalizing b vs with
  | nil =>
    obtain ⟨rfl, rfl⟩ := Prod.mk.inj (Except.ok.inj hr)
    exact ⟨fun _ hv => absurd hv List.not_mem_nil, h⟩
  | cons number numbers ih =>
    obtain ⟨⟨v, b₁⟩, hvalue, hr⟩ := bind_eq_ok.mp hr
    obtain ⟨⟨vs', b₂⟩, hvalues, hr⟩ := bind_eq_ok.mp hr
    obtain ⟨rfl, rfl⟩ := Prod.mk.inj (Except.ok.inj hr)
    obtain ⟨hv, hb₁⟩ := h.value hvalue
    obtain ⟨hvs, hb₂⟩ := ih hb₁ hvalues
    exact ⟨List.forall_mem_cons.mpr ⟨hv, hvs⟩, hb₂⟩

/-- The table of plain keys and values is plain. -/
theorem Plain.tableFrom {entries : List (Nat × Nat)} {table table' : Table Value} (h : b.Plain)
    (htable : table.Plain) (hr : b.tableFrom table entries = .ok (table', b')) :
    table'.Plain ∧ b'.Plain := by
  induction entries generalizing b table with
  | nil =>
    obtain ⟨rfl, rfl⟩ := Prod.mk.inj (Except.ok.inj hr)
    exact ⟨htable, h⟩
  | cons entry entries ih =>
    obtain ⟨k, n⟩ := entry
    obtain ⟨⟨key, b₁⟩, hkey, hr⟩ := bind_eq_ok.mp hr
    obtain ⟨hplain, hb₁⟩ := h.value hkey
    dsimp only at hr
    -- a key that cannot be looked up ends the reading
    by_cases hiskey : (b₁.graph.data key).isKey = true
    · rw [hiskey] at hr
      obtain ⟨⟨v, b₂⟩, hvalue, hr⟩ := bind_eq_ok.mp hr
      obtain ⟨hv, hb₂⟩ := hb₁.value hvalue
      exact ih hb₂ (htable.put hiskey (Graph.isPlain_dataWithin hb₁.graph _ _ hplain) hv) hr
    · rw [Bool.not_eq_true] at hiskey
      rw [hiskey] at hr
      cases hr

/-- The pairs of an ordered mapping are plain. -/
theorem Plain.pairsFrom {numbers : List Nat} {read vs : List Value} (h : b.Plain)
    (hread : ∀ v ∈ read, v.IsPlain) (hr : b.pairsFrom read numbers = .ok (vs, b')) :
    (∀ v ∈ vs, v.IsPlain) ∧ b'.Plain := by
  -- the pairs read so far are held in reverse
  induction numbers generalizing b read with
  | nil =>
    obtain ⟨rfl, rfl⟩ := Prod.mk.inj (Except.ok.inj hr)
    exact ⟨fun v hv => hread v (List.mem_reverse.mp hv), h⟩
  | cons number numbers ih =>
    rw [Building.pairsFrom] at hr
    -- an item has one entry, or the reading ends
    split at hr
    next k n hentries =>
      obtain ⟨⟨key, b₁⟩, hkey, hr⟩ := bind_eq_ok.mp hr
      obtain ⟨⟨v, b₂⟩, hvalue, hr⟩ := bind_eq_ok.mp hr
      obtain ⟨hkeyPlain, hb₁⟩ := h.value hkey
      obtain ⟨hv, hb₂⟩ := hb₁.value hvalue
      have hitems : ∀ w ∈ [key, v], w.IsPlain := by simp [hkeyPlain, hv]
      obtain ⟨hpair, hgraph⟩ := hb₂.graph.add (Cell.plain_tuple hitems)
      have hb₃ : Plain { b₂ with graph := (b₂.graph.add (.tuple [key, v])).2 } :=
        ⟨hgraph, hb₂.made⟩
      exact ih hb₃ (List.forall_mem_cons.mpr ⟨hpair, hread⟩) hr
    next => cases hr

/-- Merging entries changes the nodes, and no value that was made of them. -/
theorem Plain.allEntriesOf {entries : List (Nat × Nat)} (h : b.Plain)
    (hr : b.allEntriesOf number = .ok (entries, b')) : b'.Plain := by
  rw [Building.allEntriesOf] at hr
  split at hr
  next => cases hr
  next =>
    obtain ⟨⟨entries', nodes⟩, -, hr⟩ := bind_eq_ok.mp hr
    obtain ⟨-, rfl⟩ := Prod.mk.inj (Except.ok.inj hr)
    -- other nodes have the same values
    exact ⟨h.graph, h.made⟩

/-- The table of a mapping is plain. -/
theorem Plain.tableOf {table : Table Value} (h : b.Plain)
    (hr : b.tableOf number = .ok (table, b')) : table.Plain ∧ b'.Plain := by
  obtain ⟨⟨entries, b₁⟩, hentries, hr⟩ := bind_eq_ok.mp hr
  exact (h.allEntriesOf hentries).tableFrom (fun _ he => absurd he List.not_mem_nil) hr

/-- What is left of a list without its repetitions is in the list. -/
theorem mem_of_mem_eraseDupsBy {α : Type} {r : α → α → Bool} {a : α} {as : List α}
    (h : a ∈ as.eraseDupsBy r) : a ∈ as := by
  -- the rest of the list is what differs from its head
  induction hlength : as.length using Nat.strongRecOn generalizing as with
  | ind n ih =>
    cases as with
    | nil => exact h
    | cons a' as =>
      rw [List.eraseDupsBy_cons, List.mem_cons] at h
      rcases h with rfl | h
      · exact List.mem_cons_self
      · have hshort : ∀ p : α → Bool, (as.filter p).length < n := by
          intro p
          rw [← hlength, List.length_cons]
          exact Nat.lt_succ_of_le (List.length_filter_le p as)
        exact List.mem_cons_of_mem a' (List.mem_filter.mp (ih _ (hshort _) h rfl)).1

/-- The members of a set are plain. -/
theorem Plain.membersOf {vs : List Value} (h : b.Plain)
    (hr : b.membersOf number = .ok (vs, b')) : (∀ v ∈ vs, v.IsPlain) ∧ b'.Plain := by
  obtain ⟨⟨entries, b₁⟩, hentries, hr⟩ := bind_eq_ok.mp hr
  obtain ⟨⟨table, b₂⟩, htable, hr⟩ := bind_eq_ok.mp hr
  obtain ⟨⟨keys, b₃⟩, hkeys, hr⟩ := bind_eq_ok.mp hr
  obtain ⟨rfl, rfl⟩ := Prod.mk.inj (Except.ok.inj hr)
  obtain ⟨-, hb₂⟩ := (h.allEntriesOf hentries).tableFrom (fun _ he => absurd he List.not_mem_nil) htable
  obtain ⟨hvalues, hb₃⟩ := hb₂.values hkeys
  exact ⟨fun v hv => hvalues v (mem_of_mem_eraseDupsBy hv), hb₃⟩

/-- The content of a collection is plain. -/
theorem Plain.contentOf {c : Cell} (h : b.Plain) (hr : b.contentOf number = .ok (c, b')) :
    c.Plain ∧ b'.Plain := by
  rw [Building.contentOf] at hr
  -- a list of plain values is plain, however it came about
  have hlist : ∀ {vs : List Value} {b₁ : Building}, (∀ v ∈ vs, v.IsPlain) ∧ b₁.Plain →
      (Cell.list vs, b₁) = (c, b') → c.Plain ∧ b'.Plain := by
    intro vs b₁ hplain heq
    obtain ⟨rfl, rfl⟩ := Prod.mk.inj heq
    exact ⟨Cell.plain_list hplain.1, hplain.2⟩
  have hnone : ∀ v ∈ ([] : List Value), v.IsPlain := fun _ hv => absurd hv List.not_mem_nil
  dsimp only at hr
  -- by the tag: a list, the two lists of pairs, a mapping, a set
  split at hr
  next =>
    obtain ⟨⟨vs, b₁⟩, hvalues, hr⟩ := bind_eq_ok.mp hr
    exact hlist (h.values hvalues) (Except.ok.inj hr)
  next =>
    obtain ⟨⟨vs, b₁⟩, hpairs, hr⟩ := bind_eq_ok.mp hr
    exact hlist (h.pairsFrom hnone hpairs) (Except.ok.inj hr)
  next =>
    obtain ⟨⟨vs, b₁⟩, hpairs, hr⟩ := bind_eq_ok.mp hr
    exact hlist (h.pairsFrom hnone hpairs) (Except.ok.inj hr)
  next =>
    obtain ⟨⟨table, b₁⟩, htable, hr⟩ := bind_eq_ok.mp hr
    obtain ⟨rfl, rfl⟩ := Prod.mk.inj (Except.ok.inj hr)
    obtain ⟨hplain, hb₁⟩ := h.tableOf htable
    exact ⟨Cell.plain_map hplain, hb₁⟩
  next =>
    obtain ⟨⟨vs, b₁⟩, hmembers, hr⟩ := bind_eq_ok.mp hr
    obtain ⟨rfl, rfl⟩ := Prod.mk.inj (Except.ok.inj hr)
    obtain ⟨hvs, hb₁⟩ := h.membersOf hmembers
    exact ⟨Cell.plain_set hvs, hb₁⟩
  next => cases hr

/-- Filling one collection keeps everything plain. -/
theorem Plain.fill {label : Nat} (h : b.Plain) (hr : b.fill number label = .ok b') : b'.Plain := by
  obtain ⟨⟨c, b₁⟩, hcontent, hr⟩ := bind_eq_ok.mp hr
  obtain ⟨hc, hb₁⟩ := h.contentOf hcontent
  obtain rfl := Except.ok.inj hr
  exact ⟨hb₁.graph.setIfInBounds label hc, hb₁.made⟩

/-- Filling all collections keeps everything plain. -/
theorem Plain.fillAll {steps : Nat} {now : List (Nat × Nat)} (h : b.Plain)
    (hr : fillAll steps b now = .ok b') : b'.Plain := by
  -- on the steps left; collections that are met while others are filled wait for their turn
  induction steps generalizing b now with
  | zero => cases hr
  | succ steps ih =>
    cases now with
    | nil =>
      rw [Building.fillAll] at hr
      split at hr
      next =>
        obtain rfl := Except.ok.inj hr
        exact h
      next =>
        have hwaiting : Plain { b with waiting := [] } := ⟨h.graph, h.made⟩
        exact ih hwaiting hr
    | cons entry now =>
      obtain ⟨number, label⟩ := entry
      obtain ⟨b₁, hfill, hr⟩ := bind_eq_ok.mp hr
      exact ih (h.fill hfill) hr

end Yaml.Building

/-- The value of nodes is plain. -/
theorem Yaml.plain_of_modelOfNodes {root : Nat} {nodes : Array Yaml.Node} {m : Model}
    (h : Yaml.modelOfNodes root nodes = .ok m) : m.graph.Plain ∧ m.root.IsPlain := by
  obtain ⟨⟨v, b⟩, hroot, h⟩ := bind_eq_ok.mp h
  obtain ⟨b', hfill, h⟩ := bind_eq_ok.mp h
  obtain rfl := Except.ok.inj h
  -- at the start nothing has been made
  have hstart : Yaml.Building.Plain { nodes } :=
    ⟨Graph.plain_empty, fun _ he => absurd he List.not_mem_nil⟩
  obtain ⟨hv, hb⟩ := hstart.value hroot
  exact ⟨(hb.fillAll hfill).graph, hv⟩

/-- **A YAML text holds plain values alone.** -/
theorem Model.ofYaml_plain {text : String} {m : Model} (h : Model.ofYaml text = .ok m) :
    m.graph.Plain ∧ m.root.IsPlain := by
  rw [Model.ofYaml] at h
  dsimp only at h
  split at h
  next => cases h
  next =>
    obtain rfl := Except.ok.inj h
    exact ⟨Graph.plain_empty, by simp [Value.IsPlain]⟩
  next =>
    split at h
    next => cases h
    next => exact Yaml.plain_of_modelOfNodes h

end HomeAutomaton
