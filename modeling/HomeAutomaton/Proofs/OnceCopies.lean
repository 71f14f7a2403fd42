import HomeAutomaton.Data.Table
import HomeAutomaton.Proofs.Routes

/-!
# What is in the copy of a value

The copy of a value is made in one walk, in which the objects that were met are kept in a list. What is
left out in one place depends on all places before it. Still there is a simple rule: an object is written
out at the end of the first route to it, and left out at the end of all others.

The rule holds because of what the list is at any time. When it is the turn of the value at the end of a
route, the objects in the list are those with a route that comes before. That remains so from one item to
the next, and if an object is left out, everything inside of it has been met on shorter ways
(`Graph.Reaches.shortcut`).

* `Cell.copy` is the copy of one object, and `Graph.visitOnce_ref` one step of the walk.
* `Graph.Copied` says what the copy of a value is, `Graph.Copied.unique` that it says so completely.
* `Graph.visits` says what a visit does, and `Graph.visits_root` what the whole walk does.
* `Graph.copied_once` is the result for values whose keys are texts.
-/

namespace HomeAutomaton

open Relation

/-! ### The copy of one object -/

/-- The entries of a copy: those whose values are in it. -/
def presentEntries (keys : List Data) (copies : List (Option Data)) : List (Data × Data) :=
  (keys.zip copies).filterMap fun e => e.2.map fun copy => (e.1, copy)

/-- The keys under which the items of an object stand in its copy, where it becomes a mapping. -/
def Cell.exportKeys : Cell → List Data
  | .map entries => entries.map fun e => e.1.exportKey
  | .object attributes => (Graph.publicAttributes attributes).map fun a => .str a.1
  | _ => []

/-- The copy of an object, given the copies of its items, of which some are left out. Its entries are put
into a mapping one after the other. -/
def Cell.copy (cell : Cell) (copies : List (Option Data)) : Data :=
  match cell with
  | .list _ | .tuple _ | .set _ => .list (copies.map fun copy => copy.getD .null)
  | .map _ | .object _ => .map (Data.exportEntries (presentEntries cell.exportKeys copies))
  | .bytes bs => .str (Data.bytes bs).text
  | .date d => .str (Data.date d).text
  | .dateTime t => .str (Data.dateTime t).text

/-- The keys of the object are different texts, if it has any. -/
def Cell.TextKeyed : Cell → Prop
  | .map entries => (∀ e ∈ entries, e.1.IsText) ∧ (entries.map (·.1)).Nodup
  | .object attributes => (attributes.map (·.1)).Nodup
  | _ => True

/-- The copy of an object with different texts as keys: as many items as there are, with null for those that
are left out, or the entries that are not left out, in their order. -/
def Cell.outline (cell : Cell) (copies : List (Option Data)) : Data :=
  match cell with
  | .list _ | .tuple _ | .set _ => .list (copies.map fun copy => copy.getD .null)
  | .map entries => .map (presentEntries (entries.map (·.1)) copies)
  | .object attributes =>
    .map (presentEntries ((Graph.publicAttributes attributes).map fun a => .str a.1) copies)
  | .bytes bs => .str (Data.bytes bs).text
  | .date d => .str (Data.date d).text
  | .dateTime t => .str (Data.dateTime t).text

/-- The keys in a copy are some of the keys. -/
theorem presentEntries_keys (keys : List Data) (copies : List (Option Data)) :
    ((presentEntries keys copies).map (·.1)).Sublist keys := by
  induction keys generalizing copies with
  | nil => simp [presentEntries]
  | cons key keys ih =>
    cases copies with
    | nil => simp [presentEntries]
    | cons copy? copies =>
      cases copy? with
      | none => exact (ih copies).cons key
      | some copy => exact (ih copies).cons_cons key

/-- Pairs with different texts as keys are a mapping already. -/
theorem Table.ofPairs_eq {α : Type} {pairs : List (Data × α)} (htext : ∀ e ∈ pairs, e.1.IsText)
    (hnodup : (pairs.map (·.1)).Nodup) : Table.ofPairs pairs = pairs := by
  -- none of the keys is known when it is put into the table
  have hputAll : ∀ table : Table α, (table.map (·.1) ++ pairs.map (·.1)).Nodup →
      Table.putAll table pairs = table ++ pairs := by
    clear hnodup
    induction pairs with
    | nil => simp [putAll]
    | cons e pairs ih =>
      intro table hnodup
      obtain ⟨hkey, hrest⟩ := List.forall_mem_cons.mp htext
      rw [List.map_cons] at hnodup
      have hnew : ∀ e' ∈ table, e'.1.same e.1 = false := by
        intro e' he'
        rw [Bool.eq_false_iff, ne_eq, Data.same_iff' hkey]
        intro heq
        exact (List.nodup_append.mp hnodup).2.2 e'.1 (List.mem_map_of_mem he') e.1 List.mem_cons_self heq
      rw [putAll_cons, put_of_new hnew, ih hrest]
      · simp
      · simpa using hnodup
  exact hputAll [] (by simpa using hnodup)

/-- So they are the entries of a copy as they are. -/
theorem Data.exportEntries_eq {pairs : List (Data × Data)} (htext : ∀ e ∈ pairs, e.1.IsText)
    (hnodup : (pairs.map (·.1)).Nodup) : Data.exportEntries pairs = pairs := by
  rw [exportEntries, Table.ofPairs_eq htext hnodup, ite_self]

/-- A text is the key of its entry as it is. -/
theorem Data.exportKey_of_isText {key : Data} (h : key.IsText) : key.exportKey = key := by
  rw [exportKey, h.hasLongNumber]
  obtain ⟨s, rfl⟩ := h
  rfl

/-- Where keys are different texts, nothing is overwritten. -/
theorem Cell.copy_eq_outline {cell : Cell} (h : cell.TextKeyed) (copies : List (Option Data)) :
    cell.copy copies = cell.outline copies := by
  have hmapping : ∀ keys : List Data, (∀ k ∈ keys, k.IsText) → keys.Nodup →
      Data.exportEntries (presentEntries keys copies) = presentEntries keys copies := by
    intro keys htext hnodup
    have hsub := presentEntries_keys keys copies
    exact Data.exportEntries_eq (fun e he => htext e.1 (hsub.subset (List.mem_map_of_mem he)))
      (hnodup.sublist hsub)
  -- keys are exported as they are, and so are the names of attributes
  cases cell with
  | map entries =>
    have hkeys : (Cell.map entries).exportKeys = entries.map (·.1) :=
      List.map_congr_left fun e he => Data.exportKey_of_isText (h.1 e he)
    rw [copy, outline, hkeys, hmapping _ (List.forall_mem_map.mpr h.1) h.2]
  | object attributes =>
    have hnames : ((Graph.publicAttributes attributes).map fun a => Data.str a.1).Nodup := by
      have hpublic : ((Graph.publicAttributes attributes).map (·.1)).Nodup :=
        h.sublist (List.filter_sublist.map _)
      have hinjective : Function.Injective Data.str := fun _ _ heq => Data.str.inj heq
      have htexts := hpublic.map hinjective
      rwa [List.map_map] at htexts
    have htext : ∀ k ∈ (Graph.publicAttributes attributes).map fun a => Data.str a.1, k.IsText :=
      List.forall_mem_map.mpr fun a _ => Data.isText_str a.1
    rw [copy, outline, exportKeys, hmapping _ htext hnames]
  | _ => rfl

/-- The copy of a value that is no reference. -/
def Value.scalar? : Value → Option Data
  | .null => some .null
  | .bool b => some (.bool b)
  | .int n => some (.int n)
  | .float x => some (.float x)
  | .str s => some (.str s)
  | .kind k => some (.str k.name)
  | .ref _ => none

namespace Graph

variable {g : Graph}

/-! ### One step of the walk -/

/-- Sequences are gone through item by item. -/
theorem mapM_items {α : Type} (visit : α → StateM (List Identity) (Option Data)) (vs : List α) :
    (vs.mapM fun v => do pure ((← visit v).getD .null)) =
      (fun copies => copies.map fun copy => copy.getD .null) <$> vs.mapM visit := by
  induction vs with
  | nil => simp
  | cons v vs ih =>
    rw [List.mapM_cons, List.mapM_cons, ih]
    simp only [bind_assoc, pure_bind, map_bind, map_pure, bind_map_left, List.map_cons]

theorem mapM_entries {α : Type} (visit : α → StateM (List Identity) (Option Data))
    (es : List (Data × α)) :
    (es.mapM fun e => do pure ((← visit e.2).map fun copy => (e.1, copy))) =
      (fun copies => ((es.map (·.1)).zip copies).map fun e => e.2.map fun copy => (e.1, copy)) <$>
        (es.map (·.2)).mapM visit := by
  induction es with
  | nil => simp
  | cons e es ih =>
    rw [List.map_cons, List.map_cons, List.mapM_cons, List.mapM_cons, ih]
    simp only [bind_assoc, pure_bind, map_bind, map_pure, bind_map_left, List.zip_cons_cons, List.map_cons]

/-- **One step of the walk.** An object that was met before is left out. Otherwise it is met now, and copied
from the copies of its items. -/
theorem visitOnce_ref {label depth : Nat} {cell : Cell} (hcell : g.cell? label = some cell)
    (seen : List Identity) :
    (g.visitOnce (depth + 1) (.ref label)).run seen =
      if cell.identity label ∈ seen then (none, seen)
      else
        let visited := (cell.items.mapM (g.visitOnce depth)).run (cell.identity label :: seen)
        (some (cell.copy visited.1), visited.2) := by
  by_cases hmem : cell.identity label ∈ seen
  · rw [visitOnce, hcell, if_pos hmem]
    simp only [StateT.run_bind, StateT.run_get, pure_bind, List.contains_iff_mem, hmem, if_true]
    rfl
  · rw [visitOnce, hcell, if_neg hmem]
    simp only [StateT.run_bind, StateT.run_get, StateT.run_set, pure_bind, List.contains_iff_mem, hmem,
      if_false]
    -- each kind of object goes through its items in its own way
    cases cell with
    | list vs | tuple vs | set vs =>
      dsimp only
      rw [mapM_items]
      rfl
    | map es =>
      dsimp only
      rw [mapM_entries, List.map_map, List.map_map]
      simp only [bind_map_left, List.filterMap_map]
      rfl
    | object attributes =>
      dsimp only
      rw [mapM_entries, List.map_map, List.map_map]
      simp only [bind_map_left, List.filterMap_map]
      rfl
    | bytes | date | dateTime => rfl

/-! ### What a copy is -/

/-- What the copy of the value at the end of a route is, and which objects are written out in it, in their
order. An object is written out in full at the end of the first route to it, and left out at all others.
What is written for an object, given the copies of its items, is up to `write`. -/
inductive Copied (g : Graph) (write : Cell → List (Option Data) → Data) (root : Value) :
    List Nat → Value → Option Data → List Identity → Prop
  | scalar {route : List Nat} {v : Value} {d : Data} :
      v.scalar? = some d → g.Copied write root route v (some d) []
  | leftOut {route : List Nat} {label : Nat} :
      ¬ g.First root route → g.Copied write root route (.ref label) none []
  | inFull {route : List Nat} {label : Nat} {cell : Cell} {copies : List (Option Data)}
      {inside : List (List Identity)} :
      g.First root route → g.cell? label = some cell →
      copies.length = cell.items.length → inside.length = cell.items.length →
      (∀ i v copy ids, cell.items[i]? = some v → copies[i]? = some copy → inside[i]? = some ids →
        g.Copied write root (route ++ [i]) v copy ids) →
      g.Copied write root route (.ref label) (some (write cell copies))
        (cell.identity label :: inside.flatten)

/-! ### The objects that were met -/

/-- The objects that were met are those to which a route leads that comes before this one. -/
def MetBefore (g : Graph) (root : Value) (route : List Nat) (seen : List Identity) : Prop :=
  ∀ id, id ∈ seen ↔ ∃ other, other < route ∧ g.Reaches root other id

/-- The objects that were met are those to which a route leads that comes before this one, or continues
it. -/
def MetThrough (g : Graph) (root : Value) (route : List Nat) (seen : List Identity) : Prop :=
  ∀ id, id ∈ seen ↔ ∃ other, (other < route ∨ route <+: other) ∧ g.Reaches root other id

variable {root : Value} {route : List Nat} {around seen : List Identity}

/-- Nothing was met at first. -/
theorem MetBefore.start : g.MetBefore root [] [] := by
  intro id
  simp [List.not_lt_nil]

/-- When an item has been visited, it is the turn of the next one. -/
theorem MetThrough.next {i : Nat} (h : g.MetThrough root (route ++ [i]) seen) :
    g.MetBefore root (route ++ [i + 1]) seen := by
  intro id
  rw [h id]
  simp only [lt_concat_succ_iff]

/-- When an object is met, it is the turn of its first item. -/
theorem MetBefore.enter {id : Identity} (h : g.MetBefore root route seen)
    (hreaches : g.Reaches root route id) : g.MetBefore root (route ++ [0]) (id :: seen) := by
  intro id'
  rw [List.mem_cons, h id']
  simp only [lt_concat_zero_iff, or_and_right, exists_or, exists_eq_left]
  rw [or_comm]
  exact or_congr_right ⟨fun heq => heq ▸ hreaches, fun hsame => hsame.unique hreaches⟩

/-- When all items have been visited, so has the object. -/
theorem MetBefore.leave {label : Nat} {cell : Cell}
    (hleads : g.Leads root route (.ref label) around) (hcell : g.cell? label = some cell)
    (h : g.MetBefore root (route ++ [cell.items.length]) seen) : g.MetThrough root route seen := by
  intro id
  rw [h id]
  refine exists_congr fun other => and_congr_left fun hreaches => ?_
  rw [lt_concat_iff]
  refine or_congr_right ⟨?_, ?_⟩
  · rintro (rfl | ⟨j, -, hstart⟩)
    · exact List.prefix_rfl
    · exact (List.prefix_append _ _).trans hstart
  · rintro ⟨more, rfl⟩
    cases more with
    | nil => exact .inl (List.append_nil _)
    | cons j more =>
      have hsplit : route ++ j :: more = route ++ [j] ++ more := by simp
      rw [hsplit] at hreaches ⊢
      -- the route goes into an item that there is
      obtain ⟨_, hitem⟩ := hreaches.start
      obtain ⟨label', cell', _, hleads', hcell', -, hlt⟩ := hitem.of_concat
      obtain rfl := Value.ref.inj (hleads.unique hleads').1
      obtain rfl := Option.some.inj (hcell.symm.trans hcell')
      exact .inr ⟨j, hlt, List.prefix_append _ _⟩

/-- A value that is no object is visited without meeting any. -/
theorem MetBefore.through_of_not_reaches (h : g.MetBefore root route seen)
    (hnone : ∀ id, ¬ g.Reaches root route id) : g.MetThrough root route seen := by
  intro id
  rw [h id]
  refine exists_congr fun other => and_congr_left fun hreaches => ?_
  refine ⟨.inl, fun hother => hother.resolve_right ?_⟩
  rintro ⟨more, rfl⟩
  obtain ⟨id', hid'⟩ := hreaches.start
  exact hnone id' hid'

/-- An object that was met before is left out, and what is inside of it has been met as well. -/
theorem MetBefore.through_of_mem {id : Identity} (h : g.MetBefore root route seen)
    (hreaches : g.Reaches root route id) (hid : id ∈ seen) : g.MetThrough root route seen := by
  obtain ⟨earlier, hlt, hearlier⟩ := (h id).mp hid
  have hparts := hreaches.parts hearlier hlt
  intro id'
  rw [h id']
  refine ⟨fun ⟨other, hother, hother'⟩ => ⟨other, .inl hother, hother'⟩, ?_⟩
  rintro ⟨other, hother | ⟨more, rfl⟩, hother'⟩
  · exact ⟨other, hother, hother'⟩
  · obtain ⟨short, hshort, hbefore⟩ := hreaches.shortcut hearlier hparts more hother'
    exact ⟨short, lt_iff_parts.mpr (.inr hbefore), hshort⟩

/-! ### The walk -/

/-- Only objects in which something stands are around a value, and there are no more of them than objects
of the graph. -/
theorem Leads.length_around_le {v : Value} (h : g.Leads root route v around) (hnodup : around.Nodup) :
    around.length ≤ g.cells.size := by
  have hnumbers : around ⊆ (List.range g.cells.size).map .number := by
    clear hnodup
    induction h with
    | here => exact List.nil_subset _
    | into hleads hcell hitem ih =>
      refine List.cons_subset.mpr ⟨?_, ih⟩
      rw [Cell.identity_of_items (List.ne_nil_of_mem (List.mem_of_getElem? hitem))]
      exact List.mem_map_of_mem (List.mem_range.mpr (Array.getElem?_eq_some_iff.mp hcell).1)
  simpa using hnodup.length_le_of_subset hnumbers

/-- What a visit of the value at the end of a route does: it gives the copy, adds the objects that are
written out in it to those that were met, and no object twice. -/
structure Visits (g : Graph) (root : Value) (route : List Nat) (v : Value) (seen : List Identity)
    (result : Option Data × List Identity) : Prop where
  intro ::
  visited : ∃ ids, result.2 = ids.reverse ++ seen ∧ g.Copied Cell.copy root route v result.1 ids
  met : g.MetThrough root route result.2
  nodup : result.2.Nodup

/-- The same for the items of an object, from the one at `first` on. -/
structure VisitsItems (g : Graph) (root : Value) (route : List Nat) (first : Nat) (vs : List Value)
    (seen : List Identity) (result : List (Option Data) × List Identity) : Prop where
  visited : ∃ inside : List (List Identity), inside.length = vs.length ∧ result.1.length = vs.length ∧
    result.2 = inside.flatten.reverse ++ seen ∧
    ∀ i v copy ids, vs[i]? = some v → result.1[i]? = some copy → inside[i]? = some ids →
      g.Copied Cell.copy root (route ++ [first + i]) v copy ids
  met : g.MetBefore root (route ++ [first + vs.length]) result.2
  nodup : result.2.Nodup

/-- A list is run item by item. -/
theorem run_mapM_cons {α β σ : Type} (f : α → StateM σ β) (a : α) (as : List α) (s : σ) :
    ((a :: as).mapM f).run s =
      (((f a).run s).1 :: ((as.mapM f).run ((f a).run s).2).1, ((as.mapM f).run ((f a).run s).2).2) := by
  rw [List.mapM_cons]
  rfl

/-- The items of an object are visited one after the other. -/
theorem visitsItems_of_visits {depth first : Nat} {vs : List Value}
    (hvisit : ∀ i v seen, vs[i]? = some v → g.MetBefore root (route ++ [first + i]) seen → seen.Nodup →
      g.Visits root (route ++ [first + i]) v seen ((g.visitOnce depth v).run seen))
    (hseen : g.MetBefore root (route ++ [first]) seen) (hnodup : seen.Nodup) :
    g.VisitsItems root route first vs seen ((vs.mapM (g.visitOnce depth)).run seen) := by
  -- along the items; what one of them meets, the next ones have met before
  induction vs generalizing first seen with
  | nil => exact ⟨⟨[], rfl, rfl, rfl, fun i v copy ids hv => nomatch hv⟩, hseen, hnodup⟩
  | cons v vs ih =>
    have hfirst := hvisit 0 v seen rfl hseen hnodup
    rw [run_mapM_cons]
    generalize (g.visitOnce depth v).run seen = visited at hfirst
    obtain ⟨copy, met⟩ := visited
    obtain ⟨⟨ids, hmet, hcopied⟩, hthrough, hmetNodup⟩ := hfirst
    have hrest : g.VisitsItems root route (first + 1) vs met ((vs.mapM (g.visitOnce depth)).run met) := by
      refine ih (fun i w seen hw => ?_) hthrough.next hmetNodup
      have hnext := hvisit (i + 1) w seen hw
      rwa [Nat.add_comm i 1, ← Nat.add_assoc] at hnext
    generalize (vs.mapM (g.visitOnce depth)).run met = visited at hrest
    obtain ⟨copies, all⟩ := visited
    obtain ⟨⟨inside, hinside, hcopies, hall, hitems⟩, hbefore, hallNodup⟩ := hrest
    refine ⟨⟨ids :: inside, ?_, ?_, ?_, ?_⟩, ?_, hallNodup⟩
    · rw [List.length_cons, List.length_cons, hinside]
    · exact congrArg (· + 1) hcopies
    · dsimp only at hmet hall ⊢
      rw [hall, hmet]
      simp
    · intro i w copy' ids' hw hcopy' hids'
      -- the first item, or one of the others, whose place is one less there
      cases i with
      | zero =>
        obtain rfl := Option.some.inj hw
        obtain rfl := Option.some.inj hcopy'
        obtain rfl := Option.some.inj hids'
        exact hcopied
      | succ i =>
        have hitem := hitems i w copy' ids' hw hcopy' hids'
        rwa [Nat.add_right_comm] at hitem
    · rwa [List.length_cons, Nat.add_comm vs.length 1, ← Nat.add_assoc]

/-- A value that is no object is visited without meeting any. -/
theorem visits_of_scalar (depth : Nat) {v : Value} {d : Data} (hscalar : v.scalar? = some d)
    (hleads : g.Leads root route v around) (hseen : g.MetBefore root route seen) (hnodup : seen.Nodup) :
    g.Visits root route v seen ((g.visitOnce depth v).run seen) := by
  have hrun : (g.visitOnce depth v).run seen = (some d, seen) := by
    cases v with
    | ref label => cases hscalar
    | _ =>
      obtain rfl := Option.some.inj hscalar
      rw [visitOnce]
      rfl
  rw [hrun]
  refine ⟨⟨[], rfl, .scalar hscalar⟩, hseen.through_of_not_reaches fun id hid => ?_, hnodup⟩
  obtain ⟨label, cell, _, hobject, -⟩ := hid
  obtain ⟨rfl, -⟩ := hleads.unique hobject
  cases hscalar

/-- An object that was met before is left out. -/
theorem visits_of_met {label : Nat} {cell : Cell} (hcell : g.cell? label = some cell)
    (hleads : g.Leads root route (.ref label) around) (haround : around.Nodup)
    (hseen : g.MetBefore root route seen) (hnodup : seen.Nodup) (hmem : cell.identity label ∈ seen) :
    g.Visits root route (.ref label) seen (none, seen) := by
  have hend : ∀ id, g.Reaches root route id → id = cell.identity label ∧ (id :: around).Nodup := by
    rintro id ⟨label', cell', around', hobject, hcell', rfl, hdifferent⟩
    obtain ⟨heq, rfl⟩ := hleads.unique hobject
    obtain rfl := Value.ref.inj heq
    obtain rfl := Option.some.inj (hcell.symm.trans hcell')
    exact ⟨rfl, hdifferent⟩
  obtain ⟨earlier, hlt, hearlier⟩ := (hseen _).mp hmem
  -- there is an earlier route to it, so this one is not the first
  refine ⟨⟨[], rfl, .leftOut ?_⟩, ?_, hnodup⟩
  · rintro ⟨id, hid, hleast⟩
    obtain ⟨rfl, -⟩ := hend id hid
    exact hleast earlier hearlier hlt
  · -- it may be an object that is around the place itself
    by_cases hin : cell.identity label ∈ around
    · refine hseen.through_of_not_reaches fun id hid => ?_
      obtain ⟨rfl, hdifferent⟩ := hend id hid
      exact (List.nodup_cons.mp hdifferent).1 hin
    · exact hseen.through_of_mem
        ⟨label, cell, around, hleads, hcell, rfl, List.nodup_cons.mpr ⟨hin, haround⟩⟩ hmem

/-- An object that is new is around none of the places before. -/
theorem MetBefore.not_mem_around {v : Value} {id : Identity} (hseen : g.MetBefore root route seen)
    (hleads : g.Leads root route v around) (haround : around.Nodup) (hnew : id ∉ seen) : id ∉ around := by
  intro hin
  obtain ⟨start, hstart, hne, hreaches⟩ := hleads.exists_start haround hin
  exact hnew ((hseen _).mpr ⟨start, lt_iff_parts.mpr (.inl ⟨hstart, hne⟩), hreaches⟩)

/-- An object is visited item by item, unless it was met before. -/
theorem visits_of_cell {depth label : Nat} {cell : Cell} (hcell : g.cell? label = some cell)
    (hleads : g.Leads root route (.ref label) around) (haround : around.Nodup)
    (hseen : g.MetBefore root route seen) (hnodup : seen.Nodup)
    (hitems : ∀ i v seen, cell.items[i]? = some v → (cell.identity label :: around).Nodup →
      g.MetBefore root (route ++ [i]) seen → seen.Nodup →
      g.Visits root (route ++ [i]) v seen ((g.visitOnce depth v).run seen)) :
    g.Visits root route (.ref label) seen ((g.visitOnce (depth + 1) (.ref label)).run seen) := by
  rw [visitOnce_ref hcell]
  by_cases hmem : cell.identity label ∈ seen
  · rw [if_pos hmem]
    exact visits_of_met hcell hleads haround hseen hnodup hmem
  · rw [if_neg hmem]
    have hdifferent : (cell.identity label :: around).Nodup :=
      List.nodup_cons.mpr ⟨hseen.not_mem_around hleads haround hmem, haround⟩
    have hreaches : g.Reaches root route (cell.identity label) :=
      ⟨label, cell, around, hleads, hcell, rfl, hdifferent⟩
    -- an object that is new has no earlier route
    have hfirst : g.First root route :=
      ⟨_, hreaches, fun other hother hlt => hmem ((hseen _).mpr ⟨other, hlt, hother⟩)⟩
    -- its items are visited with the object among what was met
    have hvisited : g.VisitsItems root route 0 cell.items (cell.identity label :: seen)
        ((cell.items.mapM (g.visitOnce depth)).run (cell.identity label :: seen)) := by
      refine visitsItems_of_visits (fun i v seen hv => ?_) (hseen.enter hreaches)
        (List.nodup_cons.mpr ⟨hmem, hnodup⟩)
      rw [Nat.zero_add]
      exact hitems i v seen hv hdifferent
    obtain ⟨⟨inside, hinside, hcopies, hmet, hcopied⟩, hbefore, hmetNodup⟩ := hvisited
    simp only [Nat.zero_add] at hcopied hbefore
    refine ⟨⟨cell.identity label :: inside.flatten, ?_, ?_⟩, hbefore.leave hleads hcell, hmetNodup⟩
    · rw [List.reverse_cons, List.append_assoc]
      exact hmet
    · exact .inFull hfirst hcell hcopies hinside hcopied

/-- **What a visit does.** If the objects that were met are those with routes that come before, then the
copy of the value at the end of a route is what it is to be, and the objects that have been met after it are
those with routes that come before the next position. -/
theorem visits (depth : Nat) {v : Value} (hleads : g.Leads root route v around) (haround : around.Nodup)
    (hdepth : g.cells.size < depth + around.length) (hseen : g.MetBefore root route seen)
    (hnodup : seen.Nodup) : g.Visits root route v seen ((g.visitOnce depth v).run seen) := by
  -- on the depth, which is more than there are objects not around the place
  induction depth generalizing route v around seen with
  | zero =>
    have hlength := hleads.length_around_le haround
    omega
  | succ depth ih =>
    cases hscalar : v.scalar? with
    | some d => exact visits_of_scalar _ hscalar hleads hseen hnodup
    | none =>
      cases v with
      | ref label =>
        cases hcell : g.cell? label with
        | none =>
          -- a reference to nothing leads to no object
          have hnone : ∀ id, ¬ g.Reaches root route id := by
            rintro id ⟨label', cell, _, hobject, hcell', -⟩
            obtain rfl := Value.ref.inj (hleads.unique hobject).1
            rw [hcell] at hcell'
            cases hcell'
          have hrun : (g.visitOnce (depth + 1) (.ref label)).run seen = (none, seen) := by
            rw [visitOnce, hcell]
            rfl
          rw [hrun]
          exact ⟨⟨[], rfl, .leftOut fun ⟨id, hid, _⟩ => hnone id hid⟩, hseen.through_of_not_reaches hnone, hnodup⟩
        | some cell =>
          refine visits_of_cell hcell hleads haround hseen hnodup
            fun i w seen hw hdifferent hbefore hnodup => ?_
          refine ih (.into hleads hcell hw) hdifferent ?_ hbefore hnodup
          rw [List.length_cons]
          omega
      | _ => cases hscalar

/-- **The walk through a value.** Its copy is what it is to be, and the objects that are written out in it
are all those to which there is a route. -/
theorem visits_root (g : Graph) (v : Value) {depth : Nat} (hdepth : g.cells.size < depth) :
    ∃ ids, ((g.visitOnce depth v).run []).2 = ids.reverse ∧
      g.Copied Cell.copy v [] v ((g.visitOnce depth v).run []).1 ids ∧ ids.Nodup ∧
      ∀ id, id ∈ ids ↔ ∃ route, g.Reaches v route id := by
  obtain ⟨⟨ids, hmet, hcopied⟩, hthrough, hnodup⟩ :=
    visits depth (.here : g.Leads v [] v []) List.nodup_nil (by simpa using hdepth) .start List.nodup_nil
  rw [List.append_nil] at hmet
  refine ⟨ids, hmet, hcopied, ?_, fun id => ?_⟩
  · rwa [hmet, List.nodup_reverse] at hnodup
  · have hid := hthrough id
    rw [hmet, List.mem_reverse] at hid
    rw [hid]
    simp

/-! ### Copies -/

/-- What the copy of a value is, and what is written out in it, is determined. -/
theorem Copied.unique {write : Cell → List (Option Data) → Data} {v : Value} {copy copy' : Option Data}
    {ids ids' : List Identity} (h : g.Copied write root route v copy ids)
    (h' : g.Copied write root route v copy' ids') : copy = copy' ∧ ids = ids' := by
  -- on one of the two derivations
  induction h generalizing copy' ids' with
  | scalar hscalar =>
    cases h' with
    | scalar hscalar' => exact ⟨hscalar.symm.trans hscalar', rfl⟩
    | leftOut | inFull => cases hscalar
  | leftOut hnot =>
    cases h' with
    | scalar hscalar => cases hscalar
    | leftOut => exact ⟨rfl, rfl⟩
    | inFull hfirst => exact absurd hfirst hnot
  | @inFull route label cell copies inside hfirst hcell hcopies hinside _ ih =>
    cases h' with
    | scalar hscalar => cases hscalar
    | leftOut hnot => exact absurd hfirst hnot
    | @inFull _ _ _ copies' inside' _ hcell' hcopies' hinside' hitems' =>
      obtain rfl := Option.some.inj (hcell.symm.trans hcell')
      -- item by item, the copies and what is written out in them are determined
      have hsame : ∀ i : Nat, copies[i]? = copies'[i]? ∧ inside[i]? = inside'[i]? := by
        intro i
        by_cases hi : i < cell.items.length
        · have hitem := ih i cell.items[i] copies[i] inside[i] (List.getElem?_eq_getElem hi)
            (List.getElem?_eq_getElem _) (List.getElem?_eq_getElem _)
            (hitems' i cell.items[i] copies'[i] inside'[i] (List.getElem?_eq_getElem hi)
              (List.getElem?_eq_getElem _) (List.getElem?_eq_getElem _))
          simp only [List.getElem?_eq_getElem, hcopies, hcopies', hinside, hinside', hi]
          exact ⟨congrArg some hitem.1, congrArg some hitem.2⟩
        · have hnone : ∀ {α : Type} {l : List α}, l.length = cell.items.length → l[i]? = none :=
            fun hl => List.getElem?_eq_none (by omega)
          rw [hnone hcopies, hnone hcopies', hnone hinside, hnone hinside']
          exact ⟨rfl, rfl⟩
      rw [List.ext_getElem? fun i => (hsame i).1, List.ext_getElem? fun i => (hsame i).2]
      exact ⟨rfl, rfl⟩

/-- Only what is written for the objects of the graph counts. -/
theorem Copied.congr {write write' : Cell → List (Option Data) → Data}
    (hwrite : ∀ label cell, g.cell? label = some cell → write cell = write' cell) {v : Value}
    {copy : Option Data} {ids : List Identity} (h : g.Copied write root route v copy ids) :
    g.Copied write' root route v copy ids := by
  induction h with
  | scalar hscalar => exact .scalar hscalar
  | leftOut hnot => exact .leftOut hnot
  | inFull hfirst hcell hcopies hinside _ ih =>
    rw [hwrite _ _ hcell]
    exact .inFull hfirst hcell hcopies hinside ih

/-- All objects of the graph have different texts as keys, if they have any. -/
def TextKeyed (g : Graph) : Prop := ∀ cell ∈ g.cells.toList, cell.TextKeyed

/-- An object of such a graph has texts as keys. -/
theorem TextKeyed.cell {label : Nat} {cell : Cell} (h : g.TextKeyed) (hcell : g.cell? label = some cell) :
    cell.TextKeyed := by
  obtain ⟨hlt, rfl⟩ := Array.getElem?_eq_some_iff.mp hcell
  exact h _ (Array.getElem_mem_toList hlt)

/-- **Every object once.** In the copy of a value whose keys are texts, each object that stands inside the
value is written out once, namely in full at the end of the first route to it: as a list of as many items, or
as a mapping with its entries in their order. At the end of every other route to it an entry is missing, or
an item is null. The walk ends by itself: at whatever depth it were stopped, it would make the same copy. -/
theorem copied_once (g : Graph) (v : Value) (hkeys : g.TextKeyed)
    (hroot : ∀ label, v = .ref label → ∃ cell, g.cell? label = some cell) :
    ∃ ids, g.Copied Cell.outline v [] v (some (g.once v)) ids ∧ ids.Nodup ∧
      (∀ id, id ∈ ids ↔ ∃ label cell, ReflTransGen g.Item v (.ref label) ∧ g.cell? label = some cell ∧
        cell.identity label = id) ∧
      ∀ depth, g.cells.size < depth → (g.visitOnce depth v).run [] = (some (g.once v), ids.reverse) := by
  have hwrite : ∀ label cell, g.cell? label = some cell → cell.copy = cell.outline :=
    fun label cell hcell => funext fun copies => Cell.copy_eq_outline (hkeys.cell hcell) copies
  obtain ⟨ids, hmet, hcopied, hnodup, hall⟩ := g.visits_root v (Nat.lt_succ_self _)
  -- the value itself is never left out
  have honce : ((g.visitOnce (g.cells.size + 1) v).run []).1 = some (g.once v) := by
    rw [once]
    cases hcopy : ((g.visitOnce (g.cells.size + 1) v).run []).1 with
    | some copy => rfl
    | none =>
      rw [hcopy] at hcopied
      generalize hv : v = w at hcopied
      cases hcopied with
      | leftOut hnot =>
        obtain ⟨cell, hcell⟩ := hroot _ hv
        subst hv
        exact absurd ⟨_, ⟨_, cell, [], .here, hcell, rfl, by simp⟩, fun _ _ => List.not_lt_nil _⟩ hnot
  rw [honce] at hcopied
  refine ⟨ids, hcopied.congr hwrite, hnodup, fun id => (hall id).trans exists_reaches_iff,
    fun depth hdepth => ?_⟩
  obtain ⟨ids', hmet', hcopied', -, -⟩ := g.visits_root v hdepth
  obtain ⟨hcopy, rfl⟩ := hcopied'.unique hcopied
  exact Prod.ext hcopy hmet'

/-- Rooms that know their neighbours and the hall that they belong to. The list of rooms names itself. -/
def hallGraph : Graph where
  cells := #[
    .map [(.str "rooms", .ref 1), (.str "main", .ref 2)],
    .list [.ref 2, .ref 1, .ref 3, .ref 2],
    .object [("name", .str "kitchen"), ("_open", .ref 0), ("next", .ref 3), ("tags", .ref 4)],
    .map [(.str "next", .ref 2), (.str "hall", .ref 0), (.str "kind", .kind .state), (.str "tags", .ref 4)],
    .tuple [.int 1, .null]]

/-- In the hall every object is written out once. -/
theorem copied_once_hall : hallGraph.TextKeyed ∧ (∃ cell, hallGraph.cell? 0 = some cell) ∧
    ∃ ids, hallGraph.Copied Cell.outline (.ref 0) [] (.ref 0) (some (hallGraph.once (.ref 0))) ids ∧
      ids.Nodup := by
  have hkeys : hallGraph.TextKeyed := by simp [TextKeyed, Cell.TextKeyed, hallGraph, or_imp, forall_and]
  have hroot : ∃ cell, hallGraph.cell? 0 = some cell := ⟨_, rfl⟩
  obtain ⟨ids, hcopied, hnodup, -, -⟩ := copied_once hallGraph (.ref 0) hkeys (by rintro _ ⟨⟩; exact hroot)
  exact ⟨hkeys, hroot, ids, hcopied, hnodup⟩

example : hallGraph.once (.ref 0) =
    .map [(.str "rooms", .list [
      .map [(.str "name", .str "kitchen"),
        (.str "next", .map [(.str "kind", .str "State"), (.str "tags", .list [.int 1, .null])])],
      .null, .null, .null])] := by
  rfl

end Graph

end HomeAutomaton
