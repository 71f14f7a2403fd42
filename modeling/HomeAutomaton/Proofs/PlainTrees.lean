import HomeAutomaton.Proofs.OnceCopies
import HomeAutomaton.Proofs.Rendering
import HomeAutomaton.Proofs.Unfolding

/-!
# Copies are plain trees

A copy in which every object is written out once is a tree. The one exception is a key that has no text: it
is kept, and then the copy is none. The keys that are kept are those of entries that are not left out.

If a value is a tree already, none of its objects is met a second time, so it is copied as it is. Trees that
are made models are of this kind.

* `Data.IsTree` are the trees.
* `Graph.isTree_once_iff` says which copies are trees.
* `Graph.once_eq_of_unshared` says that trees are copied as they are, and `Graph.builds_of_isTree` that the
  graph of a tree unfolds to it, without a part in two places.
-/

namespace HomeAutomaton

open Relation

/-! ### Plain trees -/

/-- The value is put together from texts, numbers, truth values and null, in lists and in mappings with
different texts as keys. -/
inductive Data.IsTree : Data → Prop
  | null : IsTree .null
  | bool (b : Bool) : IsTree (.bool b)
  | int (n : Int) : IsTree (.int n)
  | float (x : Binary64) : IsTree (.float x)
  | str (s : String) : IsTree (.str s)
  | list {items : List Data} : (∀ d ∈ items, d.IsTree) → IsTree (.list items)
  | map {entries : List (Data × Data)} : (∀ e ∈ entries, e.1.IsText) → (entries.map (·.1)).Nodup →
      (∀ e ∈ entries, e.2.IsTree) → IsTree (.map entries)

/-- A scalar is a tree. -/
theorem Value.isTree_of_scalar? {v : Value} {d : Data} (h : v.scalar? = some d) : d.IsTree := by
  cases v with
  | ref label => cases h
  | _ =>
    obtain rfl := Option.some.inj h
    constructor

/-! ### Keys without a text -/

namespace Data

/-- A list is without such keys if its members are. -/
theorem anyLongKey_eq_false {ds : List Data} : anyLongKey ds = false ↔ ∀ d ∈ ds, d.hasLongKey = false := by
  induction ds with
  | nil => simp [anyLongKey]
  | cons d ds ih => simp [anyLongKey, ih]

/-- Entries are if no key of theirs is too long, and their values are without them. -/
theorem anyEntryLongKey_eq_false {es : List (Data × Data)} :
    anyEntryLongKey es = false ↔ ∀ e ∈ es, e.1.hasLongNumber = false ∧ e.2.hasLongKey = false := by
  induction es with
  | nil => simp [anyEntryLongKey]
  | cons e es ih =>
    obtain ⟨key, value⟩ := e
    simp [anyEntryLongKey, ih, and_assoc]

/-- No key without a text is lost when entries are put into a mapping. -/
theorem hasLongKey_exportEntries (es : List (Data × Data)) :
    (map (exportEntries es)).hasLongKey = anyEntryLongKey es := by
  rw [hasLongKey, exportEntries]
  split
  next => rfl
  next hlong =>
    rw [Bool.not_eq_true] at hlong
    rw [hlong, anyEntryLongKey_eq_false]
    exact Table.forall_ofPairs (P := fun k => k.hasLongNumber = false) (Q := fun d : Data => d.hasLongKey = false)
      (anyEntryLongKey_eq_false.mp hlong)

mutual

/-- A value without an integer that is too long has none in a key. -/
theorem hasLongKey_of_hasLongNumber : ∀ d : Data, d.hasLongNumber = false → d.hasLongKey = false
  | list items => by
    rw [hasLongNumber]
    exact anyLongKey_of_anyLongNumber items
  | map entries => by
    rw [hasLongNumber]
    exact anyEntryLongKey_of_anyLongEntry entries
  | null | bool _ | int _ | float _ | str _ | bytes _ | date _ | dateTime _ | kind _ | tuple _ | set _
  | object _ _ | up _ => fun _ => rfl
termination_by structural d => d

/-- So it is with lists. -/
theorem anyLongKey_of_anyLongNumber : ∀ ds : List Data, anyLongNumber ds = false → anyLongKey ds = false
  | [], _ => rfl
  | d :: ds, h => by
    obtain ⟨hd, hds⟩ := Bool.or_eq_false_iff.mp h
    exact Bool.or_eq_false_iff.mpr ⟨hasLongKey_of_hasLongNumber d hd, anyLongKey_of_anyLongNumber ds hds⟩
termination_by structural ds => ds

theorem anyEntryLongKey_of_anyLongEntry :
    ∀ es : List (Data × Data), anyLongEntry es = false → anyEntryLongKey es = false
  | [], _ => rfl
  | (key, value) :: es, h => by
    obtain ⟨hentry, hes⟩ := Bool.or_eq_false_iff.mp h
    obtain ⟨hkey, hvalue⟩ := Bool.or_eq_false_iff.mp hentry
    exact Bool.or_eq_false_iff.mpr ⟨Bool.or_eq_false_iff.mpr ⟨hkey, hasLongKey_of_hasLongNumber value hvalue⟩,
      anyEntryLongKey_of_anyLongEntry es hes⟩
termination_by structural es => es

end

/-- All keys in a tree have a text, being texts. -/
theorem IsTree.hasLongKey {d : Data} (h : d.IsTree) : d.hasLongKey = false := by
  induction h with
  | null | bool | int | float | str => rfl
  | list _ ih => rwa [Data.hasLongKey, anyLongKey_eq_false]
  | map htext _ _ ih =>
    rw [Data.hasLongKey, anyEntryLongKey_eq_false]
    exact fun e he => ⟨(htext e he).hasLongNumber, ih e he⟩

/-- A key is written as a text, if it can be written. -/
theorem isText_exportKey {key : Data} (h : key.hasLongNumber = false) : key.exportKey.IsText := by
  rw [exportKey, h]
  exact isText_str _

end Data

/-- The entries that are not left out are keys with the copies of their values. -/
theorem mem_presentEntries_iff {keys : List Data} {copies : List (Option Data)} {e : Data × Data} :
    e ∈ presentEntries keys copies ↔ ∃ i : Nat, keys[i]? = some e.1 ∧ copies[i]? = some (some e.2) := by
  obtain ⟨key, d⟩ := e
  rw [presentEntries, List.mem_filterMap]
  constructor
  · rintro ⟨⟨key', copy?⟩, hmem, hsome⟩
    obtain ⟨d', rfl, heq⟩ := Option.map_eq_some_iff.mp hsome
    obtain ⟨rfl, rfl⟩ := Prod.mk.inj heq
    obtain ⟨i, hi⟩ := List.mem_iff_getElem?.mp hmem
    exact ⟨i, List.getElem?_zip_eq_some.mp hi⟩
  · rintro ⟨i, hkey, hcopy⟩
    exact ⟨(key, some d), List.mem_of_getElem? (List.getElem?_zip_eq_some.mpr ⟨hkey, hcopy⟩), rfl⟩

namespace Cell

variable {cell : Cell} {copies : List (Option Data)}

/-- The items of a mapping are the values of its entries, in order. -/
theorem getElem?_items_map {es : Table Value} {i : Nat} {key : Data} {v : Value} (h : es[i]? = some (key, v)) :
    (Cell.map es).items[i]? = some v := by
  rw [items, List.getElem?_map, h]
  rfl

/-- A copy that becomes a mapping has no key without a text if its entries have none, and their copies. -/
theorem hasLongKey_mapping {keys : List Data} (hlength : copies.length ≤ keys.length) :
    (Data.map (Data.exportEntries (presentEntries keys copies))).hasLongKey = false ↔
      (∀ (i : Nat) key d, keys[i]? = some key → copies[i]? = some (some d) → key.hasLongNumber = false) ∧
      ∀ d, some d ∈ copies → d.hasLongKey = false := by
  -- keys and copies go together by their place
  rw [Data.hasLongKey_exportEntries, Data.anyEntryLongKey_eq_false]
  constructor
  · intro h
    refine ⟨fun i key d hkey hcopy => (h (key, d) (mem_presentEntries_iff.mpr ⟨i, hkey, hcopy⟩)).1,
      fun d hd => ?_⟩
    obtain ⟨i, hi⟩ := List.mem_iff_getElem?.mp hd
    have hlt : i < keys.length := Nat.lt_of_lt_of_le (List.getElem?_eq_some_iff.mp hi).1 hlength
    exact (h (keys[i], d) (mem_presentEntries_iff.mpr ⟨i, List.getElem?_eq_getElem hlt, hi⟩)).2
  · rintro ⟨hkeys, hcopies⟩ e he
    obtain ⟨i, hkey, hcopy⟩ := mem_presentEntries_iff.mp he
    exact ⟨hkeys i e.1 e.2 hkey hcopy, hcopies e.2 (List.mem_of_getElem? hcopy)⟩

/-- Copies in a list have no key without a text if those that are not left out have none. -/
theorem hasLongKey_sequence :
    (Data.list (copies.map fun copy => copy.getD .null)).hasLongKey = false ↔
      ∀ d, some d ∈ copies → d.hasLongKey = false := by
  rw [Data.hasLongKey, Data.anyLongKey_eq_false, List.forall_mem_map]
  refine ⟨fun h d hd => h (some d) hd, fun h copy hcopy => ?_⟩
  cases copy with
  | none => rfl
  | some d => exact h d hcopy

/-- The copy of an object has no key without a text if the entries that are not left out have none, and the
copies of the items. -/
theorem hasLongKey_copy (hlength : copies.length = cell.items.length) :
    (cell.copy copies).hasLongKey = false ↔
      (∀ es (i : Nat) key v d, cell = .map es → es[i]? = some (key, v) → copies[i]? = some (some d) →
        key.hasLongNumber = false) ∧
      ∀ d, some d ∈ copies → d.hasLongKey = false := by
  -- sequences have no keys, and dates and bytes have no items
  cases cell with
  | list | tuple | set =>
    rw [copy, hasLongKey_sequence]
    refine (and_iff_right ?_).symm
    intro _ _ _ _ _ hmap
    cases hmap
  | bytes | date | dateTime =>
    obtain rfl := List.eq_nil_of_length_eq_zero hlength
    refine iff_of_true rfl ⟨?_, ?_⟩
    · intro _ _ _ _ _ hmap
      cases hmap
    · intro d hd
      cases hd
  | map es =>
    -- keys are written as data, which does not change how long their numbers are
    have hkeys : copies.length ≤ (Cell.map es).exportKeys.length := by
      rw [hlength]
      exact Nat.le_of_eq ((List.length_map _).trans (List.length_map _).symm)
    rw [copy, hasLongKey_mapping hkeys]
    refine and_congr_left fun _ => ⟨?_, ?_⟩
    · rintro h _ i key v d ⟨⟩ hentry hcopy
      rw [← Data.hasLongNumber_exportKey]
      exact h i _ d (by rw [exportKeys, List.getElem?_map, hentry]; rfl) hcopy
    · intro h i key d hkey hcopy
      rw [exportKeys, List.getElem?_map] at hkey
      obtain ⟨⟨key', v⟩, hentry, rfl⟩ := Option.map_eq_some_iff.mp hkey
      rw [Data.hasLongNumber_exportKey]
      exact h es i key' v d rfl hentry hcopy
  | object attributes =>
    have hkeys : copies.length ≤ (Cell.object attributes).exportKeys.length := by
      rw [hlength]
      exact Nat.le_of_eq ((List.length_map _).trans (List.length_map _).symm)
    rw [copy, hasLongKey_mapping hkeys]
    -- the names of attributes are texts
    refine and_congr_left fun _ => iff_of_true ?_ ?_
    · intro i key d hkey _
      obtain ⟨a, -, rfl⟩ := List.mem_map.mp (List.mem_of_getElem? hkey)
      rfl
    · intro _ _ _ _ _ hmap
      cases hmap

/-- If all its keys have a text, the copy of an object is a tree if the copies of its items are. -/
theorem isTree_copy (hlength : copies.length = cell.items.length)
    (hlong : (cell.copy copies).hasLongKey = false) (hcopies : ∀ d, some d ∈ copies → d.IsTree) :
    (cell.copy copies).IsTree := by
  -- what is left out of a list is null there
  have hlist : (Data.list (copies.map fun copy => copy.getD .null)).IsTree := by
    refine .list (List.forall_mem_map.mpr fun copy hcopy => ?_)
    cases copy with
    | none => exact .null
    | some d => exact hcopies d hcopy
  -- of a mapping, the entries that are there have texts as keys, and trees as values
  have hmap : ∀ keys : List Data, (∀ key ∈ keys, key.hasLongNumber = false → key.IsText) →
      (Data.map (Data.exportEntries (presentEntries keys copies))).hasLongKey = false →
      (Data.map (Data.exportEntries (presentEntries keys copies))).IsTree := by
    intro keys hkeys hlong
    rw [Data.hasLongKey_exportEntries] at hlong
    have hshort := Data.anyEntryLongKey_eq_false.mp hlong
    have hentries : ∀ e ∈ presentEntries keys copies, e.1.IsText ∧ e.2.IsTree := by
      intro e he
      obtain ⟨i, hkey, hcopy⟩ := mem_presentEntries_iff.mp he
      exact ⟨hkeys e.1 (List.mem_of_getElem? hkey) (hshort e he).1, hcopies e.2 (List.mem_of_getElem? hcopy)⟩
    have hall := Table.forall_ofPairs hentries
    rw [Data.exportEntries, hlong]
    exact .map (fun e he => (hall e he).1)
      (Table.keys_putAll_nodup (fun e he => (hentries e he).1) List.nodup_nil) fun e he => (hall e he).2
  cases cell with
  | list | tuple | set => exact hlist
  | map es =>
    refine hmap _ (List.forall_mem_map.mpr fun e _ hshort => ?_) hlong
    exact Data.isText_exportKey (e.1.hasLongNumber_exportKey ▸ hshort)
  | object attributes => exact hmap _ (List.forall_mem_map.mpr fun a _ _ => Data.isText_str a.1) hlong
  | bytes | date | dateTime => exact .str _

end Cell

namespace Graph

variable {g : Graph} {v root : Value} {route : List Nat} {around ids : List Identity} {copy : Option Data}

/-- The start of a route that is the first one to an object is a first one as well. -/
theorem First.start {more : List Nat} (h : g.First root (route ++ more)) : g.First root route := by
  obtain ⟨id, hreaches, hleast⟩ := h
  obtain ⟨id', hstart⟩ := hreaches.start
  refine ⟨id', hstart, fun earlier hearlier hlt => ?_⟩
  obtain ⟨other, hother, hparts⟩ := hstart.shortcut hearlier (hstart.parts hearlier hlt) more hreaches
  exact hleast other hother (lt_iff_parts.mpr (.inr (hparts.append_right more)))

/-- What is copied: scalars, and objects at the end of the first route to them. -/
theorem Copied.isSome_iff {write : Cell → List (Option Data) → Data}
    (h : g.Copied write root route v copy ids) :
    (∃ d, copy = some d) ↔ ∀ label, v = .ref label → g.First root route := by
  cases h with
  | scalar hscalar =>
    refine iff_of_true ⟨_, rfl⟩ ?_
    rintro label rfl
    cases hscalar
  | leftOut hnot => exact iff_of_false (fun ⟨_, h⟩ => nomatch h) fun h => hnot (h _ rfl)
  | inFull hfirst => exact iff_of_true ⟨_, rfl⟩ fun _ _ => hfirst

/-- The entry with the key is in the copy: the mapping at the end of the route is written out, and the value
under the key is not left out. -/
def Keeps (g : Graph) (root : Value) (route : List Nat) (key : Data) : Prop :=
  g.First root route ∧ ∃ label around es, ∃ (i : Nat) (v : Value), g.Leads root route (.ref label) around ∧
    g.cell? label = some (.map es) ∧ es[i]? = some (key, v) ∧
    ∀ inner, v = .ref inner → g.First root (route ++ [i])

/-- Which entries of an object that is written out are in the copy. -/
theorem keeps_iff_of_cell {label : Nat} {cell : Cell} {key : Data} (hfirst : g.First root route)
    (hleads : g.Leads root route (.ref label) around) (hcell : g.cell? label = some cell) :
    g.Keeps root route key ↔ ∃ es, ∃ (i : Nat) (v : Value), cell = .map es ∧ es[i]? = some (key, v) ∧
      ∀ inner, v = .ref inner → g.First root (route ++ [i]) := by
  constructor
  · rintro ⟨-, label', _, es, i, v, hobject, hcell', hentry, hkept⟩
    obtain rfl := Value.ref.inj (hleads.unique hobject).1
    exact ⟨es, i, v, Option.some.inj (hcell.symm.trans hcell'), hentry, hkept⟩
  · rintro ⟨es, i, v, rfl, hentry, hkept⟩
    exact ⟨hfirst, label, around, es, i, v, hleads, hcell, hentry, hkept⟩

/-- A route that goes on from an object goes into one of its items. -/
theorem First.item {label i : Nat} {cell : Cell} (h : g.First root (route ++ [i]))
    (hleads : g.Leads root route (.ref label) around) (hcell : g.cell? label = some cell) :
    ∃ v, cell.items[i]? = some v := by
  obtain ⟨_, ⟨_, _, _, hinto, -⟩, -⟩ := h
  obtain ⟨label', cell', _, hobject, hcell', hitem, -⟩ := hinto.of_concat
  obtain rfl := Value.ref.inj (hleads.unique hobject).1
  obtain rfl := Option.some.inj (hcell.symm.trans hcell')
  exact ⟨_, hitem⟩

/-- The copy of the value at the end of a route has no key without a text exactly if the entries in it have
none. -/
theorem Copied.hasLongKey_iff (h : g.Copied Cell.copy root route v copy ids)
    (hleads : g.Leads root route v around) :
    (∀ d, copy = some d → d.hasLongKey = false) ↔
      ∀ more key, g.Keeps root (route ++ more) key → key.hasLongNumber = false := by
  -- on how the value is copied; a route into an object goes on inside one of its items
  induction h generalizing around with
  | @scalar route v d hscalar =>
    refine iff_of_true ?_ fun more key hkeeps => ?_
    · rintro d ⟨⟩
      exact (Value.isTree_of_scalar? hscalar).hasLongKey
    -- nothing is kept below a scalar, since it is no object
    · obtain ⟨_, ⟨label, cell, _, hobject, -⟩, -⟩ := hkeeps.1.start
      obtain ⟨rfl, -⟩ := hleads.unique hobject
      cases hscalar
  | leftOut hnot => exact iff_of_true (fun d hd => nomatch hd) fun more key hkeeps => absurd hkeeps.1.start hnot
  | @inFull route label cell copies inside hfirst hcell hcopies hinside hitems ih =>
    -- the copy of an item is among the copies
    have hitem : ∀ (i : Nat) w, cell.items[i]? = some w → ∃ copy ids, copies[i]? = some copy ∧
        inside[i]? = some ids := by
      intro i w hw
      have hlt := (List.getElem?_eq_some_iff.mp hw).1
      exact ⟨_, _, List.getElem?_eq_getElem (hcopies ▸ hlt), List.getElem?_eq_getElem (hinside ▸ hlt)⟩
    constructor
    · intro hshort more key hkeeps
      -- a key is one of the object itself, or one further down in an item
      obtain ⟨hkeys, hinner⟩ := (Cell.hasLongKey_copy hcopies).mp (hshort _ rfl)
      cases more with
      | nil =>
        rw [List.append_nil, keeps_iff_of_cell hfirst hleads hcell] at hkeeps
        obtain ⟨es, i, w, rfl, hentry, hkept⟩ := hkeeps
        have hw := Cell.getElem?_items_map hentry
        obtain ⟨copy, ids, hcopy, hids⟩ := hitem i w hw
        obtain ⟨d, rfl⟩ := (hitems i w copy ids hw hcopy hids).isSome_iff.mpr hkept
        exact hkeys es i key w d rfl hentry hcopy
      | cons i more =>
        rw [List.append_cons] at hkeeps
        obtain ⟨w, hw⟩ := hkeeps.1.start.item hleads hcell
        obtain ⟨copy, ids, hcopy, hids⟩ := hitem i w hw
        refine (ih i w copy ids hw hcopy hids (.into hleads hcell hw)).mp ?_ more key hkeeps
        rintro d rfl
        exact hinner d (List.mem_of_getElem? hcopy)
    · rintro hshort _ ⟨⟩
      refine (Cell.hasLongKey_copy hcopies).mpr ⟨?_, fun d hd => ?_⟩
      · rintro es i key w d rfl hentry hcopy
        have hw := Cell.getElem?_items_map hentry
        obtain ⟨_, ids, -, hids⟩ := hitem i w hw
        have hkept := (hitems i w (some d) ids hw hcopy hids).isSome_iff.mp ⟨d, rfl⟩
        -- a key of the object itself is kept at its own route
        refine hshort [] key ?_
        rw [List.append_nil, keeps_iff_of_cell hfirst hleads hcell]
        exact ⟨es, i, w, rfl, hentry, hkept⟩
      · obtain ⟨i, hcopy⟩ := List.mem_iff_getElem?.mp hd
        have hlt : i < cell.items.length := hcopies ▸ (List.getElem?_eq_some_iff.mp hcopy).1
        have hw := List.getElem?_eq_getElem hlt
        obtain ⟨_, ids, -, hids⟩ := hitem i _ hw
        refine (ih i _ (some d) ids hw hcopy hids (.into hleads hcell hw)).mpr (fun more key hkeeps => ?_) d rfl
        rw [← List.append_cons] at hkeeps
        exact hshort (i :: more) key hkeeps

/-- If all its keys have a text, the copy of a value is a tree. -/
theorem Copied.isTree (h : g.Copied Cell.copy root route v copy ids) :
    ∀ d, copy = some d → d.hasLongKey = false → d.IsTree := by
  -- on how the value is copied
  induction h with
  | scalar hscalar =>
    rintro d ⟨⟩ -
    exact Value.isTree_of_scalar? hscalar
  | leftOut => exact fun d hd => nomatch hd
  | @inFull route label cell copies inside _ _ hcopies hinside _ ih =>
    rintro _ ⟨⟩ hlong
    have hinner := ((Cell.hasLongKey_copy hcopies).mp hlong).2
    refine Cell.isTree_copy hcopies hlong fun d hd => ?_
    obtain ⟨i, hcopy⟩ := List.mem_iff_getElem?.mp hd
    have hlt : i < cell.items.length := hcopies ▸ (List.getElem?_eq_some_iff.mp hcopy).1
    exact ih i cell.items[i] (some d) inside[i] (List.getElem?_eq_getElem hlt) hcopy
      (List.getElem?_eq_getElem (hinside ▸ hlt)) d rfl (hinner d hd)

theorem isTree_once_of_hasLongKey (h : (g.once v).hasLongKey = false) : (g.once v).IsTree := by
  obtain ⟨ids, -, hcopied, -, -⟩ := g.visits_root v (Nat.lt_succ_self _)
  rw [once] at h ⊢
  cases hcopy : ((g.visitOnce (g.cells.size + 1) v).run []).1 with
  | none => exact .null
  | some d => exact hcopied.isTree d hcopy (by rwa [hcopy] at h)

/-- **Which copies are trees.** The copy of a value is a tree exactly if the keys of all entries in it have a
text. -/
theorem isTree_once_iff :
    (g.once v).IsTree ↔ ∀ route key, g.Keeps v route key → key.hasLongNumber = false := by
  obtain ⟨ids, -, hcopied, -, -⟩ := g.visits_root v (Nat.lt_succ_self _)
  have hkeys := hcopied.hasLongKey_iff .here
  simp only [List.nil_append] at hkeys
  rw [← hkeys]
  refine ⟨fun htree d hd => ?_, fun hshort => isTree_once_of_hasLongKey ?_⟩
  · rw [once, hd] at htree
    exact htree.hasLongKey
  · rw [once]
    cases hcopy : ((g.visitOnce (g.cells.size + 1) v).run []).1 with
    | none => rfl
    | some d => exact hshort d hcopy

/-! ### Trees are copied as they are -/

theorem unfoldItems_iff {vs : List Value} {ds : List Data} :
    g.UnfoldItems vs ds ↔ List.Forall₂ g.Unfolds vs ds := by
  induction vs generalizing ds with
  | nil => cases ds <;> simp [UnfoldItems]
  | cons v vs ih => cases ds <;> simp [UnfoldItems, ih]

theorem unfoldEntries_iff {es : Table Value} {ds : List (Data × Data)} :
    g.UnfoldEntries es ds ↔
      es.map (·.1) = ds.map (·.1) ∧ List.Forall₂ g.Unfolds (es.map (·.2)) (ds.map (·.2)) := by
  induction es generalizing ds with
  | nil => cases ds <;> simp [UnfoldEntries]
  | cons e es ih =>
    cases ds <;> simp [UnfoldEntries, ih]
    tauto

/-- Every object inside the value stands in one place only. -/
def Unshared (g : Graph) (v : Value) : Prop :=
  ∀ route other label around around', g.Leads v route (.ref label) around →
    g.Leads v other (.ref label) around' → route = other

/-- If objects stand in one place only, none of them is left out. -/
theorem Unshared.reaches {root : Value} (h : g.Unshared root) {route : List Nat} {label : Nat} {cell : Cell}
    {around : List Identity} (hleads : g.Leads root route (.ref label) around) (haround : around.Nodup)
    (hcell : g.cell? label = some cell) (hnumber : cell.identity label = .number label) :
    (cell.identity label :: around).Nodup ∧ g.First root route := by
  -- the object is reached by one route alone
  have hplace : ∀ other, g.Reaches root other (.number label) → other = route := by
    rintro other ⟨label', cell', around', hother, -, hid, -⟩
    obtain rfl := cell'.eq_of_identity_eq_number hid
    exact h _ _ _ _ _ hother hleads
  have hnew : cell.identity label ∉ around := by
    rw [hnumber]
    intro hmem
    obtain ⟨start, -, hne, hreaches⟩ := hleads.exists_start haround hmem
    exact hne (hplace start hreaches)
  have hnodup : (cell.identity label :: around).Nodup := List.nodup_cons.mpr ⟨hnew, haround⟩
  refine ⟨hnodup, _, ⟨label, cell, around, hleads, hcell, hnumber, hnumber ▸ hnodup⟩,
    fun other hother hlt => ?_⟩
  rw [hplace other hother] at hlt
  exact List.lt_irrefl route hlt

/-- Where nothing is left out, all entries are there. -/
theorem presentEntries_of_some {keys values : List Data} :
    presentEntries keys (values.map some) = keys.zip values := by
  induction keys generalizing values with
  | nil => simp [presentEntries]
  | cons key keys ih =>
    cases values with
    | nil => simp [presentEntries]
    | cons value values =>
      have hrest : presentEntries keys (values.map some) = keys.zip values := ih
      rw [presentEntries] at hrest ⊢
      rw [List.map_cons, List.zip_cons_cons, List.zip_cons_cons, List.filterMap_cons, hrest]
      rfl

/-- If all items of an object are copied as they are, these are their copies. -/
theorem copies_eq {vs : List Value} {ds : List Data} {copies : List (Option Data)}
    {inside : List (List Identity)} (hitems : List.Forall₂ g.Unfolds vs ds)
    (hcopies : copies.length = vs.length) (hinside : inside.length = vs.length)
    (h : ∀ (i : Nat) v d copy ids, d ∈ ds → g.Unfolds v d → vs[i]? = some v → copies[i]? = some copy →
      inside[i]? = some ids → copy = some d) : copies = ds.map some := by
  have hlength := hitems.length_eq
  refine List.ext_getElem (by rw [List.length_map, hcopies, hlength]) fun i hi _ => ?_
  have hvs : i < vs.length := hcopies ▸ hi
  have hds : i < ds.length := hlength ▸ hvs
  rw [List.getElem_map]
  exact h i vs[i] ds[i] copies[i] inside[i] (List.getElem_mem hds) (hitems.get hvs hds)
    (List.getElem?_eq_getElem hvs) (List.getElem?_eq_getElem hi) (List.getElem?_eq_getElem (hinside ▸ hvs))

/-- The tree is the copy of every value that unfolds to it, wherever it stands in the root. -/
def CopiedAs (g : Graph) (root : Value) (d : Data) : Prop :=
  ∀ {route : List Nat} {v : Value} {around ids : List Identity} {copy : Option Data}, g.Unfolds v d →
    g.Leads root route v around → around.Nodup → g.Copied Cell.copy root route v copy ids → copy = some d

/-- If its items are copied as they are, an object is written out with them. -/
theorem Copied.of_unshared {root : Value} (hunshared : g.Unshared root) {label : Nat} {cell : Cell}
    {route : List Nat} {around ids : List Identity} {copy : Option Data} {ds : List Data}
    (hcell : g.cell? label = some cell) (hnumber : cell.identity label = .number label)
    (hleads : g.Leads root route (.ref label) around) (haround : around.Nodup)
    (hitems : List.Forall₂ g.Unfolds cell.items ds) (hds : ∀ d ∈ ds, g.CopiedAs root d)
    (h : g.Copied Cell.copy root route (.ref label) copy ids) : copy = some (cell.copy (ds.map some)) := by
  obtain ⟨hnodup, hfirst⟩ := hunshared.reaches hleads haround hcell hnumber
  cases h with
  | scalar hscalar => cases hscalar
  | leftOut hnot => exact absurd hfirst hnot
  | inFull _ hcell' hcopies hinside hcopied =>
    obtain rfl := Option.some.inj (hcell.symm.trans hcell')
    rw [copies_eq hitems hcopies hinside fun i w d copy ids hmem hw hitem hcopy hids =>
      hds d hmem hw (.into hleads hcell hitem) hnodup (hcopied i w copy ids hitem hcopy hids)]

/-- A value that is a tree is copied as it is, if nothing in it is shared. -/
theorem copiedAs_of_unshared {root : Value} (hunshared : g.Unshared root) {d : Data} (hd : d.IsTree) :
    g.CopiedAs root d := by
  -- on the tree; its parts are copied as they are
  induction hd with
  | null | bool | int | float | str =>
    intro route v around ids copy hunfolds _ _ hcopied
    rw [Unfolds] at hunfolds
    subst hunfolds
    cases hcopied with
    | scalar hscalar => exact hscalar.symm
  | @list ds _ ih =>
    intro route v around ids copy hunfolds hleads haround hcopied
    obtain ⟨vs, hcell, hitems⟩ := hunfolds
    obtain ⟨label, rfl, hcell⟩ := deref?_eq_some hcell
    -- no item is left out
    have hsame : ((fun copy => copy.getD .null) ∘ some : Data → Data) = id := rfl
    rw [hcopied.of_unshared hunshared hcell rfl hleads haround (unfoldItems_iff.mp hitems) ih, Cell.copy,
      List.map_map, hsame, List.map_id]
  | @map ds htext hkeys _ ih =>
    intro route v around ids copy hunfolds hleads haround hcopied
    obtain ⟨es, hcell, hentries⟩ := hunfolds
    obtain ⟨label, rfl, hcell⟩ := deref?_eq_some hcell
    obtain ⟨hsame, hitems⟩ := unfoldEntries_iff.mp hentries
    -- keys that are texts are written as they are
    have hexport : (Cell.map es).exportKeys = ds.map (·.1) := by
      rw [← hsame, Cell.exportKeys]
      refine List.map_congr_left fun e he => ?_
      have hmem : e.1 ∈ ds.map (·.1) := hsame ▸ List.mem_map_of_mem he
      obtain ⟨e', he', hkey⟩ := List.mem_map.mp hmem
      exact Data.exportKey_of_isText (hkey ▸ htext e' he')
    have hzip : (ds.map (·.1)).zip (ds.map (·.2)) = ds := by
      rw [List.zip_map']
      exact List.map_id ds
    rw [hcopied.of_unshared hunshared hcell rfl hleads haround hitems (List.forall_mem_map.mpr ih), Cell.copy,
      hexport, presentEntries_of_some, hzip, Data.exportEntries_eq htext hkeys]

/-- **A tree is copied as it is.** -/
theorem once_eq_of_unshared {d : Data} (hd : d.IsTree) (hunfolds : g.Unfolds v d) (hunshared : g.Unshared v) :
    g.once v = d := by
  obtain ⟨ids, -, hcopied, -, -⟩ := g.visits_root v (Nat.lt_succ_self _)
  rw [once, copiedAs_of_unshared hunshared hd hunfolds .here List.nodup_nil hcopied]
  rfl

/-! ### Trees as graphs -/

/-- The objects inside the value have numbers from `low` to below `high`, and stand in one place each. -/
structure Within (g : Graph) (v : Value) (low high : Nat) : Prop where
  bounds : ∀ route label around, g.Leads v route (.ref label) around → low ≤ label ∧ label < high
  unshared : g.Unshared v

/-- The same of the objects inside several values. -/
structure ItemsWithin (g : Graph) (vs : List Value) (low high : Nat) : Prop where
  bounds : ∀ (i : Nat) w, vs[i]? = some w →
    ∀ route label around, g.Leads w route (.ref label) around → low ≤ label ∧ label < high
  unshared : ∀ (i j : Nat) w w', vs[i]? = some w → vs[j]? = some w' →
    ∀ route other label around around', g.Leads w route (.ref label) around →
      g.Leads w' other (.ref label) around' → i = j ∧ route = other

/-- There are no objects inside a scalar. -/
theorem Within.of_scalar {d : Data} (hscalar : v.scalar? = some d) (low : Nat) : g.Within v low low := by
  have hnone : ∀ route label around, ¬ g.Leads v route (.ref label) around := by
    intro route label around hleads
    cases route with
    | nil =>
      obtain ⟨rfl, -⟩ := hleads.unique .here
      cases hscalar
    | cons i route =>
      obtain ⟨_, _, _, _, rfl, -⟩ := hleads.of_cons
      cases hscalar
  exact ⟨fun _ _ _ h => absurd h (hnone _ _ _), fun _ _ _ _ _ h => absurd h (hnone _ _ _)⟩

/-- An object that is newer than all inside its items. -/
theorem Within.of_items {low label : Nat} {cell : Cell} (hcell : g.cell? label = some cell)
    (h : g.ItemsWithin cell.items low label) (hle : low ≤ label) : g.Within (.ref label) low (label + 1) := by
  -- a route from the object is no route, or goes on inside an item
  have hinto : ∀ {i route label' around}, g.Leads (.ref label) (i :: route) (.ref label') around →
      ∃ w around', cell.items[i]? = some w ∧ g.Leads w route (.ref label') around' := by
    intro i route label' around hleads
    obtain ⟨_, cell', w, around', hlabel, hcell', hitem, hrest⟩ := hleads.of_cons
    obtain rfl := Value.ref.inj hlabel
    obtain rfl := Option.some.inj (hcell.symm.trans hcell')
    exact ⟨w, around', hitem, hrest⟩
  have hbounds : ∀ {i route label' around}, g.Leads (.ref label) (i :: route) (.ref label') around →
      low ≤ label' ∧ label' < label := by
    intro i route label' around hleads
    obtain ⟨w, around', hitem, hrest⟩ := hinto hleads
    exact h.bounds i w hitem route label' around' hrest
  -- and no route at all leads to the object itself
  have hhere : ∀ {label' around}, g.Leads (.ref label) [] (.ref label') around → label' = label := by
    intro label' around hleads
    exact Value.ref.inj (hleads.unique .here).1
  refine ⟨fun route label' around hleads => ?_, fun route other label' around around' hroute hother => ?_⟩
  · cases route with
    | nil =>
      obtain rfl := hhere hleads
      exact ⟨hle, Nat.lt_succ_self _⟩
    | cons i route => exact ⟨(hbounds hleads).1, Nat.lt_succ_of_lt (hbounds hleads).2⟩
  · -- two routes to one object both end here, or go into the same item
    cases route with
    | nil =>
      obtain rfl := hhere hroute
      cases other with
      | nil => rfl
      | cons j other => exact absurd (hbounds hother).2 (Nat.lt_irrefl _)
    | cons i route =>
      cases other with
      | nil =>
        obtain rfl := hhere hother
        exact absurd (hbounds hroute).2 (Nat.lt_irrefl _)
      | cons j other =>
        obtain ⟨w, _, hw, hroute⟩ := hinto hroute
        obtain ⟨w', _, hw', hother⟩ := hinto hother
        obtain ⟨rfl, rfl⟩ := h.unshared i j w w' hw hw' _ _ _ _ _ hroute hother
        rfl

/-- A value, and others whose objects are newer. -/
theorem ItemsWithin.cons {vs : List Value} {low mid high : Nat} (hfirst : g.Within v low mid)
    (hrest : g.ItemsWithin vs mid high) (hlow : low ≤ mid) (hhigh : mid ≤ high) :
    g.ItemsWithin (v :: vs) low high := by
  -- the first value has the lower numbers, so no object stands in it and in another one
  refine ⟨fun i w hw route label around hleads => ?_,
    fun i j w w' hw hw' route other label around around' hroute hother => ?_⟩
  · cases i with
    | zero =>
      obtain rfl := Option.some.inj hw
      have hbounds := hfirst.bounds route label around hleads
      omega
    | succ i =>
      have hbounds := hrest.bounds i w hw route label around hleads
      omega
  · cases i with
    | zero =>
      obtain rfl := Option.some.inj hw
      cases j with
      | zero =>
        obtain rfl := Option.some.inj hw'
        exact ⟨rfl, hfirst.unshared route other label around around' hroute hother⟩
      | succ j =>
        have hbelow := (hfirst.bounds route label around hroute).2
        -- the one object is older than the other
        have habove := (hrest.bounds j w' hw' other label around' hother).1
        omega
    | succ i =>
      cases j with
      | zero =>
        obtain rfl := Option.some.inj hw'
        have hbelow := (hfirst.bounds other label around' hother).2
        have habove := (hrest.bounds i w hw route label around hroute).1
        omega
      | succ j =>
        obtain ⟨rfl, rfl⟩ := hrest.unshared i j w w' hw hw' route other label around around' hroute hother
        exact ⟨rfl, rfl⟩

/-- A graph with more objects has a value that unfolds to the tree, of new objects alone. -/
structure Builds (start : Graph) (d : Data) (built : Value × Graph) : Prop where
  keeps : start.Extends built.2
  grows : start.cells.size ≤ built.2.cells.size
  unfolds : built.2.Unfolds built.1 d
  within : ∀ g, built.2.Extends g → g.Within built.1 start.cells.size built.2.cells.size

/-- The same for several values. -/
structure BuildsItems (start : Graph) (ds : List Data) (built : List Value × Graph) : Prop where
  keeps : start.Extends built.2
  grows : start.cells.size ≤ built.2.cells.size
  unfolds : List.Forall₂ built.2.Unfolds built.1 ds
  within : ∀ g, built.2.Extends g → g.ItemsWithin built.1 start.cells.size built.2.cells.size

/-- A scalar takes no objects. -/
theorem Builds.of_scalar {start : Graph} {d d' : Data} (hunfolds : start.Unfolds v d)
    (hscalar : v.scalar? = some d') : Builds start d (v, start) :=
  ⟨.refl start, Nat.le_refl _, hunfolds, fun _ _ => .of_scalar hscalar _⟩

/-- Several trees are built one after the other. -/
theorem buildsItems {ds : List Data} (h : ∀ d ∈ ds, ∀ start : Graph, Builds start d (start.ofDataFrom d))
    (start : Graph) : BuildsItems start ds (start.itemsFrom ds) := by
  induction ds generalizing start with
  | nil => exact ⟨.refl start, Nat.le_refl _, .nil, fun _ _ => ⟨nofun, nofun⟩⟩
  | cons d ds ih =>
    obtain ⟨hd, hds⟩ := List.forall_mem_cons.mp h
    have hfirst := hd start
    have hrest := ih hds (start.ofDataFrom d).2
    rw [itemsFrom]
    refine ⟨hfirst.keeps.trans hrest.keeps, Nat.le_trans hfirst.grows hrest.grows,
      .cons (hfirst.unfolds.extend hrest.keeps) hrest.unfolds, fun g hg => ?_⟩
    exact .cons (hfirst.within g (hrest.keeps.trans hg)) (hrest.within g hg) hfirst.grows hrest.grows

/-- One object more, which holds the values that were built last. -/
theorem BuildsItems.add {start g : Graph} {ds : List Data} {vs : List Value} {d : Data} {cell : Cell}
    (h : BuildsItems start ds (vs, g)) (hitems : cell.items = vs)
    (hunfolds : ∀ (g' : Graph) v, g'.deref? v = some cell → List.Forall₂ g'.Unfolds vs ds → g'.Unfolds v d) :
    Builds start d (g.add cell) := by
  obtain ⟨hkeeps, hcell⟩ := extends_add g cell
  have hsize : (g.add cell).2.cells.size = g.cells.size + 1 := by simp [Graph.add]
  refine ⟨h.keeps.trans hkeeps, ?_, ?_, fun g' hg' => ?_⟩
  · rw [hsize]
    exact Nat.le_succ_of_le h.grows
  · exact hunfolds _ _ hcell (h.unfolds.imp fun v d hv => hv.extend hkeeps)
  · rw [hsize]
    refine .of_items (hg' _ _ hcell) ?_ h.grows
    rw [hitems]
    exact h.within g' (hkeeps.trans hg')

/-- Entries are built like their values, which get back their keys. -/
theorem entriesFrom_eq (start : Graph) (es : List (Data × Data)) :
    start.entriesFrom es =
      ((es.map (·.1)).zip (start.itemsFrom (es.map (·.2))).1, (start.itemsFrom (es.map (·.2))).2) := by
  induction es generalizing start with
  | nil => rfl
  | cons e es ih =>
    have hrest := ih (start.ofDataFrom e.2).2
    rw [entriesFrom, List.map_cons, List.map_cons, itemsFrom]
    dsimp only
    rw [hrest]
    rfl

/-- **A tree as a graph** unfolds to the tree, and nothing in it is shared. -/
theorem builds_of_isTree {d : Data} (hd : d.IsTree) (start : Graph) :
    Builds start d (start.ofDataFrom d) := by
  -- on the tree; each object is added after all that is inside it
  induction hd generalizing start with
  | null | bool | int | float | str => exact .of_scalar rfl rfl
  | @list ds _ ih =>
    rw [ofDataFrom]
    exact (buildsItems ih start).add rfl fun g' v hcell hitems => ⟨_, hcell, unfoldItems_iff.mpr hitems⟩
  | @map ds _ _ _ ih =>
    rw [ofDataFrom, entriesFrom_eq]
    have hvalues : ∀ d ∈ ds.map (·.2), ∀ start : Graph, Builds start d (start.ofDataFrom d) :=
      List.forall_mem_map.mpr ih
    have hitems := buildsItems hvalues start
    have hlength : (ds.map (·.1)).length = (start.itemsFrom (ds.map (·.2))).1.length := by
      rw [hitems.unfolds.length_eq, List.length_map, List.length_map]
    have hkeys := List.map_fst_zip (Nat.le_of_eq hlength)
    have hvs := List.map_snd_zip (Nat.le_of_eq hlength.symm)
    refine hitems.add hvs fun g' v hcell hunfolds => ⟨_, hcell, unfoldEntries_iff.mpr ⟨hkeys, ?_⟩⟩
    rwa [hvs]

end Graph

/-- A tree that is made a model is copied as it is. -/
theorem Model.once_ofData {d : Data} (hd : d.IsTree) : (Model.ofData d).once = d := by
  have hbuilds := Graph.builds_of_isTree hd {}
  exact Graph.once_eq_of_unshared hd hbuilds.unfolds (hbuilds.within _ (.refl _)).unshared

end HomeAutomaton
