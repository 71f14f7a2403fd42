import HomeAutomaton.Graph.Once
import HomeAutomaton.Yaml.Printer
import Mathlib.Data.List.Nodup
import Mathlib.Logic.Relation

/-!
# What stands inside a value

A value is written out as a tree, although the objects that it refers to may refer back to it. Where an
object stands inside itself the tree is cut off, and a tree that is cut off has no written form: nothing is
shared in it, so there would be no end to writing it. The two are brought together here: what is written
out has a written form exactly if no object inside the value stands inside itself, and no integer in it
is too long.

* `Graph.Item` says what stands in an object, so that its transitive closure says what stands inside it.
* `Graph.Plain` are graphs of plain values, and `Graph.isPlain_data` says that they are written out as
  plain data.
* `Graph.Expressible` is what a value has to be to be written, and `Graph.unrenderable?_data_iff` that it is.
-/

namespace HomeAutomaton

open Relation

/-! ### Data with a written form -/

namespace Data

/-- Items have a written form if each of them has one. -/
theorem unrenderableItem?_eq_none {ds : List Data} :
    unrenderableItem? ds = none ↔ ∀ d ∈ ds, d.unrenderable? = none := by
  induction ds with
  | nil => simp [unrenderableItem?]
  | cons d ds ih => simp [unrenderableItem?, Option.or_eq_none_iff, ih]

theorem unrenderablePair?_eq_none {es : List (Data × Data)} :
    unrenderablePair? es = none ↔ ∀ e ∈ es, e.1.unrenderable? = none ∧ e.2.unrenderable? = none := by
  induction es with
  | nil => simp [unrenderablePair?]
  | cons e es ih =>
    obtain ⟨k, v⟩ := e
    simp [unrenderablePair?, Option.or_eq_none_iff, ih]

mutual

/-- Is the value put together from texts, numbers and the like, in lists, sets and mappings? -/
def isPlain : Data → Bool
  | kind _ | object .. => false
  | list items | tuple items | set items => allPlain items
  | map entries => allPlainEntries entries
  | _ => true

/-- Are all of the values plain? -/
def allPlain : List Data → Bool
  | [] => true
  | d :: ds => isPlain d && allPlain ds

/-- Are all of the entries plain? -/
def allPlainEntries : List (Data × Data) → Bool
  | [] => true
  | (k, v) :: es => isKey k && isPlain k && isPlain v && allPlainEntries es

end

/-- All are plain if each is. -/
theorem allPlain_iff {ds : List Data} : allPlain ds = true ↔ ∀ d ∈ ds, d.isPlain = true := by
  induction ds with
  | nil => simp [allPlain]
  | cons d ds ih => simp [allPlain, ih]

theorem allPlainEntries_iff {es : List (Data × Data)} :
    allPlainEntries es = true ↔
      ∀ e ∈ es, (e.1.isKey = true ∧ e.1.isPlain = true) ∧ e.2.isPlain = true := by
  induction es with
  | nil => simp [allPlainEntries]
  | cons e es ih =>
    obtain ⟨k, v⟩ := e
    simp [allPlainEntries, ih]

mutual

/-- A plain key has a written form, unless there is an integer in it that is too long. -/
theorem unrenderable?_of_isKey : ∀ {d : Data}, d.isKey = true → d.isPlain = true →
    (d.unrenderable? = none ↔ d.hasLongNumber = false)
  | .null, _, _ | .bool _, _, _ | .float _, _, _ | .str _, _, _ | .bytes _, _, _ | .date _, _, _
  | .dateTime _, _, _ => by simp [unrenderable?, hasLongNumber]
  | .int n, _, _ => by simp [unrenderable?, hasLongNumber]
  | .tuple items, hkey, hplain => by
    rw [isKey] at hkey
    rw [isPlain] at hplain
    rw [unrenderable?, hasLongNumber]
    exact unrenderableItem?_of_allKeys hkey hplain
  | .kind _, _, hplain | .object .., _, hplain => by simp [isPlain] at hplain
  | .list _, hkey, _ | .set _, hkey, _ | .map _, hkey, _ | .up _, hkey, _ => by simp [isKey] at hkey

theorem unrenderableItem?_of_allKeys : ∀ {ds : List Data}, allKeys ds = true → allPlain ds = true →
    (unrenderableItem? ds = none ↔ anyLongNumber ds = false)
  | [], _, _ => by simp [unrenderableItem?, anyLongNumber]
  | d :: ds, hkeys, hplain => by
    rw [allKeys, Bool.and_eq_true] at hkeys
    rw [allPlain, Bool.and_eq_true] at hplain
    rw [unrenderableItem?, Option.or_eq_none_iff, anyLongNumber, Bool.or_eq_false_iff,
      unrenderable?_of_isKey hkeys.1 hplain.1, unrenderableItem?_of_allKeys hkeys.2 hplain.2]

end

end Data

/-! ### Objects and what stands in them -/

/-- The values that stand in an object. Private attributes do not count. -/
def Cell.items : Cell → List Value
  | .list items | .tuple items | .set items => items
  | .map entries => entries.map (·.2)
  | .object attributes => (Graph.publicAttributes attributes).map (·.2)
  | .bytes _ | .date _ | .dateTime _ => []

/-- The keys of a mapping. -/
def Cell.keys : Cell → List Data
  | .map entries => entries.map (·.1)
  | _ => []

namespace Graph

variable {g : Graph}

/-- The second value stands in the object that the first one refers to. -/
def Item (g : Graph) (v w : Value) : Prop :=
  ∃ label cell, v = .ref label ∧ g.cell? label = some cell ∧ w ∈ cell.items

/-- The value is an integer that is too long to be written, or a mapping with one in a key. -/
def HasLongNumber (g : Graph) : Value → Prop
  | .int n => Text.isTooLong n = true
  | .ref label => ∃ cell, g.cell? label = some cell ∧ ∃ k ∈ cell.keys, k.hasLongNumber = true
  | _ => False

/-- Neither is any integer inside the value too long, nor does anything inside it stand inside itself. -/
def Expressible (g : Graph) (v : Value) : Prop :=
  ∀ w, ReflTransGen g.Item v w → ¬ g.HasLongNumber w ∧ ¬ TransGen g.Item w w

/-- What stands inside an expressible value is expressible. -/
theorem Expressible.of_item {v w : Value} (h : g.Expressible v) (hitem : g.Item v w) :
    g.Expressible w := fun _ hw => h _ (hw.head hitem)

/-- An object is expressible if there is no integer in its keys that is too long, and what stands in it
is expressible: it does not stand inside anything of that. -/
theorem expressible_ref_iff {label : Nat} {cell : Cell} (hcell : g.cell? label = some cell) :
    g.Expressible (.ref label) ↔
      ¬ g.HasLongNumber (.ref label) ∧ ∀ w ∈ cell.items, g.Expressible w := by
  constructor
  · intro h
    exact ⟨(h _ .refl).1, fun w hw => h.of_item ⟨label, cell, rfl, hcell, hw⟩⟩
  · rintro ⟨hshort, hitems⟩ w hinside
    have hitem : ∀ x, g.Item (.ref label) x → g.Expressible x := by
      rintro x ⟨label', cell', heq, hcell', hx⟩
      obtain rfl := Value.ref.inj heq
      obtain rfl := Option.some.inj (hcell.symm.trans hcell')
      exact hitems x hx
    rcases ReflTransGen.cases_head hinside with rfl | ⟨x, hx, hinside⟩
    · refine ⟨hshort, fun hcircle => ?_⟩
      -- on a circle through the object there is something that stands in it
      obtain ⟨x, hx, hback⟩ := TransGen.head'_iff.mp hcircle
      exact (hitem x hx _ hback).2 hcircle
    · exact hitem x hx w hinside

end Graph

/-! ### Graphs of plain values -/

/-- The value is no kind of nodes. -/
def Value.IsPlain (v : Value) : Prop := ∀ k, v ≠ .kind k

/-- The object is no record with attributes, and what stands in it is plain. -/
structure Cell.Plain (cell : Cell) : Prop where
  notObject : ∀ attributes, cell ≠ .object attributes
  items : ∀ v ∈ cell.items, v.IsPlain
  keys : ∀ k ∈ cell.keys, k.isKey = true ∧ k.isPlain = true

/-- All objects of the graph are plain. -/
def Graph.Plain (g : Graph) : Prop := ∀ cell ∈ g.cells.toList, cell.Plain

namespace Graph

variable {g : Graph}

/-- An object of a plain graph is plain. -/
theorem Plain.cell {label : Nat} {cell : Cell} (h : g.Plain) (hcell : g.cell? label = some cell) :
    cell.Plain := by
  obtain ⟨hlt, rfl⟩ := Array.getElem?_eq_some_iff.mp hcell
  exact h _ (Array.getElem_mem_toList hlt)

/-- A plain graph is written out as plain data. -/
theorem isPlain_dataWithin (h : g.Plain) (depth : Nat) (around : List Nat) {v : Value}
    (hv : v.IsPlain) : (g.dataWithin depth around v).isPlain = true := by
  -- on the depth; at its end a value is cut off, which is plain
  induction depth generalizing around v with
  | zero => cases v <;> simp_all [dataWithin, Data.isPlain, Value.IsPlain]
  | succ depth ih =>
    cases v with
    | kind k => exact absurd rfl (hv k)
    | ref label =>
      rw [dataWithin]
      cases around.idxOf? label with
      | some i => simp [Data.isPlain]
      | none =>
        cases hcell : g.cell? label with
        | none => simp [Data.isPlain]
        | some cell =>
          -- the object is plain, so it holds plain values, and they are written out one step lower
          have hplain := h.cell hcell
          have hitem : ∀ w ∈ cell.items, (g.dataWithin depth (label :: around) w).isPlain = true :=
            fun w hw => ih _ (hplain.items w hw)
          cases cell with
          | list items | tuple items | set items =>
            simp only [Data.isPlain, Data.allPlain_iff, List.forall_mem_map]
            exact hitem
          | map entries =>
            simp only [Data.isPlain, Data.allPlainEntries_iff, List.forall_mem_map]
            intro e he
            exact ⟨hplain.keys _ (List.mem_map_of_mem he), hitem _ (List.mem_map_of_mem he)⟩
          | object attributes => exact absurd rfl (hplain.notObject attributes)
          | bytes bs => simp [Data.isPlain]
          | date d => simp [Data.isPlain]
          | dateTime t => simp [Data.isPlain]
    | _ => simp [dataWithin, Data.isPlain]

/-! ### Writing out -/

/-- What stands in an object that is written out, where the object has a written form. -/
theorem unrenderable?_ref {depth label : Nat} {around : List Nat} {cell : Cell} (h : g.Plain)
    (hnew : label ∉ around) (hcell : g.cell? label = some cell) :
    (g.dataWithin (depth + 1) around (.ref label)).unrenderable? = none ↔
      ¬ g.HasLongNumber (.ref label) ∧
        ∀ w ∈ cell.items, (g.dataWithin depth (label :: around) w).unrenderable? = none := by
  have hplain := h.cell hcell
  -- keys have a written form exactly if no integer in them is too long
  have hkeys : ¬ g.HasLongNumber (.ref label) ↔ ∀ k ∈ cell.keys, k.unrenderable? = none := by
    have hlong : g.HasLongNumber (.ref label) ↔ ∃ k ∈ cell.keys, k.hasLongNumber = true := by
      simp [HasLongNumber, hcell]
    rw [hlong]
    simp only [not_exists, not_and, Bool.not_eq_true]
    refine forall₂_congr fun k hk => ?_
    rw [Data.unrenderable?_of_isKey (hplain.keys k hk).1 (hplain.keys k hk).2]
  rw [hkeys, dataWithin, List.idxOf?_eq_none_iff.mpr hnew, hcell]
  -- what is written out depends on the kind of the object
  cases cell with
  | list items | tuple items | set items =>
    simp [Data.unrenderable?, Data.unrenderableItem?_eq_none, Cell.items, Cell.keys]
  | map entries =>
    simp only [Data.unrenderable?, Data.unrenderablePair?_eq_none, List.forall_mem_map, Cell.items,
      Cell.keys]
    exact forall₂_and
  | object attributes => exact absurd rfl (hplain.notObject attributes)
  | bytes bs => simp [Data.unrenderable?, Cell.items, Cell.keys]
  | date d => simp [Data.unrenderable?, Cell.items, Cell.keys]
  | dateTime t => simp [Data.unrenderable?, Cell.items, Cell.keys]

/-- What stands inside one of the objects around it is cut off. -/
theorem unrenderable?_ref_of_mem {depth label : Nat} {around : List Nat} (hmem : label ∈ around) :
    (g.dataWithin (depth + 1) around (.ref label)).unrenderable? ≠ none := by
  have hsome : around.idxOf? label ≠ none := mt List.idxOf?_eq_none_iff.mp (not_not.mpr hmem)
  obtain ⟨i, hi⟩ := Option.ne_none_iff_exists'.mp hsome
  simp [dataWithin, hi, Data.unrenderable?]

/-- The objects around a place are different ones, and there is depth left for all others. -/
structure Around (g : Graph) (depth : Nat) (around : List Nat) : Prop where
  nodup : around.Nodup
  within : ∀ label ∈ around, label < g.cells.size
  room : g.cells.size < depth + around.length

/-- At the start nothing is around. -/
theorem Around.start (g : Graph) : g.Around (g.cells.size + 1) [] where
  nodup := List.nodup_nil
  within := fun _ h => absurd h List.not_mem_nil
  room := Nat.lt_succ_self _

/-- There is some depth left. -/
theorem Around.depth_eq {depth : Nat} {around : List Nat} (h : g.Around depth around) :
    ∃ rest, depth = rest + 1 := by
  have hsub : around ⊆ List.range g.cells.size := fun label hmem =>
    List.mem_range.mpr (h.within label hmem)
  have hlength := h.nodup.length_le_of_subset hsub
  rw [List.length_range] at hlength
  have hroom := h.room
  exact Nat.exists_eq_succ_of_ne_zero (by omega)

/-- One object more is around the place. -/
theorem Around.enter {depth label : Nat} {around : List Nat} {cell : Cell}
    (h : g.Around (depth + 1) around) (hnew : label ∉ around) (hcell : g.cell? label = some cell) :
    g.Around depth (label :: around) where
  nodup := List.nodup_cons.mpr ⟨hnew, h.nodup⟩
  within := List.forall_mem_cons.mpr ⟨(Array.getElem?_eq_some_iff.mp hcell).1, h.within⟩
  room := by
    have hroom := h.room
    rw [List.length_cons]
    omega

/-- A value has a written form where it stands. -/
def Renders (g : Graph) (depth : Nat) (around : List Nat) (v : Value) : Prop :=
  (g.dataWithin depth around v).unrenderable? = none

/-- What stands in an object with a written form has one there, with the object around it. -/
theorem Renders.item (hplain : g.Plain) {depth : Nat} {around : List Nat} {v w : Value}
    (h : g.Renders depth around v) (haround : g.Around depth around) (hitem : g.Item v w) :
    ∃ depth' label, v = .ref label ∧ label ∉ around ∧ g.Around depth' (label :: around) ∧
      g.Renders depth' (label :: around) w := by
  obtain ⟨label, cell, rfl, hcell, hw⟩ := hitem
  obtain ⟨depth, rfl⟩ := haround.depth_eq
  by_cases hmem : label ∈ around
  · exact absurd h (unrenderable?_ref_of_mem hmem)
  · exact ⟨depth, label, rfl, hmem, haround.enter hmem hcell,
      ((unrenderable?_ref hplain hmem hcell).mp h).2 w hw⟩

/-- The same for what stands inside at any depth. All that was around is still around it. -/
theorem Renders.inside (hplain : g.Plain) {depth : Nat} {around : List Nat} {v w : Value}
    (h : g.Renders depth around v) (haround : g.Around depth around)
    (hinside : ReflTransGen g.Item v w) :
    ∃ depth' around', around ⊆ around' ∧ g.Around depth' around' ∧ g.Renders depth' around' w := by
  induction hinside with
  | refl => exact ⟨depth, around, List.Subset.refl _, haround, h⟩
  | tail _ hitem ih =>
    obtain ⟨depth', around', hsub, haround', hrenders⟩ := ih
    obtain ⟨depth'', label, -, -, haround'', hrenders'⟩ := hrenders.item hplain haround' hitem
    exact ⟨depth'', label :: around', List.Subset.trans hsub (List.subset_cons_self _ _), haround'', hrenders'⟩

/-- What has a written form does not stand inside itself, and is no integer that is too long. -/
theorem Renders.sound (hplain : g.Plain) {depth : Nat} {around : List Nat} {v : Value}
    (h : g.Renders depth around v) (haround : g.Around depth around) :
    ¬ g.HasLongNumber v ∧ ¬ TransGen g.Item v v := by
  obtain ⟨depth, rfl⟩ := haround.depth_eq
  refine ⟨?_, fun hcircle => ?_⟩
  -- the value itself has a written form
  · cases v with
    | int n =>
      intro hlong
      rw [HasLongNumber] at hlong
      simp [Renders, dataWithin, Data.unrenderable?, hlong] at h
    | ref label =>
      rintro ⟨cell, hcell, hkeys⟩
      by_cases hmem : label ∈ around
      · exact unrenderable?_ref_of_mem hmem h
      · exact ((unrenderable?_ref hplain hmem hcell).mp h).1 ⟨cell, hcell, hkeys⟩
    | _ => exact id
  · -- on the way back to the value the value itself is around
    obtain ⟨w, hitem, hback⟩ := TransGen.head'_iff.mp hcircle
    obtain ⟨depth', label, rfl, -, haround', hrenders⟩ := h.item hplain haround hitem
    obtain ⟨depth'', around'', hsub, haround'', hrenders'⟩ := hrenders.inside hplain haround' hback
    obtain ⟨depth'', rfl⟩ := haround''.depth_eq
    exact unrenderable?_ref_of_mem (hsub List.mem_cons_self) hrenders'

/-- A value that is no object has a written form, unless it is an integer that is too long. -/
theorem renders_of_scalar {v : Value} (hv : v.IsPlain) (hscalar : ∀ label, v ≠ .ref label)
    (hshort : ¬ g.HasLongNumber v) (depth : Nat) (around : List Nat) : g.Renders depth around v := by
  cases v with
  | int n =>
    rw [HasLongNumber, Bool.not_eq_true] at hshort
    simp [Renders, dataWithin, Data.unrenderable?, hshort]
  | kind k => exact absurd rfl (hv k)
  | ref label => exact absurd rfl (hscalar label)
  | _ => simp [Renders, dataWithin, Data.unrenderable?]

/-- An expressible value inside objects that it stands in has a written form. -/
theorem Expressible.renders (hplain : g.Plain) (depth : Nat) (around : List Nat) {v : Value}
    (h : g.Expressible v) (hv : v.IsPlain)
    (haround : ∀ label ∈ around, TransGen g.Item (.ref label) v) : g.Renders depth around v := by
  -- on the depth; with none left an object is cut off, which leaves nothing to write
  induction depth generalizing around v with
  | zero =>
    by_cases hscalar : ∀ label, v ≠ .ref label
    · exact renders_of_scalar hv hscalar (h v .refl).1 0 around
    · push Not at hscalar
      obtain ⟨label, rfl⟩ := hscalar
      simp [Renders, dataWithin, Data.unrenderable?]
  | succ depth ih =>
    by_cases hscalar : ∀ label, v ≠ .ref label
    · exact renders_of_scalar hv hscalar (h v .refl).1 _ around
    · push Not at hscalar
      obtain ⟨label, rfl⟩ := hscalar
      -- the object does not stand inside itself, so it is around none of its places
      have hnew : label ∉ around := fun hmem => (h _ .refl).2 (haround label hmem)
      cases hcell : g.cell? label with
      | none =>
        rw [Renders, dataWithin, List.idxOf?_eq_none_iff.mpr hnew, hcell]
        simp [Data.unrenderable?]
      | some cell =>
        refine (unrenderable?_ref hplain hnew hcell).mpr ⟨(h _ .refl).1, fun w hw => ?_⟩
        have hitem : g.Item (.ref label) w := ⟨label, cell, rfl, hcell, hw⟩
        refine ih (label :: around) (h.of_item hitem) ((hplain.cell hcell).items w hw) ?_
        rw [List.forall_mem_cons]
        exact ⟨.single hitem, fun outer houter => (haround outer houter).tail hitem⟩

/-- **What can be written out and written down.** A value of a plain graph has a written form exactly if
no integer inside it is too long and nothing inside it stands inside itself. -/
theorem unrenderable?_data_iff (hplain : g.Plain) {v : Value} (hv : v.IsPlain) :
    (g.data v).unrenderable? = none ↔ g.Expressible v := by
  constructor
  · intro h w hinside
    have hrenders : g.Renders (g.cells.size + 1) [] v := h
    obtain ⟨depth, around, -, haround, hw⟩ := hrenders.inside hplain (Around.start g) hinside
    exact hw.sound hplain haround
  · intro h
    exact h.renders hplain _ [] hv fun _ hmem => absurd hmem List.not_mem_nil

end Graph

end HomeAutomaton
