import HomeAutomaton.Proofs.PlainTrees
import HomeAutomaton.Returns
import HomeAutomaton.Yaml.Load

/-!
# What a copy leaves out

A value is left out of a copy for being met a second time, and for nothing else. Any object counts: a date
or bytes that an earlier route leads to are left out like a container. But there is a second way for an entry
to be lost. Keys become texts, and keys that differ may have the same text; of the entries that are not left
out the last one with a text stays, the others are not in the copy.

* `Graph.Repeated` says that an object is met on an earlier route, `Graph.Counts` that an entry of a mapping
  stays.
* `Graph.ShowsItems` and `Graph.ShowsEntries` are the results: what a list and what a mapping in the copy
  hold.
* `Model.once_omits` says so of every object that is copied. `Model.entries_lost` is a model of whose copy
  both a key and a date are missing.
-/

namespace HomeAutomaton

/-! ### Entries with the same key -/

/-- The entry at this place is in the copy, and it is the last one with its key that is. -/
def PresentLast (keys : List Data) (copies : List (Option Data)) (i : Nat) (e : Data × Data) : Prop :=
  keys[i]? = some e.1 ∧ copies[i]? = some (some e.2) ∧
    ∀ j d, i < j → keys[j]? = some e.1 → copies[j]? ≠ some (some d)

/-- If there is an entry with a key, there is a last one. -/
theorem exists_presentLast {keys : List Data} {copies : List (Option Data)} {i : Nat} {e : Data × Data}
    (hkey : keys[i]? = some e.1) (hcopy : copies[i]? = some (some e.2)) :
    ∃ j d, PresentLast keys copies j (e.1, d) := by
  -- the induction is on the number of places behind this one
  induction hn : keys.length - i using Nat.strongRecOn generalizing i e with
  | ind n ih =>
    by_cases hlater : ∃ j d, i < j ∧ keys[j]? = some e.1 ∧ copies[j]? = some (some d)
    · obtain ⟨j, d, hlt, hkey', hcopy'⟩ := hlater
      have hj : j < keys.length := (List.getElem?_eq_some_iff.mp hkey').1
      exact ih (keys.length - j) (by omega) (e := (e.1, d)) hkey' hcopy' rfl
    · refine ⟨i, e.2, hkey, hcopy, fun j d hlt hkey' hcopy' => hlater ⟨j, d, hlt, hkey', hcopy'⟩⟩

theorem presentEntries_cons (key : Data) (keys : List Data) (copy : Option Data)
    (copies : List (Option Data)) :
    presentEntries (key :: keys) (copy :: copies) =
      (copy.map fun d => (key, d)).toList ++ presentEntries keys copies := by
  cases copy <;> rfl

/-- The entries of a copy before one of them, and behind it. -/
theorem presentEntries_eq_append {keys : List Data} {copies : List (Option Data)} {i : Nat}
    {e : Data × Data} (hkey : keys[i]? = some e.1) (hcopy : copies[i]? = some (some e.2)) :
    presentEntries keys copies = presentEntries (keys.take i) (copies.take i) ++
      e :: presentEntries (keys.drop (i + 1)) (copies.drop (i + 1)) := by
  -- on the place of the entry
  induction i generalizing keys copies with
  | zero =>
    obtain ⟨keys, rfl⟩ := List.head?_eq_some_iff.mp (List.head?_eq_getElem? ▸ hkey)
    obtain ⟨copies, rfl⟩ := List.head?_eq_some_iff.mp (List.head?_eq_getElem? ▸ hcopy)
    rfl
  | succ i ih =>
    cases keys with
    | nil => cases hkey
    | cons key keys =>
      cases copies with
      | nil => cases hcopy
      | cons copy copies =>
        rw [List.take_succ_cons, List.take_succ_cons, presentEntries_cons, presentEntries_cons,
          List.append_assoc, ih hkey hcopy]
        rfl

/-- **Of the entries with one key the last one that is not left out stays.** -/
theorem mem_ofPairs_presentEntries_iff {keys : List Data} {copies : List (Option Data)}
    (htext : ∀ e ∈ presentEntries keys copies, e.1.IsText) {e : Data × Data} :
    e ∈ Table.ofPairs (presentEntries keys copies) ↔ ∃ i, PresentLast keys copies i e := by
  have hlast : ∀ {i e}, PresentLast keys copies i e → e ∈ Table.ofPairs (presentEntries keys copies) := by
    rintro i e ⟨hkey, hcopy, hlater⟩
    have hsplit := presentEntries_eq_append hkey hcopy
    generalize hbefore : presentEntries (keys.take i) (copies.take i) = before at hsplit
    -- the entry stands behind those that come before it
    have hplace : (presentEntries keys copies)[before.length]? = some (e.1, e.2) := by
      rw [hsplit, List.getElem?_append_right (Nat.le_refl _), Nat.sub_self]
      rfl
    -- and in front of those that come after it, none of which has its key
    have hbehind : (presentEntries keys copies).drop (before.length + 1) =
        presentEntries (keys.drop (i + 1)) (copies.drop (i + 1)) := by
      rw [hsplit, List.append_cons, List.drop_left' (by rw [List.length_append]; rfl)]
    refine Table.mem_of_get? (htext e ?_) (Table.get?_putAll htext [] hplace fun later hmem heq => ?_)
    · exact mem_presentEntries_iff.mpr ⟨i, hkey, hcopy⟩
    · rw [hbehind, mem_presentEntries_iff] at hmem
      obtain ⟨j, hkey', hcopy'⟩ := hmem
      rw [List.getElem?_drop] at hkey' hcopy'
      exact hlater (i + 1 + j) later.2 (by omega) (heq ▸ hkey') hcopy'
  constructor
  · intro hmem
    have hkey : e.1 ∈ (presentEntries keys copies).map (·.1) :=
      ((Table.mem_keys_putAll htext [] e.1).mp (List.mem_map_of_mem hmem)).resolve_left List.not_mem_nil
    obtain ⟨e', he', hsame⟩ := List.mem_map.mp hkey
    obtain ⟨i, hkey', hcopy'⟩ := mem_presentEntries_iff.mp he'
    obtain ⟨j, d, hj⟩ := exists_presentLast hkey' hcopy'
    -- no key is in the table twice, so this is the entry
    have hnodup : ((Table.ofPairs (presentEntries keys copies)).map (·.1)).Nodup :=
      Table.keys_putAll_nodup htext List.nodup_nil
    obtain rfl : (e'.1, d) = e := List.inj_on_of_nodup_map hnodup (hlast hj) hmem hsame
    exact ⟨j, hj⟩
  · rintro ⟨i, hi⟩
    exact hlast hi

/-! ### Objects that are met again -/

/-- The entries of an object that is copied to a mapping. -/
def Cell.entries? : Cell → Option (Table Value)
  | .map entries => some entries
  | .object attributes => some ((Graph.publicAttributes attributes).map fun a => (.str a.1, a.2))
  | _ => none

/-- The items of an object that is copied to a list. -/
def Cell.sequence? : Cell → Option (List Value)
  | .list items | .tuple items | .set items => some items
  | _ => none

namespace Graph

variable {g : Graph} {root v : Value} {route : List Nat} {around ids : List Identity} {copy : Option Data}

/-- The value is an object, and an earlier route leads to it. -/
def Repeated (g : Graph) (root : Value) (route : List Nat) (v : Value) : Prop :=
  ∃ label, v = .ref label ∧ ∀ cell, g.cell? label = some cell →
    ∃ earlier, earlier < route ∧ g.Reaches root earlier (cell.identity label)

/-- The entry of the mapping at the end of the route is not repeated, but all later entries are whose keys
have the same text. -/
def Counts (g : Graph) (root : Value) (route : List Nat) (es : Table Value) (i : Nat) (e : Data × Value) :
    Prop :=
  es[i]? = some e ∧ ¬ g.Repeated root (route ++ [i]) e.2 ∧
    ∀ j e', i < j → es[j]? = some e' → e'.1.text = e.1.text → g.Repeated root (route ++ [j]) e'.2

/-- **What a list in the copy holds**, given the items of the object at the end of the route. -/
structure ShowsItems (g : Graph) (root : Value) (route : List Nat) (vs : List Value) (ds : List Data) :
    Prop where
  length : ds.length = vs.length
  /-- An item is copied unless it is repeated. -/
  copied : ∀ (i : Nat) v d, vs[i]? = some v → ds[i]? = some d → ¬ g.Repeated root (route ++ [i]) v →
    ∃ ids, g.Copied Cell.copy root (route ++ [i]) v (some d) ids
  /-- So null stands for what is null and for what is repeated, and for nothing else. -/
  null_iff : ∀ (i : Nat) v d, vs[i]? = some v → ds[i]? = some d →
    (d = .null ↔ v = .null ∨ g.Repeated root (route ++ [i]) v)

/-- **What a mapping in the copy holds**, given the entries of the object at the end of the route. -/
structure ShowsEntries (g : Graph) (root : Value) (route : List Nat) (es : Table Value)
    (ds : List (Data × Data)) : Prop where
  keys : (ds.map (·.1)).Nodup
  /-- In the copy are the entries that count. -/
  mem_iff : ∀ key d, (key, d) ∈ ds ↔ ∃ i e ids, g.Counts root route es i e ∧ key = .str e.1.text ∧
    g.Copied Cell.copy root (route ++ [i]) e.2 (some d) ids
  /-- Each of them is there. -/
  copied : ∀ i e, g.Counts root route es i e → ∃ d, (.str e.1.text, d) ∈ ds
  /-- No two of them have the same key, so each has an entry of its own. -/
  apart : ∀ i e j e', g.Counts root route es i e → g.Counts root route es j e' → e.1.text = e'.1.text → i = j

/-- An object is repeated if and only if the route is not the first to it. -/
theorem repeated_iff (hleads : g.Leads root route v around) (haround : around.Nodup) :
    g.Repeated root route v ↔ ¬ ∀ label, v = .ref label → g.First root route := by
  constructor
  -- an earlier route and being the first exclude each other
  · rintro ⟨label, rfl, hearlier⟩ hfirst
    obtain ⟨_, ⟨label', cell, _, hleads', hcell, rfl, -⟩, hleast⟩ := hfirst label rfl
    obtain rfl := Value.ref.inj (hleads.unique hleads').1
    obtain ⟨earlier, hlt, hreaches⟩ := hearlier cell hcell
    exact hleast earlier hreaches hlt
  · intro hnot
    simp only [not_forall] at hnot
    obtain ⟨label, rfl, hnot⟩ := hnot
    refine ⟨label, rfl, fun cell hcell => ?_⟩
    by_cases hmem : cell.identity label ∈ around
    · -- the object is met inside itself
      obtain ⟨start, hstart, hne, hreaches⟩ := hleads.exists_start haround hmem
      exact ⟨start, lt_iff_parts.mpr (.inl ⟨hstart, hne⟩), hreaches⟩
    · have hreaches : g.Reaches root route (cell.identity label) :=
        ⟨label, cell, around, hleads, hcell, rfl, List.nodup_cons.mpr ⟨hmem, haround⟩⟩
      by_contra hnone
      exact hnot ⟨_, hreaches, fun other hother hlt => hnone ⟨other, hlt, hother⟩⟩

/-- What is copied is what is not repeated. -/
theorem Copied.isSome_iff_not_repeated {write : Cell → List (Option Data) → Data}
    (h : g.Copied write root route v copy ids) (hleads : g.Leads root route v around)
    (haround : around.Nodup) : (∃ d, copy = some d) ↔ ¬ g.Repeated root route v := by
  rw [h.isSome_iff, repeated_iff hleads haround, not_not]

/-- Only null is copied to null. -/
theorem Copied.eq_null_iff {d : Data} (h : g.Copied Cell.copy root route v (some d) ids) :
    d = .null ↔ v = .null := by
  cases h with
  | scalar hscalar =>
    cases v with
    | ref label => cases hscalar
    | _ =>
      obtain rfl := Option.some.inj hscalar
      simp
  | @inFull _ label cell copies inside _ _ _ _ _ =>
    refine iff_of_false ?_ nofun
    cases cell <;> exact nofun

/-- The first route to an object goes through no object twice. -/
theorem First.nodup {label : Nat} {cell : Cell} (h : g.First root route)
    (hleads : g.Leads root route (.ref label) around) (hcell : g.cell? label = some cell) :
    (cell.identity label :: around).Nodup := by
  obtain ⟨_, ⟨label', cell', around', hleads', hcell', rfl, hnodup⟩, -⟩ := h
  obtain ⟨heq, rfl⟩ := hleads.unique hleads'
  obtain rfl := Value.ref.inj heq
  obtain rfl := Option.some.inj (hcell.symm.trans hcell')
  exact hnodup

/-- No two entries that count have one text. -/
theorem Counts.apart {es : Table Value} {i j : Nat} {e e' : Data × Value} (h : g.Counts root route es i e)
    (h' : g.Counts root route es j e') (htext : e.1.text = e'.1.text) : i = j := by
  obtain ⟨hentry, hkept, hlater⟩ := h
  obtain ⟨hentry', hkept', hlater'⟩ := h'
  rcases Nat.lt_trichotomy i j with hlt | heq | hlt
  · exact absurd (hlater j e' hlt hentry' htext.symm) hkept'
  · exact heq
  · exact absurd (hlater' i e hlt hentry htext) hkept

/-! ### The copy of one object -/

/-- The copies of the items of an object: those that are not repeated are there. -/
def CopiesItems (g : Graph) (root : Value) (route : List Nat) (vs : List Value) (copies : List (Option Data)) :
    Prop :=
  copies.length = vs.length ∧ ∀ (i : Nat) v copy, vs[i]? = some v → copies[i]? = some copy →
    (∃ ids, g.Copied Cell.copy root (route ++ [i]) v copy ids) ∧
      ((∃ d, copy = some d) ↔ ¬ g.Repeated root (route ++ [i]) v)

variable {copies : List (Option Data)}

/-- An object that is written out is written out with the copies of its items. -/
theorem Copied.exists_copies {label : Nat} {cell : Cell} {d : Data}
    (h : g.Copied Cell.copy root route (.ref label) (some d) ids)
    (hleads : g.Leads root route (.ref label) around) (hcell : g.cell? label = some cell) :
    ∃ copies, d = cell.copy copies ∧ g.CopiesItems root route cell.items copies := by
  cases h with
  | scalar hscalar => cases hscalar
  | @inFull _ _ _ copies inside hfirst hcell' hcopies hinside hitems =>
    obtain rfl := Option.some.inj (hcell.symm.trans hcell')
    refine ⟨copies, rfl, hcopies, fun i v copy hv hcopy => ?_⟩
    have hlt : i < inside.length := hinside ▸ (List.getElem?_eq_some_iff.mp hv).1
    have hitem := hitems i v copy inside[i] hv hcopy (List.getElem?_eq_getElem hlt)
    exact ⟨⟨_, hitem⟩, hitem.isSome_iff_not_repeated (.into hleads hcell hv) (hfirst.nodup hleads hcell)⟩

/-- Every item has a copy, or is left out. -/
theorem CopiesItems.get {vs : List Value} (h : g.CopiesItems root route vs copies) {i : Nat}
    (hv : vs[i]? = some v) : ∃ copy, copies[i]? = some copy :=
  ⟨_, List.getElem?_eq_getElem (h.1 ▸ (List.getElem?_eq_some_iff.mp hv).1)⟩

/-- An item that is not repeated has a copy. -/
theorem CopiesItems.get_some {vs : List Value} (h : g.CopiesItems root route vs copies) {i : Nat}
    (hv : vs[i]? = some v) : ¬ g.Repeated root (route ++ [i]) v ↔
      ∃ d ids, copies[i]? = some (some d) ∧ g.Copied Cell.copy root (route ++ [i]) v (some d) ids := by
  obtain ⟨copy, hcopy⟩ := h.get hv
  obtain ⟨⟨ids, hitem⟩, hsome⟩ := h.2 i v copy hv hcopy
  rw [← hsome]
  constructor
  · rintro ⟨d, rfl⟩
    exact ⟨d, ids, hcopy, hitem⟩
  · rintro ⟨d, _, hd, -⟩
    exact ⟨d, Option.some.inj (hcopy.symm.trans hd)⟩

/-- In a list, null stands in the place of an item without a copy. -/
theorem getElem?_of_map_getD {i : Nat} {d : Data} (hd : (copies.map fun copy => copy.getD .null)[i]? = some d) :
    ∃ copy, copies[i]? = some copy ∧ copy.getD .null = d := by
  rw [List.getElem?_map] at hd
  exact Option.map_eq_some_iff.mp hd

/-- A list holds the copies of its items, with null for those that are repeated. -/
theorem CopiesItems.showsItems {vs : List Value} (h : g.CopiesItems root route vs copies) :
    g.ShowsItems root route vs (copies.map fun copy => copy.getD .null) where
  length := (List.length_map _).trans h.1
  copied i v d hv hd hkept := by
    obtain ⟨copy, hcopy, rfl⟩ := getElem?_of_map_getD hd
    obtain ⟨⟨ids, hitem⟩, hsome⟩ := h.2 i v copy hv hcopy
    obtain ⟨d, rfl⟩ := hsome.mpr hkept
    exact ⟨ids, hitem⟩
  null_iff i v d hv hd := by
    obtain ⟨copy, hcopy, rfl⟩ := getElem?_of_map_getD hd
    obtain ⟨⟨ids, hitem⟩, hsome⟩ := h.2 i v copy hv hcopy
    -- a copy that is null is that of a null, or of something left out
    cases copy with
    | none =>
      refine iff_of_true rfl (.inr ?_)
      by_contra hkept
      obtain ⟨d, hd⟩ := hsome.mpr hkept
      cases hd
    | some d =>
      rw [or_iff_left (hsome.mp ⟨d, rfl⟩)]
      exact hitem.eq_null_iff

/-! ### The copy of a mapping -/

/-- The keys under which entries stand in a copy. -/
def exportedKeys (es : Table Value) : List Data := es.map fun e => e.1.exportKey

section Entries

variable {es : Table Value} {i : Nat} {e : Data × Value} {d : Data}

/-- An entry has its value at its place. -/
theorem getElem?_values (he : es[i]? = some e) : (es.map (·.2))[i]? = some e.2 := by
  rw [List.getElem?_map, he]
  rfl

/-- The key of an entry that is not left out is its text, if it has one. -/
theorem exportedKeys_of_present
    (hshort : Data.anyEntryLongKey (presentEntries (exportedKeys es) copies) = false)
    (he : es[i]? = some e) (hd : copies[i]? = some (some d)) :
    (exportedKeys es)[i]? = some (.str e.1.text) := by
  have hkey : (exportedKeys es)[i]? = some e.1.exportKey := by
    rw [exportedKeys, List.getElem?_map, he]
    rfl
  have hpresent : (e.1.exportKey, d) ∈ presentEntries (exportedKeys es) copies :=
    mem_presentEntries_iff.mpr ⟨i, hkey, hd⟩
  have hlong := (Data.anyEntryLongKey_eq_false.mp hshort _ hpresent).1
  rw [hkey, Data.exportKey, ← e.1.hasLongNumber_exportKey, hlong]
  rfl

/-- A key in the copy is that of an entry. -/
theorem exists_entry_of_present
    (hshort : Data.anyEntryLongKey (presentEntries (exportedKeys es) copies) = false) {key : Data}
    (hkey : (exportedKeys es)[i]? = some key) (hd : copies[i]? = some (some d)) :
    ∃ e, es[i]? = some e ∧ key = .str e.1.text := by
  have hplace := hkey
  rw [exportedKeys, List.getElem?_map] at hplace
  obtain ⟨e, he, -⟩ := Option.map_eq_some_iff.mp hplace
  exact ⟨e, he, Option.some.inj (hkey.symm.trans (exportedKeys_of_present hshort he hd))⟩

/-- The entries that count are the last ones with their key that are not left out. -/
theorem CopiesItems.presentLast_iff (h : g.CopiesItems root route (es.map (·.2)) copies)
    (hshort : Data.anyEntryLongKey (presentEntries (exportedKeys es) copies) = false)
    (he : es[i]? = some e) (hd : copies[i]? = some (some d)) :
    PresentLast (exportedKeys es) copies i (.str e.1.text, d) ↔ g.Counts root route es i e := by
  -- what has a copy is not repeated
  have hkept : ∀ {j : Nat} {e' : Data × Value} {d' : Data}, es[j]? = some e' → copies[j]? = some (some d') →
      ¬ g.Repeated root (route ++ [j]) e'.2 := by
    intro j e' d' he' hd'
    exact (h.2 j e'.2 (some d') (getElem?_values he') hd').2.mp ⟨d', rfl⟩
  constructor
  · rintro ⟨-, -, hlater⟩
    refine ⟨he, hkept he hd, fun j e' hlt he' hsame => ?_⟩
    by_contra hpresent
    obtain ⟨d', _, hd', -⟩ := (h.get_some (getElem?_values he')).mp hpresent
    exact hlater j d' hlt (hsame ▸ exportedKeys_of_present hshort he' hd') hd'
  · rintro ⟨-, -, hlater⟩
    refine ⟨exportedKeys_of_present hshort he hd, hd, fun j d' hlt hkey hd' => ?_⟩
    obtain ⟨e', he', heq⟩ := exists_entry_of_present hshort hkey hd'
    exact hkept he' hd' (hlater j e' hlt he' (Data.str.inj heq).symm)

/-- Keys in the copy are texts. -/
theorem isText_of_mem_presentEntries
    (hshort : Data.anyEntryLongKey (presentEntries (exportedKeys es) copies) = false) :
    ∀ e ∈ presentEntries (exportedKeys es) copies, e.1.IsText := by
  intro e he
  obtain ⟨i, hkey, hd⟩ := mem_presentEntries_iff.mp he
  obtain ⟨e', -, heq⟩ := exists_entry_of_present hshort hkey hd
  exact heq ▸ Data.isText_str _

/-- A mapping in the copy has the copies of the entries that count. -/
theorem CopiesItems.mem_exportEntries_iff (h : g.CopiesItems root route (es.map (·.2)) copies)
    (hshort : Data.anyEntryLongKey (presentEntries (exportedKeys es) copies) = false) {key : Data} :
    (key, d) ∈ Data.exportEntries (presentEntries (exportedKeys es) copies) ↔
      ∃ i e ids, g.Counts root route es i e ∧ key = .str e.1.text ∧
        g.Copied Cell.copy root (route ++ [i]) e.2 (some d) ids := by
  rw [Data.exportEntries, hshort, if_neg Bool.false_ne_true,
    mem_ofPairs_presentEntries_iff (isText_of_mem_presentEntries hshort)]
  constructor
  -- the last entry that is not left out counts, and its copy is what stands there
  · rintro ⟨i, hlast⟩
    obtain ⟨e, he, rfl⟩ := exists_entry_of_present hshort hlast.1 hlast.2.1
    obtain ⟨⟨ids, hitem⟩, -⟩ := h.2 i e.2 (some d) (getElem?_values he) hlast.2.1
    exact ⟨i, e, ids, (h.presentLast_iff hshort he hlast.2.1).mp hlast, rfl, hitem⟩
  · rintro ⟨i, e, ids, hcounts, rfl, hitem⟩
    obtain ⟨d', ids', hd, hitem'⟩ := (h.get_some (getElem?_values hcounts.1)).mp hcounts.2.1
    obtain rfl := Option.some.inj (hitem.unique hitem').1
    exact ⟨i, (h.presentLast_iff hshort hcounts.1 hd).mpr hcounts⟩

/-- No two of them have the same key, and none is missing. -/
theorem CopiesItems.showsEntries (h : g.CopiesItems root route (es.map (·.2)) copies)
    (hshort : Data.anyEntryLongKey (presentEntries (exportedKeys es) copies) = false) :
    g.ShowsEntries root route es (Data.exportEntries (presentEntries (exportedKeys es) copies)) where
  keys := by
    rw [Data.exportEntries, hshort]
    exact Table.keys_putAll_nodup (isText_of_mem_presentEntries hshort) List.nodup_nil
  mem_iff _ _ := h.mem_exportEntries_iff hshort
  copied i e hcounts := by
    obtain ⟨d, ids, -, hitem⟩ := (h.get_some (getElem?_values hcounts.1)).mp hcounts.2.1
    exact ⟨d, (h.mem_exportEntries_iff hshort).mpr ⟨i, e, ids, hcounts, rfl, hitem⟩⟩
  apart _ _ _ _ hcounts hcounts' := hcounts.apart hcounts'

end Entries

/-- The copy of an object has what its kind of container shows. -/
theorem CopiesItems.shows {cell : Cell} (h : g.CopiesItems root route cell.items copies)
    (hshort : (cell.copy copies).hasLongKey = false) :
    (∀ vs, cell.sequence? = some vs → ∃ ds, cell.copy copies = .list ds ∧ g.ShowsItems root route vs ds) ∧
      ∀ es, cell.entries? = some es → ∃ ds, cell.copy copies = .map ds ∧ g.ShowsEntries root route es ds := by
  -- sequences, mappings and attributes are copied each in their way
  cases cell with
  | list vs | tuple vs | set vs =>
    refine ⟨fun _ hvs => ?_, fun _ hes => ?_⟩
    · cases hvs
      exact ⟨_, rfl, h.showsItems⟩
    · cases hes
  | map es =>
    refine ⟨fun _ hvs => ?_, fun _ hes => ?_⟩
    · cases hvs
    · cases hes
      rw [Cell.copy, Data.hasLongKey_exportEntries] at hshort
      exact ⟨_, rfl, h.showsEntries hshort⟩
  | object attributes =>
    refine ⟨fun _ hvs => ?_, fun _ hes => ?_⟩
    · cases hvs
    · cases hes
      -- the names of attributes are texts already
      have hkeys : (Cell.object attributes).exportKeys =
          exportedKeys ((publicAttributes attributes).map fun a => (.str a.1, a.2)) := by
        rw [exportedKeys, List.map_map]
        exact List.map_congr_left fun a _ => (Data.exportKey_of_isText (Data.isText_str a.1)).symm
      have hvalues : (Cell.object attributes).items =
          ((publicAttributes attributes).map fun a => (Data.str a.1, a.2)).map (·.2) := by
        rw [List.map_map]
        rfl
      rw [Cell.copy, Data.hasLongKey_exportEntries, hkeys] at hshort
      rw [hvalues] at h
      rw [Cell.copy, hkeys]
      exact ⟨_, rfl, h.showsEntries hshort⟩
  | bytes | date | dateTime =>
    refine ⟨fun _ hvs => ?_, fun _ hes => ?_⟩
    · cases hvs
    · cases hes

end Graph

/-- **What the copy of a model omits.** If there is a copy, it has the copies of all objects in it, from the
root on. An item of a list is null in the copy if it is null, or an object to which an earlier route leads;
otherwise it is copied. An entry of a mapping is in the copy unless its value is such an object, or a later
entry that is in the copy has a key with the same text. -/
theorem Model.once_omits {model : Model} (htree : model.once.IsTree) :
    (∃ copy ids, model.graph.Copied Cell.copy model.root [] model.root copy ids ∧
      copy.getD .null = model.once) ∧
    ∀ route label around cell d ids, model.graph.Leads model.root route (.ref label) around →
      model.graph.cell? label = some cell →
      model.graph.Copied Cell.copy model.root route (.ref label) (some d) ids →
      (∀ vs, cell.sequence? = some vs →
        ∃ ds, d = .list ds ∧ model.graph.ShowsItems model.root route vs ds) ∧
      ∀ es, cell.entries? = some es →
        ∃ ds, d = .map ds ∧ model.graph.ShowsEntries model.root route es ds := by
  refine ⟨?_, fun route label around cell d ids hleads hcell hcopied => ?_⟩
  · obtain ⟨ids, -, hcopied, -, -⟩ := model.graph.visits_root model.root (Nat.lt_succ_self _)
    exact ⟨_, ids, hcopied, rfl⟩
  · have hkeys := Graph.isTree_once_iff.mp htree
    -- a copy that is a tree has a text for every key
    have hshort : d.hasLongKey = false :=
      (hcopied.hasLongKey_iff hleads).mpr (fun more key hkeeps => hkeys _ key hkeeps) d rfl
    obtain ⟨copies, rfl, hitems⟩ := hcopied.exists_copies hleads hcell
    exact hitems.shows hshort

theorem Graph.Copied.root {g : Graph} {root : Value} {copy : Option Data} {ids : List Identity} {label : Nat}
    {cell : Cell} (h : g.Copied Cell.copy root [] root copy ids) (hroot : root = .ref label)
    (hcell : g.cell? label = some cell) : ∃ d, copy = some d := by
  refine h.isSome_iff.mpr fun _ _ => ⟨_, ⟨label, cell, [], ?_, hcell, rfl, List.nodup_singleton _⟩, ?_⟩
  · exact hroot ▸ .here
  · exact fun _ _ => List.not_lt_nil _

/-- A shelf of paints. Two keys have the same text, and one date stands in two places. -/
def shelfText : String := "1: red\n'1': blue\nmade: &day 2024-01-02\nseen: [*day]\n"

/-- The shelf is copied like that. -/
theorem Model.once_omits_shelf : ∃ m, Model.ofYaml shelfText = .ok m ∧ m.once.IsTree ∧
    ∃ cell es ds, m.graph.deref? m.root = some cell ∧ cell.entries? = some es ∧ m.once = .map ds ∧
      m.graph.ShowsEntries m.root [] es ds := by
  obtain ⟨m, hread, hshort, hmapping⟩ : ∃ m, Model.ofYaml shelfText = .ok m ∧ m.once.hasLongKey = false ∧
      ((m.graph.deref? m.root).bind Cell.entries?).isSome = true := exists_of_decide (by decide +kernel)
  have htree : m.once.IsTree := Graph.isTree_once_of_hasLongKey hshort
  obtain ⟨es, hes⟩ := Option.isSome_iff_exists.mp hmapping
  obtain ⟨cell, hderef, hentries⟩ := Option.bind_eq_some_iff.mp hes
  obtain ⟨label, hroot, hcell⟩ := Graph.deref?_eq_some hderef
  obtain ⟨⟨copy, ids, hcopied, honce⟩, hshows⟩ := once_omits htree
  obtain ⟨d, rfl⟩ := hcopied.root hroot hcell
  have hleads : m.graph.Leads m.root [] (.ref label) [] := hroot ▸ .here
  have hmap : m.graph.Copied Cell.copy m.root [] (.ref label) (some d) ids := hroot ▸ hcopied
  obtain ⟨ds, rfl, hds⟩ := (hshows [] label [] cell d ids hleads hcell hmap).2 es hentries
  exact ⟨m, hread, htree, cell, es, ds, hderef, hentries, honce.symm, hds⟩

/-- **A key and a date are lost.** Neither red paint, which is no object, nor the day in the list, which is no
container, is in the copy. -/
theorem Model.entries_lost : ∃ m, Model.ofYaml shelfText = .ok m ∧ m.root = .ref 0 ∧
    (((m.graph.deref? m.root).bind Cell.entries?).map fun es => es.map fun e => (e.1.str?, e.1.text, e.2)) =
      some [(none, "1", .str "red"), (some "1", "1", .str "blue"), (some "made", "made", .ref 1),
        (some "seen", "seen", .ref 2)] ∧
    ((m.graph.cell? 1).bind fun cell => (cell.copy []).str?) = some "2024-01-02" ∧
    (m.graph.cell? 2).bind Cell.sequence? = some [.ref 1] ∧
    Json.print none m.once =
      "\x7b\"1\": \"blue\", \"made\": \"2024-01-02\", \"seen\": [null]\x7d" :=
  exists_of_decide (by decide +kernel)

end HomeAutomaton
