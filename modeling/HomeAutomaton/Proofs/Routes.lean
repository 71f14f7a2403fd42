import HomeAutomaton.Proofs.Containment
import Mathlib.Data.List.Induction

/-!
# Routes through a graph

A route goes from a value into one of its items, from there into one of the items of that, and so on; it is
given by the places of these items. Of two routes the one that goes into an earlier item where they part
comes first, and a route comes before its continuations. That is the order in which positions are come upon
depth first.

A graph with circles has routes without end, and of those through an object twice there need not be a first
one. Of the others there are finitely many for every object, so one of them is the first.

* `Graph.Leads` says where a route leads and which objects it goes through, `Graph.Reaches` that it leads to
  an object and through none twice, `Graph.First` that it is the first of those that do so.
* `Graph.Reaches.shortcut` is the result: a route to an object that can be come to earlier leads on to such
  objects alone.
* `Graph.exists_reaches_iff` says that there are routes to all objects inside a value.
-/

namespace HomeAutomaton

open Relation

/-! ### The order of routes -/

/-- The routes part, and the first goes into an earlier item. -/
def Parts (route later : List Nat) : Prop :=
  ∃ common i j rest rest', i < j ∧ route = common ++ i :: rest ∧ later = common ++ j :: rest'

/-- Routes still part behind a common start. -/
theorem Parts.cons {route later : List Nat} (h : Parts route later) (i : Nat) :
    Parts (i :: route) (i :: later) := by
  obtain ⟨common, j, k, rest, rest', hlt, rfl, rfl⟩ := h
  exact ⟨i :: common, j, k, rest, rest', hlt, rfl, rfl⟩

/-- They still part if one of them goes on. -/
theorem Parts.append {route later : List Nat} (h : Parts route later) (more : List Nat) :
    Parts (route ++ more) later := by
  obtain ⟨common, i, j, rest, rest', hlt, rfl, rfl⟩ := h
  exact ⟨common, i, j, rest ++ more, rest', hlt, by simp, rfl⟩

theorem Parts.append_right {route later : List Nat} (h : Parts route later) (more : List Nat) :
    Parts route (later ++ more) := by
  obtain ⟨common, i, j, rest, rest', hlt, rfl, rfl⟩ := h
  exact ⟨common, i, j, rest, rest' ++ more, hlt, rfl, by simp⟩

/-- The start of a route that parts from another one is on both of them, or parts as well. -/
theorem Parts.of_prefix {route later start : List Nat} (h : Parts route later) (hstart : start <+: route) :
    start <+: later ∨ Parts start later := by
  obtain ⟨common, i, j, rest, rest', hlt, rfl, rfl⟩ := h
  rcases List.prefix_or_prefix_of_prefix hstart (List.prefix_append common _) with hshort | ⟨more, rfl⟩
  · exact .inl (hshort.trans (List.prefix_append _ _))
  · cases more with
    | nil => exact .inl (by simp)
    | cons k more =>
      rw [List.prefix_append_right_inj, List.cons_prefix_cons] at hstart
      obtain ⟨rfl, -⟩ := hstart
      exact .inr ⟨common, k, j, more, rest', hlt, rfl, rfl⟩

/-- One route comes before another if it is a start of it, or parts from it. -/
theorem lt_iff_parts {route later : List Nat} :
    route < later ↔ (route <+: later ∧ route ≠ later) ∨ Parts route later := by
  -- along the route; at each place both go on alike, or one ends, or they part
  induction route generalizing later with
  | nil =>
    cases later with
    | nil => simp [Parts]
    | cons j later => simp
  | cons i route ih =>
    cases later with
    | nil => simp [Parts]
    | cons j later =>
      rw [List.cons_lt_cons_iff, ih, List.cons_prefix_cons]
      constructor
      · rintro (hlt | ⟨rfl, ⟨hstart, hne⟩ | hparts⟩)
        · exact .inr ⟨[], i, j, route, later, hlt, rfl, rfl⟩
        · exact .inl ⟨⟨rfl, hstart⟩, fun heq => hne (List.cons.inj heq).2⟩
        · exact .inr (hparts.cons i)
      · rintro (⟨⟨rfl, hstart⟩, hne⟩ | ⟨common, k, l, rest, rest', hlt, hroute, hlater⟩)
        · exact .inr ⟨rfl, .inl ⟨hstart, fun heq => hne (by rw [heq])⟩⟩
        · cases common with
          | nil =>
            obtain ⟨rfl, -⟩ := List.cons.inj hroute
            obtain ⟨rfl, -⟩ := List.cons.inj hlater
            exact .inl hlt
          | cons m common =>
            obtain ⟨rfl, rfl⟩ := List.cons.inj hroute
            obtain ⟨rfl, rfl⟩ := List.cons.inj hlater
            exact .inr ⟨rfl, .inr ⟨common, k, l, rest, rest', hlt, rfl, rfl⟩⟩

/-- What comes before the next route into an object: what comes before the object, the object, and what is
inside of its earlier items. -/
theorem lt_concat_iff {route other : List Nat} {i : Nat} :
    other < route ++ [i] ↔ other < route ∨ other = route ∨ ∃ j < i, route ++ [j] <+: other := by
  -- along the route that is continued
  induction route generalizing other with
  | nil =>
    cases other with
    | nil => simp
    | cons k other =>
      rw [List.nil_append, List.cons_lt_cons_iff]
      simp [List.not_lt_nil]
  | cons k route ih =>
    cases other with
    | nil => simp
    | cons l other =>
      rw [List.cons_append, List.cons_lt_cons_iff, List.cons_lt_cons_iff, ih]
      simp only [List.cons_append, List.cons_prefix_cons, List.cons.injEq]
      constructor
      · rintro (hlt | ⟨rfl, hlt | rfl | ⟨j, hj, hstart⟩⟩)
        · exact .inl (.inl hlt)
        · exact .inl (.inr ⟨rfl, hlt⟩)
        · exact .inr (.inl ⟨rfl, rfl⟩)
        · exact .inr (.inr ⟨j, hj, rfl, hstart⟩)
      · rintro ((hlt | ⟨rfl, hlt⟩) | ⟨rfl, rfl⟩ | ⟨j, hj, rfl, hstart⟩)
        · exact .inl hlt
        · exact .inr ⟨rfl, .inl hlt⟩
        · exact .inr ⟨rfl, .inr (.inl rfl)⟩
        · exact .inr ⟨rfl, .inr (.inr ⟨j, hj, hstart⟩)⟩

/-- Into the first item of an object one goes right after the object. -/
theorem lt_concat_zero_iff {route other : List Nat} :
    other < route ++ [0] ↔ other < route ∨ other = route := by
  rw [lt_concat_iff]
  simp

/-- Into the next item one goes after all that is inside of the one before. -/
theorem lt_concat_succ_iff {route other : List Nat} {i : Nat} :
    other < route ++ [i + 1] ↔ other < route ++ [i] ∨ route ++ [i] <+: other := by
  rw [lt_concat_iff, lt_concat_iff, or_assoc, or_assoc]
  refine or_congr_right (or_congr_right ?_)
  constructor
  · rintro ⟨j, hj, hstart⟩
    rcases Nat.lt_succ_iff_lt_or_eq.mp hj with hlt | rfl
    · exact .inl ⟨j, hlt, hstart⟩
    · exact .inr hstart
  · rintro (⟨j, hj, hstart⟩ | hstart)
    · exact ⟨j, Nat.lt_succ_of_lt hj, hstart⟩
    · exact ⟨i, Nat.lt_succ_self i, hstart⟩

/-! ### Where routes lead -/

/-- An object that is known by a number has this number. -/
theorem Cell.eq_of_identity_eq_number {label n : Nat} {cell : Cell} (h : cell.identity label = .number n) :
    n = label := by
  unfold identity at h
  split at h
  case h_4 => exact (Identity.number.inj h).symm
  all_goals cases h

/-- One that has items is known by its number. -/
theorem Cell.identity_of_items {label : Nat} {cell : Cell} (h : cell.items ≠ []) :
    cell.identity label = .number label := by
  unfold identity
  split
  case h_4 => rfl
  all_goals exact absurd rfl h

/-- An object in which something stands is recognised by its number. -/
theorem Cell.eq_of_identity {label label' : Nat} {cell cell' : Cell} (h : cell.items ≠ [])
    (hsame : cell.identity label = cell'.identity label') : label = label' := by
  rw [cell.identity_of_items h] at hsame
  exact cell'.eq_of_identity_eq_number hsame.symm

namespace Graph

variable {g : Graph} {root : Value}

/-- The route leads from the root to the value, through the objects with these identities, the nearest
first. -/
inductive Leads (g : Graph) (root : Value) : List Nat → Value → List Identity → Prop
  | here : g.Leads root [] root []
  | into {route : List Nat} {label i : Nat} {cell : Cell} {around : List Identity} {v : Value} :
      g.Leads root route (.ref label) around → g.cell? label = some cell → cell.items[i]? = some v →
      g.Leads root (route ++ [i]) v (cell.identity label :: around)

/-- The route leads to the object, and goes through no object twice. -/
def Reaches (g : Graph) (root : Value) (route : List Nat) (id : Identity) : Prop :=
  ∃ label cell around, g.Leads root route (.ref label) around ∧ g.cell? label = some cell ∧
    cell.identity label = id ∧ (id :: around).Nodup

/-- The route is the first of all that lead to the same object and go through no object twice. -/
def First (g : Graph) (root : Value) (route : List Nat) : Prop :=
  ∃ id, g.Reaches root route id ∧ ∀ other, g.Reaches root other id → ¬ other < route

/-- A route leads to one value, and through the same objects always. -/
theorem Leads.unique {route : List Nat} {v v' : Value} {around around' : List Identity}
    (h : g.Leads root route v around) (h' : g.Leads root route v' around') : v = v' ∧ around = around' := by
  -- on the first derivation; both end with a step into the same item
  induction h generalizing v' around' with
  | here =>
    generalize hroute : [] = route at h'
    cases h' with
    | here => exact ⟨rfl, rfl⟩
    | into => simp at hroute
  | @into route label i cell around v _ hcell hitem ih =>
    generalize hroute : route ++ [i] = route' at h'
    cases h' with
    | here => simp at hroute
    | into hleads hcell' hitem' =>
      obtain ⟨rfl, hlast⟩ := List.append_inj' hroute rfl
      obtain rfl := List.singleton_inj.mp hlast
      obtain ⟨hlabel, rfl⟩ := ih hleads
      obtain rfl := Value.ref.inj hlabel
      obtain rfl := Option.some.inj (hcell.symm.trans hcell')
      exact ⟨Option.some.inj (hitem.symm.trans hitem'), rfl⟩

/-- The objects around the end of a route are those to which its starts lead. -/
theorem Leads.mem_around {route : List Nat} {v : Value} {around : List Identity}
    (h : g.Leads root route v around) {start : List Nat} {id : Identity} (hstart : start <+: route)
    (hne : start ≠ route) (hreaches : g.Reaches root start id) : id ∈ around := by
  -- on the route; its last object is the one to which the longest start leads
  induction h with
  | here => exact absurd (List.prefix_nil.mp hstart) hne
  | @into route label i cell around v hleads hcell _ ih =>
    by_cases heq : start = route
    · subst heq
      obtain ⟨label', cell', _, hleads', hcell', rfl, -⟩ := hreaches
      obtain rfl := Value.ref.inj (hleads.unique hleads').1
      obtain rfl := Option.some.inj (hcell.symm.trans hcell')
      exact List.mem_cons_self
    · have hshort : start <+: route := (List.prefix_concat_iff.mp hstart).resolve_left hne
      exact List.mem_cons_of_mem _ (ih hshort heq)

/-- Every object around the end is the end of a start. -/
theorem Leads.exists_start {route : List Nat} {v : Value} {around : List Identity}
    (h : g.Leads root route v around) (hnodup : around.Nodup) {id : Identity} (hid : id ∈ around) :
    ∃ start, start <+: route ∧ start ≠ route ∧ g.Reaches root start id := by
  induction h with
  | here => cases hid
  | @into route label i cell around v hleads hcell _ ih =>
    have hlonger : route <+: route ++ [i] := List.prefix_append _ _
    -- the nearest object, or one around it
    rcases List.mem_cons.mp hid with rfl | hid
    · exact ⟨route, hlonger, by simp, label, cell, around, hleads, hcell, rfl, hnodup⟩
    · obtain ⟨start, hstart, -, hreaches⟩ := ih (List.nodup_cons.mp hnodup).2 hid
      have hne : start ≠ route ++ [i] := by
        rintro rfl
        have hlength := hstart.length_le
        rw [List.length_append, List.length_singleton] at hlength
        exact absurd hlength (Nat.not_succ_le_self _)
      exact ⟨start, hstart.trans hlonger, hne, hreaches⟩

theorem Reaches.unique {route : List Nat} {id id' : Identity} (h : g.Reaches root route id)
    (h' : g.Reaches root route id') : id = id' := by
  obtain ⟨label, cell, around, hleads, hcell, rfl, -⟩ := h
  obtain ⟨label', cell', around', hleads', hcell', rfl, -⟩ := h'
  obtain rfl := Value.ref.inj (hleads.unique hleads').1
  obtain rfl := Option.some.inj (hcell.symm.trans hcell')
  rfl

/-- Of the routes to an object, none is a start of another. -/
theorem Reaches.not_prefix {route start : List Nat} {id : Identity} (h : g.Reaches root route id)
    (hstart : g.Reaches root start id) (hbegins : start <+: route) : start = route := by
  by_contra hne
  obtain ⟨label, cell, around, hleads, -, -, hnodup⟩ := h
  exact (List.nodup_cons.mp hnodup).1 (hleads.mem_around hbegins hne hstart)

/-- A route to an object that comes before another one parts from it. -/
theorem Reaches.parts {route earlier : List Nat} {id : Identity} (h : g.Reaches root route id)
    (hearlier : g.Reaches root earlier id) (hlt : earlier < route) : Parts earlier route := by
  rcases lt_iff_parts.mp hlt with ⟨hbegins, hne⟩ | hparts
  · exact absurd (h.not_prefix hearlier hbegins) hne
  · exact hparts

/-- A route that goes on leads into an object. -/
theorem Leads.of_concat {route : List Nat} {i : Nat} {v : Value} {around : List Identity}
    (h : g.Leads root (route ++ [i]) v around) :
    ∃ label cell around', g.Leads root route (.ref label) around' ∧ g.cell? label = some cell ∧
      cell.items[i]? = some v ∧ around = cell.identity label :: around' := by
  generalize hlong : route ++ [i] = long at h
  cases h with
  | here => simp at hlong
  | into hleads hcell hitem =>
    obtain ⟨rfl, hlast⟩ := List.append_inj' hlong rfl
    obtain rfl := List.singleton_inj.mp hlast
    exact ⟨_, _, _, hleads, hcell, hitem, rfl⟩

/-- A route that goes somewhere goes into an item of the root first. -/
theorem Leads.of_cons {route : List Nat} {i : Nat} {v : Value} {around : List Identity}
    (h : g.Leads root (i :: route) v around) :
    ∃ label cell w around', root = .ref label ∧ g.cell? label = some cell ∧ cell.items[i]? = some w ∧
      g.Leads w route v around' := by
  -- routes grow at their end, so the induction takes items off there
  induction route using List.reverseRecOn generalizing v around with
  | nil =>
    rw [← List.nil_append [i]] at h
    obtain ⟨label, cell, _, hleads, hcell, hitem, -⟩ := h.of_concat
    obtain ⟨rfl, -⟩ := hleads.unique .here
    exact ⟨label, cell, v, [], rfl, hcell, hitem, .here⟩
  | append_singleton route j ih =>
    rw [← List.cons_append] at h
    obtain ⟨label', cell', _, hleads, hcell', hitem', rfl⟩ := h.of_concat
    obtain ⟨label, cell, w, around', hroot, hcell, hitem, hleads⟩ := ih hleads
    exact ⟨label, cell, w, _, hroot, hcell, hitem, .into hleads hcell' hitem'⟩

/-- A route to an object that goes on leads to another one, into one of whose items it goes on. -/
theorem Reaches.of_concat {route : List Nat} {i : Nat} {id : Identity} (h : g.Reaches root (route ++ [i]) id) :
    ∃ label cell around, g.Leads root route (.ref label) around ∧ g.cell? label = some cell ∧
      (cell.identity label :: around).Nodup ∧ i < cell.items.length := by
  obtain ⟨_, _, _, hlong, -, -, hnodup⟩ := h
  obtain ⟨label, cell, around, hleads, hcell, hitem, rfl⟩ := hlong.of_concat
  exact ⟨label, cell, around, hleads, hcell, (List.nodup_cons.mp hnodup).2,
    (List.getElem?_eq_some_iff.mp hitem).1⟩

/-- So all starts of a route to an object lead to objects. -/
theorem Reaches.start {start more : List Nat} {id : Identity} (h : g.Reaches root (start ++ more) id) :
    ∃ id', g.Reaches root start id' := by
  induction more using List.reverseRecOn generalizing id with
  | nil => exact ⟨id, by rwa [List.append_nil] at h⟩
  | append_singleton more i ih =>
    rw [← List.append_assoc] at h
    obtain ⟨label, cell, around, hleads, hcell, hnodup, -⟩ := h.of_concat
    exact ih ⟨label, cell, around, hleads, hcell, rfl, hnodup⟩

/-- **There is a short cut.** An object can be come to earlier. Then so can all objects that are come to by
continuing the later route to it, through no object twice. -/
theorem Reaches.shortcut {route earlier : List Nat} {id : Identity} (h : g.Reaches root route id)
    (hearlier : g.Reaches root earlier id) (hparts : Parts earlier route) (more : List Nat) {id' : Identity}
    (hmore : g.Reaches root (route ++ more) id') :
    ∃ other, g.Reaches root other id' ∧ Parts other route := by
  -- the induction is on what the route is continued by, item by item from its end
  induction more using List.reverseRecOn generalizing id' with
  | nil =>
    rw [List.append_nil] at hmore
    exact ⟨earlier, hmore.unique h ▸ hearlier, hparts⟩
  | append_singleton more i ih =>
    rw [← List.append_assoc] at hmore
    have hend := hmore
    obtain ⟨label', cell', around', hleads', hcell', rfl, hnodup⟩ := hend
    obtain ⟨label, cell, around, hleads, hcell, hitem, rfl⟩ := hleads'.of_concat
    have hitems : cell.items ≠ [] := List.ne_nil_of_mem (List.mem_of_getElem? hitem)
    -- the object in which the last one stands can be come to earlier
    obtain ⟨other, ⟨l, c, around'', hother, hc, hid, hnodup'⟩, hparts'⟩ :=
      ih ⟨label, cell, around, hleads, hcell, rfl, (List.nodup_cons.mp hnodup).2⟩
    obtain rfl := cell.eq_of_identity hitems hid.symm
    obtain rfl := Option.some.inj (hcell.symm.trans hc)
    have hinto := Leads.into hother hcell hitem
    by_cases hmem : cell'.identity label' ∈ cell.identity label :: around''
    · -- the last object has been passed on the way there, and not on the later route
      obtain ⟨start, hstart, hne, hreaches⟩ := hinto.exists_start hnodup' hmem
      have hshort : start <+: other := (List.prefix_concat_iff.mp hstart).resolve_left hne
      rcases hparts'.of_prefix hshort with hcommon | hstart
      · have hwhole : start <+: route ++ more ++ [i] :=
          hcommon.trans ((List.prefix_append _ _).trans (List.prefix_append _ _))
        have heq := hmore.not_prefix hreaches hwhole
        have hlength := hcommon.length_le
        rw [heq, List.length_append, List.length_append, List.length_singleton] at hlength
        omega
      · exact ⟨start, hreaches, hstart⟩
    · exact ⟨other ++ [i], ⟨label', cell', _, hinto, hcell', rfl, List.nodup_cons.mpr ⟨hmem, hnodup'⟩⟩,
        hparts'.append [i]⟩

/-- **Routes lead to all that stands inside a value**: there is one that goes through no object twice. -/
theorem exists_reaches_iff {id : Identity} : (∃ route, g.Reaches root route id) ↔
    ∃ label cell, ReflTransGen g.Item root (.ref label) ∧ g.cell? label = some cell ∧
      cell.identity label = id := by
  constructor
  · rintro ⟨route, label, cell, around, hleads, hcell, hid, -⟩
    refine ⟨label, cell, ?_, hcell, hid⟩
    generalize Value.ref label = v at hleads
    -- a route goes from item to item
    clear hid
    induction hleads with
    | here => exact .refl
    | into _ hcell' hitem ih => exact ih.tail ⟨_, _, rfl, hcell', List.mem_of_getElem? hitem⟩
  · rintro ⟨label, cell, hinside, hcell, rfl⟩
    -- on the way to the object; the route found so far goes on into the item
    generalize hv : Value.ref label = v at hinside
    induction hinside generalizing label cell with
    | refl => exact ⟨[], label, cell, [], hv ▸ .here, hcell, rfl, by simp⟩
    | tail _ hitem ih =>
      obtain ⟨label', cell', rfl, hcell', hmem⟩ := hitem
      obtain ⟨route, l, c, around, hleads, hc, hid, hnodup⟩ := ih label' cell' hcell' rfl
      obtain rfl := cell'.eq_of_identity (List.ne_nil_of_mem hmem) hid.symm
      obtain rfl := Option.some.inj (hcell'.symm.trans hc)
      obtain ⟨i, hi⟩ := List.mem_iff_getElem?.mp hmem
      have hinto := Leads.into hleads hcell' hi
      -- the object may be one of those that the route goes through
      by_cases hpassed : cell.identity label ∈ cell'.identity label' :: around
      · obtain ⟨start, -, -, hreaches⟩ := hinto.exists_start hnodup hpassed
        exact ⟨start, hreaches⟩
      · exact ⟨route ++ [i], label, cell, _, hv ▸ hinto, hcell, rfl, List.nodup_cons.mpr ⟨hpassed, hnodup⟩⟩

end Graph

end HomeAutomaton
