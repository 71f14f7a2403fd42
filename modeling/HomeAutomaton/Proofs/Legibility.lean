import HomeAutomaton.Model.Legibility
import HomeAutomaton.Returns

/-!
# The machine of a legible model

Reading a record can end in a fault in many ways, and each of them is the fault of one value that cannot
be read as what it stands for. None of these faults refuses the model with a message. So it is said of
every function at once what it gives and what its faults show: that a condition does not hold under which
the records are legible. Types are left out of the condition: where one cannot be written, the fault is
always the same, and what it shows is for the caller to say.

What is kept up while nodes and transitions are added is that all paths and event names are as demanded
(`Machine.Meets`).

* `Fault.Breaks` is what is said of a fault, `Fault.Blames` what is to be known of what a caller says.
* `Graph.attributes_ends` and `Graph.recordsIn_ends` read single values, `Record.node?_ends` and
  `Record.addPointerTransition_ends` single records, `Record.addTransitions_ends` the transitions that a
  record of a tree holds.
* `Machine.ofTable_ends` and `Machine.ofTree_ends` run over all records.
-/

namespace HomeAutomaton

/-- The fault does not refuse the model with a message, and it shows that the condition does not hold. -/
def Fault.Breaks (condition : Prop) (e : Fault) : Prop := e.message? = none ∧ ¬ condition

/-- What is said of faults covers those that show that the condition does not hold, and that of a type of
the records that cannot be written. -/
structure Fault.Blames (condition : Prop) (g : Graph) (records : Record → Prop)
    (blame : Fault → Prop) : Prop where
  breaks : ∀ e : Fault, e.Breaks condition → blame e
  type : ∀ r, records r → r.typeText? g = none → blame .numberTooLong

/-- Fewer records have fewer types that cannot be written. -/
theorem Fault.Blames.sub {condition : Prop} {g : Graph} {records fewer : Record → Prop}
    {blame : Fault → Prop} (h : Fault.Blames condition g records blame)
    (hfewer : ∀ r, fewer r → records r) : Fault.Blames condition g fewer blame :=
  ⟨h.breaks, fun r hr => h.type r (hfewer r hr)⟩

/-- Where nothing is said of faults, nothing has to be known of them. -/
theorem Fault.Blames.any {condition : Prop} {g : Graph} {records : Record → Prop} :
    Fault.Blames condition g records fun _ => True :=
  ⟨fun _ _ => trivial, fun _ _ _ => trivial⟩

/-- Where the condition holds there is a result. -/
theorem Ends.returns {α : Type} {H : Prop} {x : Except Fault α} {post : α → Prop}
    (h : Ends (Fault.Breaks H) x post) (hH : H) : Returns x post := by
  cases x with
  | ok a => exact .ok h
  | error e => exact absurd hH h.2

/-- A computation that returns where the condition holds, and does not refuse the model in any case. -/
theorem Ends.of_returns {α : Type} {H : Prop} {x : Except Fault α} {post : α → Prop}
    (hblame : Ends (·.message? = none) x fun _ => True) (h : H → Returns x post) :
    Ends (Fault.Breaks H) x fun a => H → post a := by
  cases x with
  | ok a =>
    refine .ok fun hH => ?_
    obtain ⟨_, heq, ha⟩ := h hH
    rwa [Except.ok.inj heq]
  | error e =>
    refine .error ⟨hblame, fun hH => ?_⟩
    obtain ⟨_, heq, -⟩ := h hH
    cases heq

/-- The paths and the event names of the machine are as demanded, and no path of a node is missing. -/
structure Machine.Meets (demand : Demand) (m : Machine) : Prop where
  paths : ∀ n ∈ m.nodes, n.path.isFilled = true ∧ demand.path n.path
  sources : ∀ t ∈ m.transitions, demand.path t.src
  destinations : ∀ t ∈ m.transitions, demand.path t.dst
  events : ∀ t ∈ m.transitions, demand.event t.attributes t.eventName
  titles : ∀ t ∈ m.transitions, t.path.isFilled = true → demand.path t.path

/-- Nothing is demanded of an empty machine. -/
theorem Machine.meets_empty (demand : Demand) : Machine.Meets demand {} := by
  constructor <;> intro _ h <;> exact absurd h List.not_mem_nil

variable {H : Prop} {demand : Demand}

/-- The title is the path or is made of the ends, so it can be put into words if these can. -/
theorem Transition.requireTitle_of_written {t : Transition}
    (hpath : t.path.isFilled = true → t.path.hasLongNumber = false)
    (hsrc : t.src.hasLongNumber = false) (hdst : t.dst.hasLongNumber = false) :
    t.requireTitle = .ok () := by
  unfold requireTitle makeTitle title
  split
  next hfilled => simp [Data.requireText, hpath hfilled]
  next => simp [Data.requireText, hsrc, hdst, Data.hasLongNumber]

/-- Paths that are as demanded can be put into words, and so can the titles that are made of them. -/
theorem Machine.Meets.titled {m : Machine} (h : m.Meets demand) : m.Titled := fun t ht =>
  Transition.requireTitle_of_written
    (fun hfilled => demand.hasLongNumber_of_path (h.titles t ht hfilled))
    (demand.hasLongNumber_of_path (h.sources t ht))
    (demand.hasLongNumber_of_path (h.destinations t ht))

/-! ### Values -/

/-- A value without a long number can be written. -/
theorem Data.requireText_ends {d : Data} (h : H → d.hasLongNumber = false) :
    Ends (Fault.Breaks H) d.requireText fun _ => True := by
  unfold requireText
  split
  next hlong =>
    refine .error ⟨rfl, fun hH => ?_⟩
    rw [h hH] at hlong
    cases hlong
  next => exact .ok trivial

namespace Graph

variable {g : Graph} {v : Value}

/-- A filled value that is neither a text nor a container cannot be gone through. -/
theorem not_isIterable (hfilled : g.isFilled v = true) (hstr : ∀ s, v ≠ .str s)
    (hsequence : g.sequence? v = none) (hentries : g.entries? v = none)
    (hbytes : ∀ bs, g.deref? v ≠ some (.bytes bs)) : ¬ g.IsIterable v := by
  rintro (h | ⟨s, h⟩ | h | h | ⟨bs, h⟩)
  · rw [hfilled] at h
    cases h
  · exact hstr s h
  · rw [hsequence] at h
    cases h
  · rw [hentries] at h
    cases h
  · exact hbytes bs h

/-- What counts as missing has no items. -/
theorem memberRecords_of_not_filled (h : g.isFilled v = false) : g.memberRecords v = [] := by
  -- an empty container has no items, and neither has what is none
  cases v with
  | ref label =>
    rw [isFilled] at h
    cases hcell : g.cell? label with
    | none => simp [memberRecords, sequence?, deref?, hcell]
    | some cell =>
      rw [hcell] at h
      cases cell with
      | list items | tuple items | set items =>
        obtain rfl : items = [] := by simpa using h
        simp [memberRecords, sequence?, deref?, hcell]
      | _ => simp [memberRecords, sequence?, deref?, hcell]
  | _ => rfl

/-- What can stand in the place of a list is read as the records among its items. -/
theorem recordsIn_ends (h : H → g.IsIterable v) :
    Ends (Fault.Breaks H) (g.recordsIn v) fun rs => rs = g.memberRecords v := by
  -- what counts as missing has no records; else the kind of value decides
  by_cases hfilled : g.isFilled v = true
  · cases v with
    | ref label =>
      cases hcell : g.cell? label with
      | none =>
        simp only [recordsIn, hfilled, deref?, hcell]
        refine .error ⟨rfl, fun hH => not_isIterable hfilled ?_ ?_ ?_ ?_ (h hH)⟩ <;>
          simp [sequence?, entries?, deref?, hcell]
      | some cell =>
        have hderef : g.deref? (.ref label) = some cell := hcell
        simp only [recordsIn, hfilled, hderef]
        cases cell with
        | list items | tuple items | set items | map entries | bytes bs =>
          exact .ok (by simp [memberRecords, sequence?, hderef])
        | object attributes | date d | dateTime t =>
          refine .error ⟨rfl, fun hH => not_isIterable hfilled ?_ ?_ ?_ ?_ (h hH)⟩ <;>
            simp [sequence?, entries?, hderef]
    | str s =>
      simp only [recordsIn, hfilled]
      exact .ok rfl
    | _ =>
      simp only [recordsIn, hfilled]
      refine .error ⟨rfl, fun hH => not_isIterable hfilled ?_ rfl rfl ?_ (h hH)⟩ <;> simp [deref?]
  · rw [Bool.not_eq_true] at hfilled
    simp only [recordsIn, hfilled]
    exact .ok (memberRecords_of_not_filled hfilled).symm

/-- Pairs are collected to a table if each is one and has a key that can be looked up. -/
theorem tableOfPairs_ends {items : List Value} (h : H → ∀ w ∈ items, g.IsField w)
    (table : Table Data) :
    Ends (Fault.Breaks H) (g.tableOfPairs table items) fun _ => True := by
  -- along the items; the table grows with each
  induction items generalizing table with
  | nil => exact .ok trivial
  | cons w rest ih =>
    have hfield : H → g.IsField w := fun hH => h hH w List.mem_cons_self
    unfold tableOfPairs
    split
    next hpair =>
      refine .error ⟨rfl, fun hH => ?_⟩
      obtain ⟨key, item, hpair', -⟩ := hfield hH
      rw [hpair] at hpair'
      cases hpair'
    next key item hpair =>
      split
      next => exact ih (fun hH w hw => h hH w (List.mem_cons_of_mem _ hw)) _
      next hkey =>
        refine .error ⟨rfl, fun hH => ?_⟩
        obtain ⟨key', item', hpair', hkey'⟩ := hfield hH
        rw [hpair] at hpair'
        cases hpair'
        exact hkey hkey'
    next hother hpair =>
      refine .error ⟨rfl, fun hH => ?_⟩
      obtain ⟨key, item, hpair', -⟩ := hfield hH
      rw [hpair] at hpair'
      exact hother key item (Option.some.inj hpair')

/-- A filled value that is neither a mapping nor a sequence holds no attributes. -/
theorem not_isFields (hfilled : g.isFilled v = true) (hentries : g.entries? v = none)
    (hsequence : g.sequence? v = none) : ¬ g.IsFields v := by
  rintro (h | h | ⟨items, h, -⟩)
  · rw [hfilled] at h
    cases h
  · rw [hentries] at h
    cases h
  · rw [hsequence] at h
    cases h

/-- A sequence that can be read as attributes consists of pairs. -/
theorem IsFields.isField {items : List Value} (h : g.IsFields v) (hfilled : g.isFilled v = true)
    (hentries : g.entries? v = none) (hsequence : g.sequence? v = some items) :
    ∀ w ∈ items, g.IsField w := by
  rcases h with h | h | ⟨items', h, hitems⟩
  · rw [hfilled] at h
    cases h
  · rw [hentries] at h
    cases h
  · rw [hsequence] at h
    obtain rfl := Option.some.inj h
    exact hitems

/-- What counts as missing, or is a mapping or a sequence of pairs, is read as attributes. -/
theorem attributes_ends (h : H → g.IsFields v) :
    Ends (Fault.Breaks H) (g.attributes v) fun _ => True := by
  -- what counts as missing has no attributes; else the kind of value decides
  by_cases hfilled : g.isFilled v = true
  · cases v with
    | ref label =>
      cases hcell : g.cell? label with
      | none =>
        simp only [attributes, hfilled, deref?, hcell]
        refine .error ⟨rfl, fun hH => not_isFields hfilled ?_ ?_ (h hH)⟩ <;>
          simp [sequence?, entries?, deref?, hcell]
      | some cell =>
        have hderef : g.deref? (.ref label) = some cell := hcell
        simp only [attributes, hfilled, hderef]
        cases cell with
        | map entries => exact .ok trivial
        | list items | tuple items | set items =>
          refine tableOfPairs_ends (fun hH => (h hH).isField hfilled ?_ ?_) [] <;>
            simp [sequence?, entries?, hderef]
        | object attributes | date d | dateTime t | bytes bs =>
          refine .error ⟨rfl, fun hH => not_isFields hfilled ?_ ?_ (h hH)⟩ <;>
            simp [sequence?, entries?, hderef]
    | _ =>
      simp only [attributes, hfilled]
      exact .error ⟨rfl, fun hH => not_isFields hfilled rfl rfl (h hH)⟩
  · rw [Bool.not_eq_true] at hfilled
    simp only [attributes, hfilled]
    exact .ok trivial

end Graph

namespace Record

variable {blame : Fault → Prop} {g : Graph} {r : Record} {otherwise : Data}

/-- The record stands in a list of children among the entries. -/
def IsChild (g : Graph) (entries : Table Value) (c : Record) : Prop :=
  ∃ name v, (.str name, v) ∈ entries ∧ isChildList name = true ∧ c ∈ g.listedRecords v

/-- Children of some entries are children of more. -/
theorem IsChild.cons {entries : Table Value} {c : Record} (e : Data × Value)
    (h : IsChild g entries c) : IsChild g (e :: entries) c := by
  obtain ⟨name, v, hmem, hlist, hc⟩ := h
  exact ⟨name, v, List.mem_cons_of_mem e hmem, hlist, hc⟩

/-- The children that are read stand in lists of children. -/
theorem childrenIn_ends {entries : Table Value}
    (h : H → ∀ e ∈ entries, (∃ items, g.deref? e.2 = some (.list items)) → e.1.IsText) :
    Ends (Fault.Breaks H) (childrenIn g entries) fun cs => ∀ c ∈ cs, IsChild g entries c := by
  -- along the entries; a list under a key that is no text cannot be told to be one of children
  induction entries with
  | nil => exact .ok fun c hc => absurd hc List.not_mem_nil
  | cons e rest ih =>
    obtain ⟨key, v⟩ := e
    have hlater := (ih fun hH e he => h hH e (List.mem_cons_of_mem _ he)).mono
      fun cs _ hcs c hc => (hcs c hc).cons (key, v)
    unfold childrenIn
    split
    next items hitems =>
      split
      next name =>
        refine hlater.bind fun cs hcs => .ok fun c hc => ?_
        split at hc
        next hlist =>
          rcases List.mem_append.mp hc with hc | hc
          · exact ⟨name, v, List.mem_cons_self, hlist, by rwa [Graph.listedRecords, hitems]⟩
          · exact hcs c hc
        next => exact hcs c hc
      next hname =>
        refine .error ⟨rfl, fun hH => ?_⟩
        obtain ⟨name, rfl⟩ := h hH _ List.mem_cons_self ⟨items, hitems⟩
        exact hname name rfl
    next => exact hlater

/-- The pointers of a transition refer to what can be looked up. -/
theorem pointers_ends (h : H → r.LegiblePointers g demand otherwise) :
    Ends (Fault.Breaks H) (r.pointers g) fun p => H →
      demand.path (g.refPath (p.field "src")) ∧ demand.path (g.refPath (p.field "dst")) := by
  unfold pointers
  dsimp only
  -- without pointers both ends are null
  split
  next => exact .ok fun _ => ⟨demand.path_null, demand.path_null⟩
  next hfilled =>
    rw [Bool.not_eq_true, Bool.not_eq_false'] at hfilled
    split
    next p hp =>
      refine .ok fun hH => ?_
      obtain ⟨p', hp', haddresses⟩ := (h hH).pointers hfilled
      rw [hp] at hp'
      obtain rfl := Option.some.inj hp'
      exact haddresses
    next hnone =>
      refine .error ⟨rfl, fun hH => ?_⟩
      obtain ⟨p, hp, -⟩ := (h hH).pointers hfilled
      rw [hnone] at hp
      cases hp

/-- A type that has a text can be written. -/
theorem requireText_typeData (htype : r.typeText? g = none → blame .numberTooLong) :
    Ends blame (r.typeData g).requireText fun _ => True := by
  unfold Data.requireText
  split
  next hlong => exact .error (htype (by rw [typeText?, if_pos hlong]))
  next => exact .ok trivial

/-- A record is read as the node that it stands for. -/
theorem node?_ends (hblame : ∀ e : Fault, e.Breaks H → blame e)
    (htype : r.typeText? g = none → blame .numberTooLong) (hpointer : r.pointerKind? g = none)
    (h : H → r.Legible g demand otherwise) :
    (r.node? g otherwise).Ends blame fun n? =>
      ∀ n, n? = some n → r.IsNode g otherwise ∧ n.path.isFilled = true ∧ (H → demand.path n.path) := by
  refine (Logged.Ends.lift (requireText_typeData htype)).bind fun _ _ => ?_
  -- the type tells whether the record stands for a node; then its path, its name and its attributes are asked
  -- for
  split
  next => exact .pure fun n hn => by cases hn
  next kind hkind =>
    dsimp only
    split
    next => exact .report_bind (.pure fun n hn => by cases hn)
    next hfilled =>
      rw [Bool.not_eq_true, Bool.not_eq_false'] at hfilled
      have hnode : r.IsNode g otherwise := ⟨hpointer, by rw [hkind]; rfl, hfilled⟩
      have hlegible := fun hH => (h hH).node hnode
      have hname := Data.requireText_ends fun hH => (hlegible hH).name
      have hattributes := Graph.attributes_ends fun hH => (hlegible hH).attributes
      refine ((Logged.Ends.lift hname).weaken hblame).bind fun _ _ => ?_
      refine ((Logged.Ends.lift hattributes).weaken hblame).bind fun attributes _ => .pure ?_
      rintro _ ⟨⟩
      exact ⟨hnode, hfilled, fun hH => (hlegible hH).path⟩

/-- Only a record that stands for a node is read as one. -/
theorem isNode_of_node? (hpointer : r.pointerKind? g = none) {n : Node}
    (h : (r.node? g otherwise).result = .ok (some n)) : r.IsNode g otherwise := by
  -- of the result this is said whatever is said of faults
  have hends : (r.node? g otherwise).Ends (fun _ => True) fun n? => ∀ n, n? = some n →
      r.IsNode g otherwise ∧ n.path.isFilled = true ∧ (False → Demand.lenient.path n.path) :=
    node?_ends (fun _ _ => trivial) (fun _ => trivial) hpointer False.elim
  rw [Logged.Ends, h] at hends
  exact (hends n rfl).1

end Record

/-! ### Nodes and transitions one by one -/

namespace Machine

variable {m : Machine}

/-- A node with a path that is demanded keeps the machine as demanded. -/
theorem addNode_ends (hm : H → m.Meets demand) {n : Node}
    (hfilled : n.path.isFilled = true) (hn : H → demand.path n.path) :
    Ends (Fault.Breaks H) (m.addNode n) fun added => H → added.2.Meets demand := by
  unfold addNode
  split
  next hkey =>
    refine .error ⟨rfl, fun hH => ?_⟩
    rw [demand.isKey_of_path (hn hH)] at hkey
    cases hkey
  next =>
    split
    next => exact .ok hm
    next =>
      -- the node stands behind the others, and transitions are left as they are
      refine .ok fun hH => ⟨fun other hother => ?_, (hm hH).sources, (hm hH).destinations,
        (hm hH).events, (hm hH).titles⟩
      rcases List.mem_append.mp hother with hother | hother
      · exact (hm hH).paths other hother
      · rw [List.mem_singleton.mp hother]
        exact ⟨hfilled, hn hH⟩

/-- So does a transition with such ends, event and title. -/
theorem addTransition_ends (hm : H → m.Meets demand) {t : Transition} {key : TransitionKey}
    (hkey : H → key.isKey = true) (hsrc : H → demand.path t.src) (hdst : H → demand.path t.dst)
    (hevent : H → demand.event t.attributes t.eventName)
    (htitle : H → t.path.isFilled = true → demand.path t.path) :
    Ends (Fault.Breaks H) (m.addTransition t key) fun added => H → added.2.Meets demand := by
  unfold addTransition
  split
  next hnot =>
    refine .error ⟨rfl, fun hH => ?_⟩
    rw [hkey hH] at hnot
    cases hnot
  next =>
    split
    next => exact .ok hm
    next =>
      refine .ok fun hH => ?_
      -- what holds of the old transitions and of the new one holds of all
      have hall : ∀ {P : Transition → Prop}, (∀ t ∈ m.transitions, P t) → P t →
          ∀ t' ∈ m.transitions ++ [t], P t' := by
        intro P hold hnew t' ht'
        rcases List.mem_append.mp ht' with ht' | ht'
        · exact hold t' ht'
        · rwa [List.mem_singleton.mp ht']
      exact ⟨(hm hH).paths, hall (hm hH).sources (hsrc hH),
        hall (hm hH).destinations (hdst hH), hall (hm hH).events (hevent hH),
        hall (hm hH).titles (htitle hH)⟩

end Machine

/-- The key of a transition is its path, unless that counts as missing. -/
theorem TransitionKey.isKey_ofPath_of_filled {path : Data}
    (h : path.isFilled = true → demand.path path) (label : Nat) :
    (TransitionKey.ofPath path (.record label)).isKey = true := by
  unfold ofPath
  split
  next hfilled => exact demand.isKey_of_path (h hfilled)
  next => rfl

/-- A transition with pointers is added. -/
theorem Record.addPointerTransition_ends {g : Graph} {r : Record} {otherwise : Data}
    (h : H → r.LegiblePointers g demand otherwise) (kind : TransitionKind) {m : Machine}
    (hm : H → m.Meets demand) :
    Ends (Fault.Breaks H) (r.addPointerTransition g kind otherwise m) fun m =>
      H → m.Meets demand := by
  refine (pointers_ends h).bind fun p hp => ?_
  refine (Graph.attributes_ends fun hH => (h hH).attributes).bind fun attributes _ => ?_
  refine (Machine.addTransition_ends hm ?_ (fun hH => (hp hH).1) ?_ (fun _ => demand.event_null _)
    fun hH => (h hH).path).bind fun added hadded => .ok hadded
  · exact fun hH => TransitionKey.isKey_ofPath_of_filled (h hH).path r.label
  -- an internal transition that leads nowhere stays where it is
  · intro hH
    dsimp only
    split
    · exact (hp hH).1
    · exact (hp hH).2

/-! ### Tables -/

namespace Machine

variable {blame : Fault → Prop} {g : Graph}

/-- The nodes of a table are added one by one. -/
theorem addTableNodes_ends {records : List (Data × Record)}
    (hblame : Fault.Blames H g (fun r => ∃ path, (path, r) ∈ records) blame)
    (hpointer : ∀ e ∈ records, e.2.pointerKind? g = none)
    (h : H → ∀ e ∈ records, e.2.Legible g demand e.1) {m : Machine} (hm : H → m.Meets demand) :
    (addTableNodes g m records).Ends blame fun m => H → m.Meets demand := by
  -- along the records, of which fewer and fewer are left to blame a type on
  induction records generalizing m with
  | nil => exact .pure hm
  | cons e rest ih =>
    obtain ⟨hfirst, hpointers⟩ := List.forall_mem_cons.mp hpointer
    have hrest : H → ∀ e ∈ rest, e.2.Legible g demand e.1 :=
      fun hH e he => h hH e (List.mem_cons_of_mem _ he)
    have htype := hblame.type e.2 ⟨e.1, List.mem_cons_self⟩
    have hlater : Fault.Blames H g (fun r => ∃ path, (path, r) ∈ rest) blame :=
      hblame.sub fun r ⟨path, hr⟩ => ⟨path, List.mem_cons_of_mem e hr⟩
    refine (Record.node?_ends hblame.breaks htype hfirst fun hH => h hH e List.mem_cons_self).bind
      fun n? hn => ?_
    cases n? with
    | none => exact .report_bind (ih hlater hpointers hrest hm)
    | some n =>
      obtain ⟨-, hfilled, hpath⟩ := hn n rfl
      refine ((Logged.Ends.lift (addNode_ends hm hfilled hpath)).weaken hblame.breaks).bind
        fun added hadded => ?_
      exact ih hlater hpointers hrest hadded

theorem addTableTransitions_ends {records : List (Data × Record × TransitionKind)}
    (h : H → ∀ e ∈ records, e.2.1.LegiblePointers g demand e.1) {m : Machine} (hm : H → m.Meets demand) :
    Ends (Fault.Breaks H) (addTableTransitions g m records) fun m => H → m.Meets demand := by
  induction records generalizing m with
  | nil => exact .ok hm
  | cons e rest ih =>
    have hfirst : H → e.2.1.LegiblePointers g demand e.1 := fun hH => h hH e List.mem_cons_self
    refine (Record.addPointerTransition_ends hfirst e.2.2 hm).bind fun m hm => ?_
    exact ih (fun hH e he => h hH e (List.mem_cons_of_mem _ he)) hm

/-- A table of legible records has a machine. -/
theorem ofTable_ends {objects : Table Value}
    (hblame : Fault.Blames H g (fun r => ∃ path, (path, r) ∈ g.tableRecords objects) blame)
    (h : H → ∀ e ∈ g.tableRecords objects, e.2.Legible g demand e.1) :
    (ofTable g objects).Ends blame fun m => H → m.Meets demand := by
  have hnodes : Fault.Blames H g (fun r => ∃ path, (path, r) ∈ (g.tableRecords objects).filter
      fun e => (e.2.pointerKind? g).isNone) blame :=
    hblame.sub fun r ⟨path, hr⟩ => ⟨path, List.mem_of_mem_filter hr⟩
  -- the records without pointers first, then those with pointers
  refine (addTableNodes_ends hnodes (fun e he => ?_) (fun hH e he => ?_)
    fun _ => meets_empty demand).bind fun m hm =>
      (Logged.Ends.lift (addTableTransitions_ends (fun hH e he => ?_) hm)).weaken hblame.breaks
  · exact Option.isNone_iff_eq_none.mp (List.mem_filter.mp he).2
  · exact h hH e (List.mem_of_mem_filter he)
  · obtain ⟨entry, hentry, hsome⟩ := List.mem_filterMap.mp he
    obtain ⟨kind, hkind, rfl⟩ := Option.map_eq_some_iff.mp hsome
    exact (h hH entry hentry).transition (by rw [hkind]; rfl)

end Machine

/-! ### Trees -/

namespace Record

variable {g : Graph} {r : Record}

/-- A transition that the record of a node holds is added. -/
theorem addHeldTransition_ends {n : Node} (hpath : H → demand.path n.path) {held : HeldTransition}
    (h : H → LegibleHeld g demand held) {m : Machine} (hm : H → m.Meets demand) :
    Ends (Fault.Breaks H) (addHeldTransition g n held m) fun m => H → m.Meets demand := by
  have hattributes := (Graph.attributes_ends fun hH => (h hH).attributes).mono
    fun attributes heq _ => heq
  refine hattributes.bind fun attributes heq => ?_
  refine (Machine.addTransition_ends hm ?_ hpath ?_ ?_ fun hH => (h hH).path).bind
    fun added hadded => .ok hadded
  · exact fun hH => TransitionKey.isKey_ofPath_of_filled (h hH).path held.record.label
  -- the destination is read only if the transition leaves the node
  · intro hH
    dsimp only [heldDestination]
    split
    next => exact hpath hH
    next hkind =>
      refine (h hH).destination (fun hinternal => hkind ?_) fun hstays => hkind ?_
      · rw [hinternal, ite_self]
      · rw [if_pos hstays]
  · exact fun hH => (h hH).event attributes heq

/-- The record holds a transition to this record. -/
def HoldsWayTo (g : Graph) (r d : Record) : Prop :=
  ∃ held ∈ r.heldTransitions g, g.record? (held.record.field "dst") = some d

/-- What is kept up while the transitions of a record are added. -/
def AddsUp (H : Prop) (demand : Demand) (g : Graph) (r : Record) (state : Machine × List Record) : Prop :=
  (H → state.1.Meets demand) ∧ ∀ d ∈ state.2, HoldsWayTo g r d

theorem AddsUp.nil {m : Machine} (hm : H → m.Meets demand) : AddsUp H demand g r (m, []) :=
  ⟨hm, fun _ hd => absurd hd List.not_mem_nil⟩

theorem AddsUp.append {m m' : Machine} {here later : List Record} (h : AddsUp H demand g r (m, here))
    (h' : AddsUp H demand g r (m', later)) : AddsUp H demand g r (m', here ++ later) := by
  refine ⟨h'.1, fun d hd => ?_⟩
  rcases List.mem_append.mp hd with hd | hd
  · exact h.2 d hd
  · exact h'.2 d hd

/-- The transitions of a list are added one by one. -/
theorem addHeldTransitions_ends {n : Node} (hpath : H → demand.path n.path)
    (h : H → r.LegibleTransitions g demand) {helds : List HeldTransition}
    (hhelds : ∀ held ∈ helds, held ∈ r.heldTransitions g) {m : Machine} (hm : H → m.Meets demand) :
    Ends (Fault.Breaks H) (addHeldTransitions g n m helds) (AddsUp H demand g r) := by
  induction helds generalizing m with
  | nil => exact .ok (.nil hm)
  | cons held rest ih =>
    obtain ⟨hheld, hrest⟩ := List.forall_mem_cons.mp hhelds
    refine (addHeldTransition_ends hpath (fun hH => (h hH).each held hheld) hm).bind fun m hm => ?_
    refine (ih hrest hm).bind fun state hstate => .ok ?_
    -- the record that this transition leads to, and those of the others
    refine AddsUp.append ⟨hm, fun d hd => ?_⟩ hstate
    exact ⟨held, hheld, Option.mem_toList.mp hd⟩

/-- Those of groups are added group by group. -/
theorem addGroups_ends {n : Node} (hpath : H → demand.path n.path) (h : H → r.LegibleTransitions g demand)
    {e : String × TransitionKind} (he : e ∈ eventGroups) {groups : List Record}
    (hgroups : ∀ group ∈ groups, group ∈ g.memberRecords (r.field e.1)) {m : Machine}
    (hm : H → m.Meets demand) :
    Ends (Fault.Breaks H) (addGroups g n e.2 m groups) (AddsUp H demand g r) := by
  -- along the groups, each of which gives a list of transitions
  induction groups generalizing m with
  | nil => exact .ok (.nil hm)
  | cons group rest ih =>
    obtain ⟨hgroup, hrest⟩ := List.forall_mem_cons.mp hgroups
    have hread : Ends (Fault.Breaks H) (groupTransitions g e.2 group) fun helds =>
        ∀ held ∈ helds, held ∈ r.heldTransitions g := by
      refine (Graph.recordsIn_ends fun hH => (h hH).grouped e he group hgroup).bind
        fun records hrecords => .ok fun held hheld => ?_
      subst hrecords
      exact List.mem_append_left _ (List.mem_flatMap.mpr ⟨e, he,
        List.mem_flatMap.mpr ⟨group, hgroup, hheld⟩⟩)
    refine hread.bind fun helds hhelds => ?_
    refine (addHeldTransitions_ends hpath h hhelds hm).bind fun state hstate => ?_
    exact (ih hrest hstate.1).bind fun state' hstate' => .ok (hstate.append hstate')

/-- All transitions that the record of a node holds are added, and the records that they lead to are
found. -/
theorem addTransitions_ends {n : Node} (hpath : H → demand.path n.path)
    (h : H → r.LegibleTransitions g demand) {m : Machine} (hm : H → m.Meets demand) :
    Ends (Fault.Breaks H) (r.addTransitions g n m) (AddsUp H demand g r) := by
  rw [addTransitions]
  refine (Ends.foldlM (AddsUp H demand g r) (.nil hm) fun e he state hstate => ?_).bind
    fun state hstate => ?_
  -- transitions in groups, kind by kind
  · refine (Graph.recordsIn_ends fun hH => (h hH).groups e he).bind fun groups hgroups => ?_
    subst hgroups
    exact (addGroups_ends hpath h he (fun group hgroup => hgroup) hstate.1).bind
      fun state' hstate' => .ok (AddsUp.append hstate hstate')
  -- transitions on their own
  · refine (Graph.recordsIn_ends fun hH => (h hH).single).bind fun records hrecords => ?_
    subst hrecords
    exact (addHeldTransitions_ends hpath h (fun held hheld => List.mem_append_right _ hheld)
      hstate.1).bind fun state' hstate' => .ok (AddsUp.append hstate hstate')

end Record

namespace Machine

variable {blame : Fault → Prop} {g : Graph} {root : Record}

/-- The next record, and what is left after it, were to be visited before. -/
theorem Walk.next?_forall {P : Record → Prop} {w w' : Walk} {r : Record}
    (hnext : w.next? = some (r, w')) (hpending : ∀ r ∈ w.pending, P r)
    (hreferenced : ∀ r ∈ w.referenced, P r) :
    w'.machine = w.machine ∧ P r ∧ (∀ r ∈ w'.pending, P r) ∧ ∀ r ∈ w'.referenced, P r := by
  -- records that were visited already are skipped, which leaves some of the records
  have hsub : ∀ {rs : List Record} {p : Record → Bool} {first : Record} {rest : List Record},
      rs.dropWhile p = first :: rest → (∀ r ∈ rs, P r) → ∀ r ∈ first :: rest, P r := by
    intro rs p first rest heq hall r hr
    exact hall r ((List.dropWhile_sublist p).subset (heq ▸ hr))
  unfold Walk.next? at hnext
  dsimp only at hnext
  -- children first, and then what transitions lead to
  split at hnext
  next first rest heq =>
    obtain ⟨rfl, rfl⟩ := Prod.mk.inj (Option.some.inj hnext)
    have hall := List.forall_mem_cons.mp (hsub heq hpending)
    exact ⟨rfl, hall.1, hall.2, hreferenced⟩
  next =>
    split at hnext
    next first rest heq =>
      obtain ⟨rfl, rfl⟩ := Prod.mk.inj (Option.some.inj hnext)
      have hall := List.forall_mem_cons.mp (hsub heq hreferenced)
      exact ⟨rfl, hall.1, fun r hr => absurd hr List.not_mem_nil, hall.2⟩
    next => cases hnext

/-- **The invariant of the walk.** What was added can be looked up, and what is still to be visited is met
on the way from the root. -/
structure Walk.Legible (H : Prop) (demand : Demand) (g : Graph) (root : Record) (w : Walk) : Prop where
  machine : H → w.machine.Meets demand
  pending : ∀ r ∈ w.pending, Record.Met g root r
  referenced : ∀ r ∈ w.referenced, Record.Met g root r

/-- The children of a visited record are still to be visited. -/
theorem Walk.Legible.addChildren (hblame : Fault.Blames H g (Record.Met g root) blame) {w : Walk}
    (h : w.Legible H demand g root) {r : Record} (hr : Record.Met g root r)
    (hpointer : r.pointerKind? g = none) (hlists : H → r.LegibleLists g) :
    (do
      let children ← (r.children g : Except Fault (List Record))
      pure { w with pending := children ++ w.pending } : Logged Walk).Ends blame
        (Walk.Legible H demand g root) := by
  refine ((Logged.Ends.lift (Record.childrenIn_ends hlists)).weaken hblame.breaks).bind
    fun cs hcs => ?_
  refine .pure ⟨h.machine, fun c hc => ?_, h.referenced⟩
  rcases List.mem_append.mp hc with hc | hc
  · obtain ⟨name, v, hmem, hlist, hc⟩ := hcs c hc
    exact .child hr hpointer hmem hlist hc
  · exact h.pending c hc

/-- A record of the tree is visited. -/
theorem visit_ends (hblame : Fault.Blames H g (Record.Met g root) blame)
    (h : H → ∀ r, Record.Met g root r → r.LegibleInTree g demand) {r : Record}
    (hr : Record.Met g root r) {w : Walk} (hw : w.Legible H demand g root) :
    (visit g r w).Ends blame (Walk.Legible H demand g root) := by
  have hlegible := fun hH => h hH r hr
  unfold visit
  -- a transition with pointers, or a record with children that may stand for a node
  split
  next kind hkind =>
    have hpointers := fun hH => (hlegible hH).here.transition (by rw [hkind]; rfl)
    have hadded := Record.addPointerTransition_ends hpointers kind hw.machine
    refine ((Logged.Ends.lift hadded).weaken hblame.breaks).bind fun m hm => ?_
    exact .pure ⟨hm, hw.pending, hw.referenced⟩
  next hpointer =>
    have hlists := fun hH => (hlegible hH).lists hpointer
    refine (Record.node?_ends hblame.breaks (hblame.type r hr) hpointer
      fun hH => (hlegible hH).here).bind fun n? hn => ?_
    cases n? with
    | none => exact hw.addChildren hblame hr hpointer hlists
    | some n =>
      obtain ⟨hnode, hfilled, hpath⟩ := hn n rfl
      refine ((Logged.Ends.lift (addNode_ends hw.machine hfilled hpath)).weaken hblame.breaks).bind
        fun added hadded => ?_
      obtain ⟨isNew, m⟩ := added
      cases isNew with
      -- a second record with the same path: its children are read, its transitions are not
      | false => exact hw.addChildren hblame hr hpointer hlists
      | true =>
        have htransitions := fun hH => (hlegible hH).transitions hnode
        have hstate := Record.addTransitions_ends hpath htransitions hadded
        refine ((Logged.Ends.lift hstate).weaken hblame.breaks).bind fun state hstate => ?_
        -- whatever a transition leads to is met by way of that transition
        have hafter : Walk.Legible H demand g root
            { w with machine := state.1, referenced := w.referenced ++ state.2 } := by
          refine ⟨hstate.1, hw.pending, fun d hd => ?_⟩
          rcases List.mem_append.mp hd with hd | hd
          · exact hw.referenced d hd
          · obtain ⟨held, hheld, hdst⟩ := hstate.2 d hd
            exact .destination hr hnode hheld hdst
        exact hafter.addChildren hblame hr hpointer hlists

/-- The walk keeps the machine as demanded, whatever is left to visit. -/
theorem walk_ends (hblame : Fault.Blames H g (Record.Met g root) blame)
    (h : H → ∀ r, Record.Met g root r → r.LegibleInTree g demand) (steps : Nat) {w : Walk}
    (hw : w.Legible H demand g root) :
    (walk g steps w).Ends blame fun m => H → m.Meets demand := by
  -- on the steps left; the invariant is that of the walk
  induction steps generalizing w with
  | zero => exact .pure hw.machine
  | succ steps ih =>
    rw [walk]
    split
    next => exact .pure hw.machine
    next r w' hnext =>
      obtain ⟨hmachine, hr, hpending, hreferenced⟩ := w.next?_forall hnext hw.pending hw.referenced
      refine (visit_ends hblame h hr ⟨?_, hpending, hreferenced⟩).bind fun w hw => ih hw
      rw [hmachine]
      exact hw.machine

/-- A tree of legible records has a machine. -/
theorem ofTree_ends (hblame : Fault.Blames H g (Record.Met g root) blame)
    (h : H → ∀ r, Record.Met g root r → r.LegibleInTree g demand) :
    (ofTree g root).Ends blame fun m => H → m.Meets demand := by
  refine walk_ends hblame h _ ⟨fun _ => meets_empty demand, fun r hr => ?_, fun r hr => ?_⟩
  · rw [List.mem_singleton.mp hr]
    exact .root
  · exact absurd hr List.not_mem_nil

end Machine

end HomeAutomaton
