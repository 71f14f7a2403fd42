import HomeAutomaton.Proofs.Lookups
import HomeAutomaton.Proofs.TableEntries
import HomeAutomaton.Proofs.Traversal

/-!
# The order of a table

A flat model is a table of records by path. Its document is made of lists, but few orders in the table show
in it: that of the nodes that may stand for the machine, that of the states, that of the transitions out of
one source, and that of the transitions that say where the machine starts. Everything else may stand
anywhere, as long as nodes and transitions have paths of their own.

* `Rearranged` says what is kept when a table is put into another order.
* `Rearranged.sameLookups` says that whatever is looked up in the machines of the two tables is found alike.
* `Model.compile_rearranged` is the result.
-/

namespace HomeAutomaton

/-! ### Tables in another order -/

namespace TableEntry

/-- The record may have another number. -/
def renumber (number : Nat → Nat) : Except Fault TableEntry → Except Fault TableEntry
  | .ok (.transition t label) => .ok (.transition t (number label))
  | e => e

/-- Is this a node like that? -/
def isNode (p : Node → Bool) (e : Except Fault TableEntry) : Bool := (node? e).any p

/-- Is this a transition like that? -/
def isTransition (p : Transition → Bool) (e : Except Fault TableEntry) : Bool :=
  (transition? e).any fun t => p t.1

end TableEntry

/-- The entries are put into another order, in which the order of the nodes that may stand for the machine,
of the states, of the transitions out of one source and of the initial transitions is kept. Numbers of
records are only there to tell records apart, so they may change. -/
structure Rearranged (number : Nat → Nat) (es es' : List (Except Fault TableEntry)) : Prop where
  numbers : Function.Injective number
  perm : es'.Perm (es.map (TableEntry.renumber number))
  machines : es'.filter (TableEntry.isNode fun n => n.kind == .stateMachine)
    = (es.map (TableEntry.renumber number)).filter (TableEntry.isNode fun n => n.kind == .stateMachine)
  states : es'.filter (TableEntry.isNode (·.isState))
    = (es.map (TableEntry.renumber number)).filter (TableEntry.isNode (·.isState))
  outgoing : ∀ source, es'.filter (TableEntry.isTransition fun t => t.src.equal source)
    = (es.map (TableEntry.renumber number)).filter (TableEntry.isTransition fun t => t.src.equal source)
  initial : es'.filter (TableEntry.isTransition (Transition.isInitial (es.filterMap TableEntry.node?)))
    = (es.map (TableEntry.renumber number)).filter
        (TableEntry.isTransition (Transition.isInitial (es.filterMap TableEntry.node?)))

/-! ### Transitions with a new key -/

namespace Machine

/-- The transitions that are the first with their key can be picked out of those of interest alone, if
transitions with one key are all of interest or none of them is. -/
theorem firstKeyed_filter {p : Transition → Bool} {ts : List KeyedTransition}
    {keys keys' : List TransitionKey}
    (hkeys : ∀ t ∈ ts, p t.1 = true → keys.any t.2.same = keys'.any t.2.same)
    (hsame : ∀ t ∈ ts, ∀ t' ∈ ts, t'.2.same t.2 = true → p t'.1 = p t.1) :
    (firstKeyed keys ts).filter p = firstKeyed keys' (ts.filter fun t => p t.1) := by
  -- along the transitions, with the keys known so far
  induction ts generalizing keys keys' with
  | nil => rfl
  | cons t ts ih =>
    obtain ⟨hkey, hkeys⟩ := List.forall_mem_cons.mp hkeys
    have hrest : ∀ t ∈ ts, ∀ t' ∈ ts, t'.2.same t.2 = true → p t'.1 = p t.1 := fun t ht t' ht' =>
      hsame t (List.mem_cons_of_mem _ ht) t' (List.mem_cons_of_mem _ ht')
    -- the keys that are known afterwards, if this transition is of interest
    have hboth : ∀ t' ∈ ts, p t'.1 = true →
        (keys ++ [t.2]).any t'.2.same = (keys' ++ [t.2]).any t'.2.same := fun t' ht' hp => by
      rw [List.any_append, List.any_append, hkeys t' ht' hp]
    -- a transition whose key is known is dropped on both sides
    rw [firstKeyed]
    cases hp : p t.1 with
    | false =>
      -- and if it is not: what is of interest has another key
      have hother : ∀ t' ∈ ts, p t'.1 = true →
          (keys ++ [t.2]).any t'.2.same = keys'.any t'.2.same := fun t' ht' hp' => by
        have hne : t'.2.same t.2 = false := by
          by_contra hkey
          rw [hsame t List.mem_cons_self t' (List.mem_cons_of_mem _ ht') (by simpa using hkey), hp] at hp'
          cases hp'
        rw [List.any_append, hkeys t' ht' hp', List.any_cons, hne]
        simp
      rw [List.filter_cons_of_neg (by simp [hp])]
      split
      next => exact ih hkeys hrest
      next =>
        rw [List.filter_cons_of_neg (by simp [hp])]
        exact ih hother hrest
    | true =>
      rw [List.filter_cons_of_pos (by simp [hp]), firstKeyed, ← hkey hp]
      split
      next => exact ih hkeys hrest
      next =>
        rw [List.filter_cons_of_pos hp]
        exact congrArg _ (ih hboth hrest)

end Machine

/-- The record may have another number. -/
def TransitionKey.renumber (number : Nat → Nat) : TransitionKey → TransitionKey
  | .record label => .record (number label)
  | key => key

section Renumber

variable {number : Nat → Nat}

/-- Keys that differ still do, if numbers do. -/
theorem TransitionKey.same_renumber (hnumber : Function.Injective number) (k k' : TransitionKey) :
    (k.renumber number).same (k'.renumber number) = k.same k' := by
  cases k <;> cases k' <;> simp [renumber, same, hnumber.eq_iff]

/-- The key of a transition is numbered anew with its record. -/
theorem TransitionKey.ofPath_renumber (d : Data) (label : Nat) :
    ofPath d (.record (number label)) = (ofPath d (.record label)).renumber number := by
  unfold ofPath
  split <;> rfl

/-- The keys are all numbered anew. -/
theorem Machine.firstKeyed_renumber (hnumber : Function.Injective number) (ts : List KeyedTransition)
    (keys : List TransitionKey) :
    firstKeyed (keys.map (.renumber number)) (ts.map fun t => (t.1, t.2.renumber number))
      = firstKeyed keys ts := by
  -- along the transitions; known keys are numbered anew as well
  induction ts generalizing keys with
  | nil => rfl
  | cons t ts ih =>
    have hany : (keys.map (.renumber number)).any (t.2.renumber number).same = keys.any t.2.same := by
      simp [List.any_map, Function.comp_def, TransitionKey.same_renumber hnumber]
    rw [List.map_cons, firstKeyed, firstKeyed, hany, ih]
    split
    next => rfl
    next =>
      rw [← ih (keys ++ [t.2]), List.map_append]
      rfl

end Renumber

/-! ### Transitions of a table -/

/-- Transitions with one key have one source and one kind. -/
def KeysAgree (ts : List KeyedTransition) : Prop :=
  ∀ t ∈ ts, ∀ t' ∈ ts, t'.2.same t.2 = true → t'.1.src = t.1.src ∧ t'.1.kind = t.1.kind

/-- What a record with pointers stands for under one key it stands for under another one, but for the
path. -/
theorem Record.pointerTransition_congr {g : Graph} {r : Record} {kind : TransitionKind} {key key' : Data}
    {t t' : Transition} (h : r.pointerTransition g kind key = .ok t)
    (h' : r.pointerTransition g kind key' = .ok t') : t'.src = t.src ∧ t'.kind = t.kind := by
  obtain ⟨pointers, hpointers, h⟩ := bind_eq_ok.mp h
  obtain ⟨attributes, hattributes, h⟩ := bind_eq_ok.mp h
  obtain ⟨pointers', hpointers', h'⟩ := bind_eq_ok.mp h'
  obtain ⟨attributes', hattributes', h'⟩ := bind_eq_ok.mp h'
  obtain rfl := Except.ok.inj (hpointers.symm.trans hpointers')
  obtain rfl := Except.ok.inj h
  obtain rfl := Except.ok.inj h'
  exact ⟨rfl, rfl⟩

namespace Graph

variable {g : Graph} {objects : Table Value}

/-- A transition of a table was read off a record with pointers. -/
theorem exists_record_of_mem {t : KeyedTransition}
    (h : t ∈ (g.entries objects).filterMap TableEntry.transition?) :
    ∃ (key : Data) (r : Record) (kind : TransitionKind), r.IsIn g ∧ r.pointerKind? g = some kind ∧
      r.pointerTransition g kind key = .ok t.1 ∧ t.2 = .ofPath t.1.path (.record r.label) := by
  obtain ⟨_, he, ht⟩ := List.mem_filterMap.mp h
  obtain ⟨_, hr, rfl⟩ := List.mem_map.mp he
  obtain ⟨⟨key, v⟩, -, hv⟩ := List.mem_filterMap.mp hr
  obtain ⟨r, hrecord, rfl⟩ := Option.map_eq_some_iff.mp hv
  have hin := Record.isIn_of_record? hrecord
  dsimp only at ht
  -- only records with pointers are read as transitions
  cases hkind : r.pointerKind? g with
  | none => rw [Record.transition?_entry_of_none hkind] at ht; cases ht
  | some kind =>
    rw [Record.entry_of_pointers hkind] at ht
    cases htransition : r.pointerTransition g kind key with
    | error fault => rw [htransition] at ht; cases ht
    | ok t' =>
      rw [htransition] at ht
      obtain rfl := Option.some.inj ht
      exact ⟨key, r, kind, hin, hkind, htransition, rfl⟩

end Graph

/-! ### What is kept -/

/-- What is of interest can be picked out before or after it is read. -/
theorem filterMap_filter_any {α β : Type} (f : α → Option β) (p : β → Bool) (as : List α) :
    (as.filter fun a => (f a).any p).filterMap f = (as.filterMap f).filter p := by
  induction as with
  | nil => rfl
  | cons a as ih =>
    rw [List.filter_cons, List.filterMap_cons]
    cases hfa : f a with
    | none => simpa using ih
    | some b =>
      cases hp : p b with
      | false => simpa [hfa, hp] using ih
      | true => simpa [hfa, hp] using ih

namespace TableEntry

variable {number : Nat → Nat}

/-- A new number leaves nodes as they are. -/
theorem node?_renumber (e : Except Fault TableEntry) : node? (renumber number e) = node? e := by
  rcases e with fault | ⟨n⟩ | ⟨t, label⟩ | _ <;> rfl

/-- Transitions are left as they are up to their key. -/
theorem transition?_renumber (e : Except Fault TableEntry) :
    transition? (renumber number e) = (transition? e).map fun t => (t.1, t.2.renumber number) := by
  rcases e with fault | ⟨n⟩ | ⟨t, label⟩ | _
  · rfl
  · rfl
  · exact congrArg some (Prod.ext rfl (TransitionKey.ofPath_renumber t.path label))
  · rfl

/-- What can be looked up still can. -/
theorem sound_renumber (e : Except Fault TableEntry) : Sound (renumber number e) ↔ Sound e := by
  rcases e with fault | ⟨n⟩ | ⟨t, label⟩ | _
  · exact .rfl
  · exact .rfl
  · change (TransitionKey.ofPath _ _).isKey = true ↔ (TransitionKey.ofPath _ _).isKey = true
    unfold TransitionKey.ofPath
    split <;> exact .rfl
  · exact .rfl

/-- The nodes and the keys of transitions that were read can be looked up. -/
theorem isKey_of_sound {es : List (Except Fault TableEntry)} (h : ∀ e ∈ es, Sound e) :
    (∀ n ∈ es.filterMap node?, n.path.isKey = true) ∧
      ∀ t ∈ es.filterMap transition?, t.2.isKey = true := by
  constructor
  · intro n hn
    obtain ⟨e, he, hnode⟩ := List.mem_filterMap.mp hn
    -- of the four outcomes only a node is one
    rcases e with fault | ⟨n'⟩ | ⟨t, label⟩ | _
    · cases hnode
    · obtain rfl := Option.some.inj hnode
      exact h _ he
    · cases hnode
    · cases hnode
  · intro t ht
    obtain ⟨e, he, htransition⟩ := List.mem_filterMap.mp ht
    -- and only a transition is one
    rcases e with fault | ⟨n⟩ | ⟨t', label⟩ | _
    · cases htransition
    · cases htransition
    · obtain rfl := Option.some.inj htransition
      exact h _ he
    · cases htransition

end TableEntry

namespace Graph

variable {g : Graph} {objects : Table Value}

theorem entries_append (g : Graph) (front back : Table Value) :
    g.entries (front ++ back) = g.entries front ++ g.entries back := by
  rw [entries, tableRecords, List.filterMap_append, List.map_append]
  rfl

/-- Keys agree if transitions have paths of their own. -/
theorem keysAgree_entries (hsound : ∀ e ∈ g.entries objects, TableEntry.Sound e)
    (hdistinct : ((g.entries objects).filterMap TableEntry.transition?).Pairwise fun t t' =>
      t.1.path.same t'.1.path = false) :
    KeysAgree ((g.entries objects).filterMap TableEntry.transition?) := by
  intro t ht t' ht' hsame
  have hkey := (TableEntry.isKey_of_sound hsound).2 t ht
  have hkey' := (TableEntry.isKey_of_sound hsound).2 t' ht'
  obtain ⟨key, r, kind, hin, hkind, htransition, hpath⟩ := exists_record_of_mem ht
  obtain ⟨key', r', kind', hin', hkind', htransition', hpath'⟩ := exists_record_of_mem ht'
  rw [hpath] at hsame hkey
  rw [hpath'] at hsame hkey'
  unfold TransitionKey.ofPath at hsame hkey hkey'
  -- a key is a path, or the number of a record whose transition has no path
  split at hsame
  next hfilled' =>
    rw [if_pos hfilled'] at hkey'
    split at hsame
    next hfilled =>
      rw [if_pos hfilled] at hkey
      -- paths that are the same are those of one transition
      have hone : t' = t := by
        by_contra hne
        have hsymm : Std.Symm fun t t' : KeyedTransition =>
            t.1.path.same t'.1.path = false ∨ t'.1.path.same t.1.path = false := ⟨fun _ _ h => h.symm⟩
        have heither : ((g.entries objects).filterMap TableEntry.transition?).Pairwise fun t t' =>
            t.1.path.same t'.1.path = false ∨ t'.1.path.same t.1.path = false := hdistinct.imp .inl
        have hpaths : t'.1.path.same t.1.path = true := hsame
        rcases heither.forall ht' ht hne with hnot | hnot
        · rw [hpaths] at hnot
          cases hnot
        -- sameness can be turned around for paths that can be looked up
        · rw [Data.same_comm hkey hkey', hpaths] at hnot
          cases hnot
      rw [hone]
      exact ⟨rfl, rfl⟩
    next => cases hsame
  next =>
    split at hsame
    next => cases hsame
    next =>
      -- the numbers are equal, so this is one record
      obtain rfl := hin'.eq_of_label hin (by simpa [TransitionKey.same] using hsame)
      obtain rfl := Option.some.inj (hkind.symm.trans hkind')
      exact Record.pointerTransition_congr htransition htransition'

end Graph

namespace Rearranged

variable {number : Nat → Nat} {es es' : List (Except Fault TableEntry)}

/-- Nodes are kept in order if their entries are. -/
theorem nodes_filter {p : Node → Bool} (hkept : es'.filter (TableEntry.isNode p)
      = (es.map (TableEntry.renumber number)).filter (TableEntry.isNode p)) :
    (es'.filterMap TableEntry.node?).filter p = (es.filterMap TableEntry.node?).filter p := by
  have hrenumber : (es.map (TableEntry.renumber number)).filterMap TableEntry.node?
      = es.filterMap TableEntry.node? := by
    simp only [List.filterMap_map, Function.comp_def, TableEntry.node?_renumber]
  calc (es'.filterMap TableEntry.node?).filter p
      = (es'.filter (TableEntry.isNode p)).filterMap TableEntry.node? :=
        (filterMap_filter_any _ _ _).symm
    _ = ((es.map (TableEntry.renumber number)).filter (TableEntry.isNode p)).filterMap
          TableEntry.node? := by rw [hkept]
    _ = (es.filterMap TableEntry.node?).filter p := by
        rw [← hrenumber]
        exact filterMap_filter_any _ _ _

/-- The transitions of the first table with their new keys. -/
theorem transitions_renumber :
    (es.map (TableEntry.renumber number)).filterMap TableEntry.transition?
      = (es.filterMap TableEntry.transition?).map fun t => (t.1, t.2.renumber number) := by
  rw [List.filterMap_map, List.map_filterMap]
  exact congrArg (List.filterMap · _) (funext TableEntry.transition?_renumber)

variable (h : Rearranged number es es')
include h

/-- One table is sound if the other one is. -/
theorem sound_iff : (∀ e ∈ es', TableEntry.Sound e) ↔ ∀ e ∈ es, TableEntry.Sound e := by
  simp only [h.perm.mem_iff, List.forall_mem_map, TableEntry.sound_renumber]

/-- The nodes are the same in another order. -/
theorem nodes_perm : (es'.filterMap TableEntry.node?).Perm (es.filterMap TableEntry.node?) := by
  have hperm := h.perm.filterMap TableEntry.node?
  simpa only [List.filterMap_map, Function.comp_def, TableEntry.node?_renumber] using hperm

/-- Keys that agree in one table agree in the other one. -/
theorem keysAgree (hkeys : KeysAgree (es.filterMap TableEntry.transition?)) :
    KeysAgree ((es.map (TableEntry.renumber number)).filterMap TableEntry.transition?) ∧
      KeysAgree (es'.filterMap TableEntry.transition?) := by
  have hrenumbered : KeysAgree
      ((es.map (TableEntry.renumber number)).filterMap TableEntry.transition?) := by
    rw [transitions_renumber]
    intro t ht t' ht' hsame
    obtain ⟨u, hu, rfl⟩ := List.mem_map.mp ht
    obtain ⟨u', hu', rfl⟩ := List.mem_map.mp ht'
    exact hkeys u hu u' hu' (TransitionKey.same_renumber h.numbers _ _ ▸ hsame)
  have hperm := h.perm.filterMap TableEntry.transition?
  exact ⟨hrenumbered, fun t ht t' ht' =>
    hrenumbered t (hperm.mem_iff.mp ht) t' (hperm.mem_iff.mp ht')⟩

/-- Transitions are kept in order if their entries are, and if it is of interest of two transitions with
one key whether they are of interest. -/
theorem transitions_filter (hkeys : KeysAgree (es.filterMap TableEntry.transition?))
    {p : Transition → Bool} (hp : ∀ t t' : Transition, t'.src = t.src → t'.kind = t.kind → p t' = p t)
    (hkept : es'.filter (TableEntry.isTransition p)
      = (es.map (TableEntry.renumber number)).filter (TableEntry.isTransition p)) :
    (Machine.firstKeyed [] (es'.filterMap TableEntry.transition?)).filter p
      = (Machine.firstKeyed [] (es.filterMap TableEntry.transition?)).filter p := by
  obtain ⟨hrenumbered, hother⟩ := h.keysAgree hkeys
  have hpick : ∀ ts : List KeyedTransition, KeysAgree ts → (Machine.firstKeyed [] ts).filter p
      = Machine.firstKeyed [] (ts.filter fun t => p t.1) := fun ts hts =>
    Machine.firstKeyed_filter (fun _ _ _ => rfl) fun t ht t' ht' hsame =>
      hp t.1 t'.1 (hts t ht t' ht' hsame).1 (hts t ht t' ht' hsame).2
  have hnumbers : Machine.firstKeyed []
      ((es.map (TableEntry.renumber number)).filterMap TableEntry.transition?)
        = Machine.firstKeyed [] (es.filterMap TableEntry.transition?) := by
    rw [transitions_renumber]
    exact Machine.firstKeyed_renumber h.numbers _ []
  -- picking goes before keeping the first of each key, and there the two tables agree
  rw [← hnumbers, hpick _ hother, hpick _ hrenumbered]
  refine congrArg _ ?_
  calc (es'.filterMap TableEntry.transition?).filter (fun t => p t.1)
      = (es'.filter (TableEntry.isTransition p)).filterMap TableEntry.transition? :=
        (filterMap_filter_any _ _ _).symm
    _ = ((es.map (TableEntry.renumber number)).filter (TableEntry.isTransition p)).filterMap
          TableEntry.transition? := by rw [hkept]
    _ = _ := filterMap_filter_any _ _ _

/-- **The machines of the two tables are the same to all lookups**, if nodes and transitions have paths of
their own. -/
theorem sameLookups (hsound : ∀ e ∈ es, TableEntry.Sound e)
    (hnodes : DistinctPaths (es.filterMap TableEntry.node?))
    (hkeys : KeysAgree (es.filterMap TableEntry.transition?)) :
    (Machine.ofEntries es).SameLookups (Machine.ofEntries es') := by
  have hnodeKeys := (TableEntry.isKey_of_sound hsound).1
  have hnodes' := hnodes.perm hnodeKeys h.nodes_perm.symm
  -- each lookup reads one of the orders that are kept
  refine ⟨?_, ?_, ?_, ?_, ?_, ?_⟩
  · rwa [Machine.ofEntries_nodes hnodes]
  · rw [Machine.ofEntries_nodes hnodes, Machine.ofEntries_nodes hnodes']
    exact h.nodes_perm
  · rw [Machine.root?, Machine.root?, Machine.ofEntries_nodes hnodes, Machine.ofEntries_nodes hnodes']
    exact find?_of_filter_eq (nodes_filter h.machines)
  · rw [Machine.states, Machine.states, Machine.ofEntries_nodes hnodes, Machine.ofEntries_nodes hnodes']
    exact nodes_filter h.states
  · intro source
    rw [Machine.ofEntries_transitions hnodes, Machine.ofEntries_transitions hnodes']
    refine h.transitions_filter hkeys (fun t t' hsrc _ => ?_) (h.outgoing source)
    rw [hsrc]
  · rw [Machine.ofEntries_transitions hnodes, Machine.ofEntries_transitions hnodes',
      Machine.ofEntries_nodes hnodes]
    refine h.transitions_filter hkeys (fun t t' hsrc hkind => ?_) h.initial
    rw [Transition.isInitial, Transition.isInitial, hsrc, hkind]

omit h in
/-- Transitions may stand before the nodes. -/
theorem swap (hnodes : es.filterMap TableEntry.transition? = [])
    (htransitions : es'.filterMap TableEntry.node? = []) : Rearranged id (es ++ es') (es' ++ es) := by
  have hid : (es ++ es').map (TableEntry.renumber id) = es ++ es' := by
    refine List.map_id'' (fun e => ?_) _
    rcases e with fault | ⟨n⟩ | ⟨t, label⟩ | _ <;> rfl
  have hnone : ∀ p, es.filter (TableEntry.isTransition p) = [] := fun p =>
    List.filter_eq_nil_iff.mpr fun e he => by
      simp [TableEntry.isTransition, List.filterMap_eq_nil_iff.mp hnodes e he]
  have hnone' : ∀ p, es'.filter (TableEntry.isNode p) = [] := fun p =>
    List.filter_eq_nil_iff.mpr fun e he => by
      simp [TableEntry.isNode, List.filterMap_eq_nil_iff.mp htransitions e he]
  refine ⟨Function.injective_id, ?_, ?_, ?_, fun source => ?_, ?_⟩ <;> rw [hid]
  · exact List.perm_append_comm
  all_goals simp [hnone, hnone']

end Rearranged

/-! ### Compiling -/

namespace Model

variable {model model' : Model}

/-- **Few orders of a table matter.** Let the nodes of a table have paths of their own, and so the
transitions with pointers. Then any other order of the table that keeps the order of the nodes that may
stand for the machine, of the states, of the transitions out of one source and of the initial transitions
is compiled to the same identifiers and the same document, the first state included, or to none as well. -/
theorem compile_rearranged {objects objects' : Table Value}
    (hobjects : model.graph.entries? (model.field "objects") = some objects)
    (hobjects' : model'.graph.entries? (model'.field "objects") = some objects')
    (hnodes : DistinctPaths ((model.graph.entries objects).filterMap TableEntry.node?))
    (htransitions : ((model.graph.entries objects).filterMap TableEntry.transition?).Pairwise
      fun t t' => t.1.path.same t'.1.path = false)
    {number : Nat → Nat}
    (h : Rearranged number (model.graph.entries objects) (model'.graph.entries objects'))
    (appearance : Appearance) (out : Table String × Document) :
    (Compiled.output <$> model'.compile appearance).result = .ok out ↔
      (Compiled.output <$> model.compile appearance).result = .ok out := by
  -- a model that is compiled has a machine, so all of its entries could be read
  have hreads : ∀ (model : Model) {objects : Table Value},
      model.graph.entries? (model.field "objects") = some objects →
      (Compiled.output <$> model.compile appearance).result = .ok out →
        ∀ e ∈ model.graph.entries objects, TableEntry.Sound e := by
    intro model objects hobjects hout
    obtain ⟨c, hc, -⟩ := output_eq_ok.mp hout
    obtain ⟨m, hm, -⟩ := exists_of_machine (compile_eq_ok.mp hc).1
    rw [rawMachine_of_table hobjects] at hm
    exact (Machine.ofTable_eq_ok.mp hm).1
  -- and entries that can be read give the machine
  have hraw : ∀ (model : Model) {objects : Table Value},
      model.graph.entries? (model.field "objects") = some objects →
      (∀ e ∈ model.graph.entries objects, TableEntry.Sound e) →
        model.rawMachine.result = .ok (Machine.ofEntries (model.graph.entries objects)) := by
    intro model objects hobjects hsound
    rw [rawMachine_of_table hobjects]
    exact Machine.ofTable_eq_ok.mpr ⟨hsound, rfl⟩
  have hsame : (∀ e ∈ model.graph.entries objects, TableEntry.Sound e) →
      (Machine.ofEntries (model.graph.entries objects)).SameLookups
        (Machine.ofEntries (model'.graph.entries objects')) := fun hsound =>
    h.sameLookups hsound hnodes (Graph.keysAgree_entries hsound htransitions)
  constructor
  · intro hout
    have hsound' := hreads model' hobjects' hout
    have hsound := h.sound_iff.mp hsound'
    exact output_of_sameLookups (hraw model' hobjects' hsound') (hraw model hobjects hsound)
      (hsame hsound).symm hout
  · intro hout
    have hsound := hreads model hobjects hout
    have hsound' := h.sound_iff.mpr hsound
    exact output_of_sameLookups (hraw model hobjects hsound) (hraw model' hobjects' hsound')
      (hsame hsound) hout

/-- The nodes of the lamp at the porch. -/
def porchNodes : Table Value :=
  [(.str "/porch", .ref 4), (.str "/start", .ref 5), (.str "/on", .ref 6), (.str "/off", .ref 7)]

/-- Its transitions. -/
def porchTransitions : Table Value := [(.str "/begin", .ref 8), (.str "/quit", .ref 9)]

/-- A lamp in a porch, and two tables of its records. -/
def porchGraph : Graph :=
  { cells := #[
      .map [(.str "objects", .ref 2)],
      .map [(.str "objects", .ref 3)],
      .map (porchNodes ++ porchTransitions),
      .map (porchTransitions ++ porchNodes),
      .map [(.str "type", .str "State Machine"), (.str "name", .str "Porch")],
      .map [(.str "type", .str "Initial")],
      .map [(.str "type", .str "State"), (.str "name", .str "On")],
      .map [(.str "type", .str "State"), (.str "name", .str "Off")],
      .map [(.str "type", .str "External Transition"), (.str "pointers", .ref 10)],
      .map [(.str "type", .str "External Transition"), (.str "pointers", .ref 11),
        (.str "attributes", .ref 12)],
      .map [(.str "src", .str "/start"), (.str "dst", .str "/off")],
      .map [(.str "src", .str "/on"), (.str "dst", .str "/off")],
      .map [(.str "Event", .str "press")]] }

/-- The model with the one table or the other. -/
def porchModel (root : Nat) : Model := { graph := porchGraph, root := .ref root }

/-- The lamp is off at first, also if its transitions stand before everything else. -/
theorem compile_rearranged_porch :
    DistinctPaths ((porchGraph.entries (porchNodes ++ porchTransitions)).filterMap TableEntry.node?) ∧
    ((porchGraph.entries (porchNodes ++ porchTransitions)).filterMap TableEntry.transition?).Pairwise
      (fun t t' => t.1.path.same t'.1.path = false) ∧
    Rearranged id (porchGraph.entries (porchNodes ++ porchTransitions))
      (porchGraph.entries (porchTransitions ++ porchNodes)) ∧
    ∃ out, (Compiled.output <$> (porchModel 0).compile).result = .ok out ∧
      (Compiled.output <$> (porchModel 1).compile).result = .ok out ∧
      out.2.options = ["on_on", "off_off"] ∧ out.2.initial = some "off_off" := by
  have hdistinct : DistinctPaths
      ((porchGraph.entries (porchNodes ++ porchTransitions)).filterMap TableEntry.node?) := by
    unfold DistinctPaths
    decide +kernel
  have hpaths : ((porchGraph.entries (porchNodes ++ porchTransitions)).filterMap
      TableEntry.transition?).Pairwise (fun t t' => t.1.path.same t'.1.path = false) := by
    decide +kernel
  have hrearranged : Rearranged id (porchGraph.entries (porchNodes ++ porchTransitions))
      (porchGraph.entries (porchTransitions ++ porchNodes)) := by
    rw [Graph.entries_append, Graph.entries_append]
    exact Rearranged.swap (List.eq_nil_of_length_eq_zero (by decide +kernel))
      (List.eq_nil_of_length_eq_zero (by decide +kernel))
  -- the model is compiled, and its document is looked at
  have hchecked : ((Compiled.output <$> (porchModel 0).compile).result.toOption.map
      fun out => out.2.options == ["on_on", "off_off"] && out.2.initial == some "off_off")
        = some true := by
    decide +kernel
  obtain ⟨out, hout, hcheck⟩ := Returns.of_check hchecked
  rw [Bool.and_eq_true, beq_iff_eq, beq_iff_eq] at hcheck
  have hsame := @compile_rearranged (porchModel 0) (porchModel 1) _ _ rfl rfl hdistinct hpaths id
    hrearranged {} out
  exact ⟨hdistinct, hpaths, hrearranged, out, hout, hsame.mpr hout, hcheck⟩

end Model

end HomeAutomaton
