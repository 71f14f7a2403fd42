import HomeAutomaton.Data.Lists
import HomeAutomaton.Proofs.TreeCoverage
import Mathlib.Data.Fintype.Card
import Mathlib.Data.Fintype.EquivFin

/-!
# Visiting records again

The walk of a tree remembers which records it has visited, by their numbers, and passes over them. If no
record stands below itself, and every transition with pointers has a path, then it need not: a record
that is visited a second time adds nothing to the machine and leads to nothing, and neither does anything
below it. So the machine of a tree does not depend on what is one record and what are two of the same
content.

* `Record.enter_again` is about one record, `Record.Inert` about one with all that stands below it.
* `Machine.Reads` and `Machine.ReadsAll` read records without remembering any; `Tour.visit_reads` and
  `Tour.drain_reads` say that the walk does the same.
* `Record.Copying` relates the records of two graphs that read alike, and `Machine.ofTree_copying` is the
  result.
-/

namespace HomeAutomaton

/-! ### The same record again -/

/-- From where one can only go down finitely often, one does not come back. -/
theorem not_transGen_of_acc {α : Type} {rel : α → α → Prop} {a : α} (h : Acc (fun b a => rel a b) a) :
    ¬ Relation.TransGen rel a a := by
  induction h with
  | intro a _ ih =>
    intro hcircle
    obtain ⟨b, hstep, hback⟩ := Relation.TransGen.head'_iff.mp hcircle
    exact ih b hstep (Relation.TransGen.tail' hback hstep)

namespace Machine

variable {m m₁ m' : Machine} {added : Bool}

/-- A node that was added is not added again, however much was added since. -/
theorem addNode_again {n : Node} (h : m.addNode n = .ok (added, m₁)) (hgrows : m₁.Grows m') :
    m'.addNode n = .ok (false, m') := by
  have hkey : n.path.isKey = true := by
    unfold addNode at h
    split at h
    next => cases h
    next hkey => simpa using hkey
  -- whether it was added or known, a node with its path is there now
  have hthere : ∃ other ∈ m₁.nodes, other.path.same n.path = true := by
    rcases nodes_of_addNode h with ⟨-, rfl, hsame⟩ | ⟨-, hnodes⟩
    · exact hsame
    · refine ⟨n, ?_, Data.same_self _⟩
      rw [hnodes]
      exact List.mem_append_right _ List.mem_cons_self
  obtain ⟨other, hother, hsame⟩ := hthere
  have hany : m'.nodes.any (fun other => other.path.same n.path) = true :=
    List.any_eq_true.mpr ⟨other, hgrows.nodes hother, hsame⟩
  rw [addNode, hkey, dif_pos hany]
  rfl

theorem addTransition_again {t : Transition} {path : Data} {label : Nat}
    (hfilled : path.isFilled = true)
    (h : m.addTransition t (.ofPath path (.record label)) = .ok (added, m₁)) (hgrows : m₁.Grows m') :
    m'.addTransition t (.ofPath path (.record label)) = .ok (false, m') := by
  rw [TransitionKey.ofPath, if_pos hfilled] at h ⊢
  have hkey : (TransitionKey.path path).isKey = true := by
    unfold addTransition at h
    split at h
    next => cases h
    next hkey => simpa using hkey
  -- so is its key
  have hthere : ∃ key ∈ m₁.keys, (TransitionKey.path path).same key = true := by
    unfold addTransition at h
    split at h
    next => cases h
    next =>
      split at h
      next hany =>
        obtain ⟨-, rfl⟩ := Prod.mk.inj (Except.ok.inj h)
        exact List.any_eq_true.mp hany
      next =>
        obtain ⟨-, rfl⟩ := Prod.mk.inj (Except.ok.inj h)
        exact ⟨.path path, List.mem_append_right _ List.mem_cons_self, Data.same_self _⟩
  obtain ⟨key, hmem, hsame⟩ := hthere
  have hany : m'.keys.any (TransitionKey.path path).same = true :=
    List.any_eq_true.mpr ⟨key, hgrows.keys hmem, hsame⟩
  rw [addTransition, hkey, if_pos hany]
  rfl

end Machine

namespace Record

variable {g : Graph} {r : Record} {m m₁ m' : Machine}

/-- Reading a transition with pointers and a path again adds nothing. -/
theorem addPointerTransition_again {kind : TransitionKind} {otherwise : Data}
    (hfilled : (r.pathOr g otherwise).isFilled = true)
    (h : r.addPointerTransition g kind otherwise m = .ok m₁) (hgrows : m₁.Grows m') :
    r.addPointerTransition g kind otherwise m' = .ok m' := by
  obtain ⟨pointers, hpointers, h⟩ := bind_eq_ok.mp h
  obtain ⟨attributes, hattributes, h⟩ := bind_eq_ok.mp h
  obtain ⟨⟨added, m₂⟩, hadd, h⟩ := bind_eq_ok.mp h
  obtain rfl := Except.ok.inj h
  have hagain := Machine.addTransition_again hfilled hadd hgrows
  simp only [addPointerTransition, hpointers, hattributes, ok_bind]
  rw [hagain, ok_bind]

/-- Reading a node again adds nothing, and its transitions are not looked at. -/
theorem addWithTransitions_again {referenced : List Record}
    (h : (r.addWithTransitions g m).result = .ok (m₁, referenced)) (hgrows : m₁.Grows m') :
    (r.addWithTransitions g m').result = .ok (m', []) := by
  obtain ⟨n?, hn, h⟩ := Logged.bind_eq_ok.mp h
  refine Logged.bind_eq_ok.mpr ⟨n?, hn, ?_⟩
  cases n? with
  | none => rfl
  | some n =>
    obtain ⟨⟨added, m₂⟩, hadd, h⟩ := Logged.bind_eq_ok.mp h
    -- what was added after the node itself leaves it there
    have hlater : m₂.Grows m₁ := by
      cases added with
      | false =>
        obtain ⟨rfl, -⟩ := Prod.mk.inj (Except.ok.inj h)
        exact .refl _
      | true => exact (addHeldTransitions_grows (addTransitions_eq_ok h)).1
    exact Logged.bind_eq_ok.mpr ⟨(false, m'), Machine.addNode_again hadd (hlater.trans hgrows), rfl⟩

/-- **A record that is read again adds nothing**, and leads to nothing but its children. -/
theorem enter_again (hpath : r.pointerKind? g ≠ none → (r.pathOr g .null).isFilled = true)
    {found : Found} (h : (r.enter g m).result = .ok found) (hgrows : found.machine.Grows m') :
    (r.enter g m').result = .ok { machine := m', children := found.children } := by
  rw [enter] at h ⊢
  -- a record with pointers, or one that may stand for a node
  split at h
  next kind hkind =>
    obtain ⟨m₁, hadd, h⟩ := Logged.bind_eq_ok.mp h
    obtain rfl := Except.ok.inj h
    have hfilled := hpath (by rw [hkind]; exact Option.some_ne_none kind)
    exact Logged.bind_eq_ok.mpr ⟨m', addPointerTransition_again hfilled hadd hgrows, rfl⟩
  next hkind =>
    obtain ⟨⟨m₁, referenced⟩, hadd, h⟩ := Logged.bind_eq_ok.mp h
    obtain ⟨children, hchildren, h⟩ := Logged.bind_eq_ok.mp h
    obtain rfl := Except.ok.inj h
    refine Logged.bind_eq_ok.mpr ⟨(m', []), addWithTransitions_again hadd hgrows, ?_⟩
    exact Logged.bind_eq_ok.mpr ⟨children, hchildren, rfl⟩

/-- The second record is found among the children of the first. -/
def Leads (g : Graph) (r c : Record) : Prop :=
  ∃ m found, (r.enter g m).result = .ok found ∧ c ∈ found.children

/-- Reading the record adds nothing to the machine from here on, and neither does reading what stands
below it. -/
inductive Inert (g : Graph) (m : Machine) : Record → Prop
  | intro {r : Record} (below : Record → Prop) :
      (∀ m', m.Grows m' → ∃ cs, (r.enter g m').result = .ok { machine := m', children := cs } ∧
        ∀ c ∈ cs, below c) →
      (∀ c, below c → Inert g m c) → Inert g m r

theorem Inert.mono (h : r.Inert g m) (hgrows : m.Grows m') : r.Inert g m' := by
  induction h with
  | intro below hidle _ ih => exact .intro below (fun m'' hlater => hidle m'' (hgrows.trans hlater)) ih

/-- An inert record is read. -/
theorem Inert.enter (h : r.Inert g m) :
    ∃ cs, (r.enter g m).result = .ok { machine := m, children := cs } ∧ ∀ c ∈ cs, c.Inert g m := by
  cases h with
  | intro below hidle hbelow =>
    obtain ⟨cs, hcs, hmem⟩ := hidle m (.refl m)
    exact ⟨cs, hcs, fun c hc => hbelow c (hmem c hc)⟩

/-- Records among which one can stay: all that is found in them is among them, none of them stands below
itself, and a record that is read again adds nothing. -/
structure Orderly (g : Graph) (among : Record → Prop) : Prop where
  isIn : ∀ r, among r → r.IsIn g
  found : ∀ r m found, among r → (r.enter g m).result = .ok found →
    (∀ c ∈ found.children, among c) ∧ ∀ d ∈ found.referenced, among d
  descends : ∀ r, among r → Acc (fun c r => Leads g r c) r
  again : ∀ r m found m', among r → (r.enter g m).result = .ok found → found.machine.Grows m' →
    ∃ cs, (r.enter g m').result = .ok { machine := m', children := cs } ∧ ∀ c ∈ cs, c ∈ found.children

/-- Once what stands below it is inert, a record that was read is inert. -/
theorem Orderly.inert {among : Record → Prop} (h : Orderly g among) (hr : among r) {found : Found}
    (hfound : (r.enter g m).result = .ok found) (hgrows : found.machine.Grows m')
    (hchildren : ∀ c ∈ found.children, c.Inert g m') : r.Inert g m' :=
  .intro (· ∈ found.children)
    (fun m'' hlater => h.again r m found m'' hr hfound (hgrows.trans hlater)) hchildren

/-- The records that a record leads to are met on the way from the root, if the record is. -/
theorem Met.found {root : Record} (hr : Met g root r) {found : Found}
    (h : (r.enter g m).result = .ok found) :
    (∀ c ∈ found.children, Met g root c) ∧ ∀ d ∈ found.referenced, Met g root d := by
  -- of the result this is said whatever the condition is
  have hstart : Machine.Walk.Legible False .lenient g root { machine := m, pending := [] } :=
    ⟨False.elim, fun c hc => absurd hc List.not_mem_nil, fun d hd => absurd hd List.not_mem_nil⟩
  have hends : (Machine.visit g r { machine := m, pending := [] }).Ends (fun _ => True)
      (Machine.Walk.Legible False .lenient g root) := Machine.visit_ends .any False.elim hr hstart
  rw [Machine.visit_eq, Logged.Ends, Logged.bind_of_ok h] at hends
  exact ⟨fun c hc => hends.pending c (List.mem_append_left _ hc), hends.referenced⟩

/-- Of the records of a graph none of which stands below itself, one can only go down finitely often. -/
theorem acc_leads {among : Record → Prop} (hin : ∀ r, among r → r.IsIn g)
    (hleads : ∀ r c, among r → Leads g r c → among c)
    (hacyclic : ∀ r, among r → ¬ Relation.TransGen (HasChild g) r r) (hr : among r) :
    Acc (fun c r => Leads g r c) r := by
  have hchild : ∀ r c, Leads g r c → HasChild g r c := by
    rintro r c ⟨m, found, hfound, hc⟩
    exact ((entered_of_enter hfound).children c).mp hc
  -- there are no more of these records than there are objects
  have hfinite : Finite {r // among r} := by
    let number : {r // among r} → Fin g.cells.size := fun r => ⟨r.1.label, (hin r.1 r.2).label_lt⟩
    refine Finite.of_injective number fun r r' hlabel => ?_
    exact Subtype.ext ((hin r.1 r.2).eq_of_label (hin r'.1 r'.2) (Fin.mk.inj hlabel))
  -- to stand below is transitive, and nothing stands below itself
  let below : {r // among r} → {r // among r} → Prop :=
    fun c r => Relation.TransGen (HasChild g) r.1 c.1
  have hwf : WellFounded below := by
    have htrans : IsTrans _ below := ⟨fun _ _ _ h h' => h'.trans h⟩
    have hirrefl : Std.Irrefl below := ⟨fun r => hacyclic r.1 r.2⟩
    exact Finite.wellFounded_of_trans_of_irrefl below
  have hall : ∀ r : {r // among r}, Acc (fun c r => Leads g r c) r.1 := by
    intro r
    induction hwf.apply r with
    | intro r _ ih =>
      refine .intro r.1 fun c hc => ?_
      exact ih ⟨c, hleads r.1 c r.2 hc⟩ (.single (hchild r.1 c hc))
  exact hall ⟨r, hr⟩

/-- In the tree of a root below which no record stands below itself, and transitions with pointers have
paths, the records that are met are such records. -/
theorem Orderly.of_met {root : Record}
    (hacyclic : ∀ r, Met g root r → ¬ Relation.TransGen (HasChild g) r r)
    (hpaths : ∀ r, Met g root r → r.pointerKind? g ≠ none → (r.pathOr g .null).isFilled = true) :
    Orderly g fun r => Met g root r ∧ r.IsIn g where
  isIn := fun r hr => hr.2
  found := fun r m found hr hfound => by
    have hentered := entered_of_enter hfound
    obtain ⟨hchildren, hreferenced⟩ := hr.1.found hfound
    exact ⟨fun c hc => ⟨hchildren c hc, hentered.childrenIn c hc⟩,
      fun d hd => ⟨hreferenced d hd, hentered.referencedIn d hd⟩⟩
  -- down the tree one stays among the records that are met
  descends := fun r hr => by
    have hleads : ∀ r c, Met g root r ∧ r.IsIn g → Leads g r c → Met g root c ∧ c.IsIn g := by
      rintro r c ⟨hmet, -⟩ ⟨m, found, hfound, hc⟩
      exact ⟨(hmet.found hfound).1 c hc, (entered_of_enter hfound).childrenIn c hc⟩
    exact acc_leads (fun r hr => hr.2) hleads (fun r hr => hacyclic r hr.1) hr
  again := fun r m found m' hr hfound hgrows =>
    ⟨found.children, enter_again (hpaths r hr.1) hfound hgrows, fun _ hc => hc⟩

end Record

/-! ### Reading without memory -/

namespace Machine

variable {g : Graph}

/-- Records are read, each with all that stands below it, whether they were read before or not. The
result is a machine, with what waits to be read after that. -/
inductive Reads (g : Graph) : Machine → List Record → Except Fault (Machine × List Record) → Prop
  | nil {m : Machine} : Reads g m [] (.ok (m, []))
  | failsHere {m : Machine} {r : Record} {rest : List Record} {e : Fault} :
      (r.enter g m).result = .error e → Reads g m (r :: rest) (.error e)
  | failsBelow {m : Machine} {r : Record} {rest : List Record} {found : Record.Found} {e : Fault} :
      (r.enter g m).result = .ok found → Reads g found.machine found.children (.error e) →
      Reads g m (r :: rest) (.error e)
  | failsBeside {m m₁ : Machine} {r : Record} {rest waiting : List Record} {found : Record.Found} {e : Fault} :
      (r.enter g m).result = .ok found → Reads g found.machine found.children (.ok (m₁, waiting)) →
      Reads g m₁ rest (.error e) → Reads g m (r :: rest) (.error e)
  | cons {m m₁ m' : Machine} {r : Record} {rest waiting later : List Record} {found : Record.Found} :
      (r.enter g m).result = .ok found → Reads g found.machine found.children (.ok (m₁, waiting)) →
      Reads g m₁ rest (.ok (m', later)) →
      Reads g m (r :: rest) (.ok (m', found.referenced ++ waiting ++ later))

/-- The same, and then what waits is read, the oldest first. -/
inductive ReadsAll (g : Graph) : Machine → List Record → Except Fault Machine → Prop
  | nil {m : Machine} : ReadsAll g m [] (.ok m)
  | fails {m : Machine} {r : Record} {rest : List Record} {e : Fault} : Reads g m [r] (.error e) →
      ReadsAll g m (r :: rest) (.error e)
  | cons {m m₁ : Machine} {r : Record} {rest waiting : List Record} {out : Except Fault Machine} :
      Reads g m [r] (.ok (m₁, waiting)) → ReadsAll g m₁ (rest ++ waiting) out →
      ReadsAll g m (r :: rest) out

/-- There is one way to read records. -/
theorem Reads.unique {m : Machine} {rs : List Record} {out out' : Except Fault (Machine × List Record)}
    (h : Reads g m rs out) (h' : Reads g m rs out') : out = out' := by
  -- on one of the two; a record is entered in one way only, so the other one goes the same way
  induction h generalizing out' with
  | nil => cases h'; rfl
  | failsHere hentered =>
    cases h' with
    | failsHere hentered' => exact congrArg _ (Except.error.inj (hentered.symm.trans hentered'))
    | failsBelow hentered' => cases hentered.symm.trans hentered'
    | failsBeside hentered' => cases hentered.symm.trans hentered'
    | cons hentered' => cases hentered.symm.trans hentered'
  | failsBelow hentered _ ih =>
    cases h' with
    | failsHere hentered' => cases hentered.symm.trans hentered'
    | failsBelow hentered' hbelow =>
      obtain rfl := Except.ok.inj (hentered.symm.trans hentered')
      exact congrArg _ (Except.error.inj (ih hbelow))
    | failsBeside hentered' hbelow =>
      obtain rfl := Except.ok.inj (hentered.symm.trans hentered')
      cases ih hbelow
    | cons hentered' hbelow =>
      obtain rfl := Except.ok.inj (hentered.symm.trans hentered')
      cases ih hbelow
  | failsBeside hentered _ _ ihc ihr =>
    cases h' with
    | failsHere hentered' => cases hentered.symm.trans hentered'
    | failsBelow hentered' hbelow =>
      obtain rfl := Except.ok.inj (hentered.symm.trans hentered')
      cases ihc hbelow
    | failsBeside hentered' hbelow hrest =>
      obtain rfl := Except.ok.inj (hentered.symm.trans hentered')
      -- the machine below is the same one, so the records beside it are read from there
      obtain ⟨rfl, rfl⟩ := Prod.mk.inj (Except.ok.inj (ihc hbelow))
      exact congrArg _ (Except.error.inj (ihr hrest))
    | cons hentered' hbelow hrest =>
      obtain rfl := Except.ok.inj (hentered.symm.trans hentered')
      obtain ⟨rfl, rfl⟩ := Prod.mk.inj (Except.ok.inj (ihc hbelow))
      cases ihr hrest
  | cons hentered _ _ ihc ihr =>
    cases h' with
    | failsHere hentered' => cases hentered.symm.trans hentered'
    | failsBelow hentered' hbelow =>
      obtain rfl := Except.ok.inj (hentered.symm.trans hentered')
      cases ihc hbelow
    | failsBeside hentered' hbelow hrest =>
      obtain rfl := Except.ok.inj (hentered.symm.trans hentered')
      obtain ⟨rfl, rfl⟩ := Prod.mk.inj (Except.ok.inj (ihc hbelow))
      cases ihr hrest
    | cons hentered' hbelow hrest =>
      obtain rfl := Except.ok.inj (hentered.symm.trans hentered')
      obtain ⟨rfl, rfl⟩ := Prod.mk.inj (Except.ok.inj (ihc hbelow))
      obtain ⟨rfl, rfl⟩ := Prod.mk.inj (Except.ok.inj (ihr hrest))
      rfl

theorem ReadsAll.unique {m : Machine} {rs : List Record} {out out' : Except Fault Machine}
    (h : ReadsAll g m rs out) (h' : ReadsAll g m rs out') : out = out' := by
  -- on one of the two; the first record is read in one way
  induction h with
  | nil => cases h'; rfl
  | fails hfirst =>
    cases h' with
    | fails hfirst' => exact congrArg _ (Except.error.inj (hfirst.unique hfirst'))
    | cons hfirst' => cases hfirst.unique hfirst'
  | cons hfirst _ ih =>
    cases h' with
    | fails hfirst' => cases hfirst.unique hfirst'
    | cons hfirst' hrest =>
      obtain ⟨rfl, rfl⟩ := Prod.mk.inj (Except.ok.inj (hfirst.unique hfirst'))
      exact ih hrest

/-- An inert record adds nothing, and nothing waits after it. -/
theorem reads_of_inert {m : Machine} {r : Record} (h : r.Inert g m) {rest : List Record}
    {out : Except Fault (Machine × List Record)} (hrest : Reads g m rest out) :
    Reads g m (r :: rest) out := by
  -- down the record; all that is found below it is inert as well
  induction h generalizing rest out with
  | intro below hidle _ ih =>
    obtain ⟨cs, hcs, hbelow⟩ := hidle m (.refl m)
    have hchildren : Reads g m cs (.ok (m, [])) := by
      clear hcs
      induction cs with
      | nil => exact .nil
      | cons c cs ihcs =>
        obtain ⟨hc, hrest⟩ := List.forall_mem_cons.mp hbelow
        exact ih c hc (ihcs hrest)
    cases out with
    | ok out => exact .cons hcs hchildren hrest
    | error e => exact .failsBeside hcs hchildren hrest

end Machine

/-! ### The walk reads without memory -/

/-- What is said of results and faults alike is said of the outcome. -/
theorem Logged.Ends.result {α : Type} {x : Logged α} {p : Except Fault α → Prop}
    (h : x.Ends (fun e => p (.error e)) fun a => p (.ok a)) : p x.result := by
  unfold Logged.Ends HomeAutomaton.Ends at h
  split at h
  next hx => rwa [hx]
  next hx => rwa [hx]

/-- The second of two computations decides how both end, if the first has a result. -/
theorem Logged.ends_bind_of_ok {α β : Type} {blame : Fault → Prop} {x : Logged α} {f : α → Logged β}
    {post : β → Prop} {a : α} (hx : x.result = .ok a) (h : (f a).Ends blame post) :
    (x >>= f).Ends blame post := by
  rw [Logged.Ends, Logged.bind_of_ok hx]
  exact h

namespace Tour

variable {g : Graph} {among current : Record → Prop} {s s' : Tour} {r : Record} {rs : List Record}

/-- Every record that was visited is inert, apart from those that are being visited at this moment. -/
def Settles (g : Graph) (current : Record → Prop) (s : Tour) : Prop :=
  ∀ r, r.IsIn g → r.label ∈ s.seen → current r ∨ r.Inert g s.machine

/-- What a visit comes to: it reads its records as one does without memory, and they are inert then. -/
structure Read (g : Graph) (among current : Record → Prop) (s : Tour) (rs : List Record) (s' : Tour) :
    Prop where
  reads : ∃ waiting, s'.queue = s.queue ++ waiting ∧ (∀ d ∈ waiting, among d) ∧
    Machine.Reads g s.machine rs (.ok (s'.machine, waiting))
  grows : s.machine.Grows s'.machine
  settles : s'.Settles g current
  inert : ∀ r ∈ rs, r.Inert g s'.machine

/-- A record is being visited while its children are. -/
theorem Settles.enter {found : Record.Found} (h : s.Settles g current) (hr : r.IsIn g)
    (hfound : (r.enter g s.machine).result = .ok found) :
    (s.enter r found).Settles g fun x => current x ∨ x = r := by
  have hgrows := (Record.collected_of_enter hfound).grows
  intro x hx hseen
  rcases List.mem_cons.mp hseen with hlabel | hseen
  · exact .inl (.inr (hx.eq_of_label hr hlabel))
  · exact (h x hx hseen).imp .inl fun hinert => hinert.mono hgrows

/-- A record that is inert is no longer being visited. -/
theorem Settles.leave (h : s.Settles g fun x => current x ∨ x = r) (hr : r.Inert g s.machine) :
    s.Settles g current := by
  intro x hx hseen
  rcases h x hx hseen with (hcurrent | rfl) | hinert
  · exact .inl hcurrent
  · exact .inr hr
  · exact .inr hinert

namespace Read

theorem nil (h : s.Settles g current) : Read g among current s [] s where
  reads := ⟨[], (List.append_nil _).symm, fun _ hd => absurd hd List.not_mem_nil, .nil⟩
  grows := .refl _
  settles := h
  inert := fun _ hr => absurd hr List.not_mem_nil

/-- A record is read, then what is below it and then what is beside it. -/
theorem cons {found : Record.Found} {below : Record → Prop} {s₁ s₂ : Tour}
    (hfound : (r.enter g s.machine).result = .ok found) (hwait : ∀ d ∈ found.referenced, among d)
    (hr : r.Inert g s₁.machine) (hbelow : Read g among below (s.enter r found) found.children s₁)
    (hbeside : Read g among current s₁ rs s₂) : Read g among current s (r :: rs) s₂ := by
  obtain ⟨waiting, hwaiting, hwaits, hreads⟩ := hbelow.reads
  obtain ⟨later, hlater, hlaterwaits, hreads'⟩ := hbeside.reads
  have hgrows := (Record.collected_of_enter hfound).grows
  refine ⟨⟨found.referenced ++ waiting ++ later, ?_, ?_, .cons hfound hreads hreads'⟩,
    hgrows.trans (hbelow.grows.trans hbeside.grows), hbeside.settles, ?_⟩
  · rw [hlater, hwaiting, enter]
    simp only [List.append_assoc]
  · exact List.forall_mem_append.mpr ⟨List.forall_mem_append.mpr ⟨hwait, hwaits⟩, hlaterwaits⟩
  · exact List.forall_mem_cons.mpr ⟨hr.mono hbeside.grows, hbeside.inert⟩

/-- A record that is inert is passed over. -/
theorem cons_of_inert (hr : r.Inert g s.machine) (h : Read g among current s rs s') :
    Read g among current s (r :: rs) s' := by
  obtain ⟨waiting, hwaiting, hwait, hreads⟩ := h.reads
  exact ⟨⟨waiting, hwaiting, hwait, Machine.reads_of_inert hr hreads⟩, h.grows, h.settles,
    List.forall_mem_cons.mpr ⟨hr.mono h.grows, h.inert⟩⟩

end Read

/-- **A visit reads its records as if there were no memory.** The records that are being visited stand
below none of those that are to be visited, so whatever is passed over is inert. -/
theorem visit_reads (h : Record.Orderly g among) (hrs : ∀ r ∈ rs, among r)
    (hapart : ∀ r ∈ rs, ∀ x, Relation.ReflTransGen (Record.Leads g) r x → ¬ current x)
    (hsettles : s.Settles g current) :
    (s.visit g rs).Ends (fun e => Machine.Reads g s.machine rs (.error e))
      (Read g among current s rs) := by
  -- along the visit; `current` are the records that are being visited
  induction s, rs using Tour.visitWith.induct g generalizing current with
  | case1 s =>
    rw [visit_nil]
    exact .pure (.nil hsettles)
  | case2 s r rest hfresh ihc ihr =>
    obtain ⟨hr, hrest⟩ := List.forall_mem_cons.mp hrs
    obtain ⟨hrapart, hrestapart⟩ := List.forall_mem_cons.mp hapart
    rw [visit_cons_of_fresh hfresh]
    cases hfound : (r.enter g s.machine).result with
    | error e =>
      rw [Logged.Ends, Logged.bind_of_error hfound]
      exact .failsHere hfound
    | ok found =>
      refine Logged.ends_bind_of_ok hfound ?_
      obtain ⟨hchildren, hreferenced⟩ := h.found r s.machine found hr hfound
      have hleads : ∀ c ∈ found.children, r.Leads g c := fun c hc => ⟨s.machine, found, hfound, hc⟩
      -- what is visited now stands below none of its children, as nothing stands below itself
      have hchildrenapart : ∀ c ∈ found.children, ∀ x, Relation.ReflTransGen (Record.Leads g) c x →
          ¬ (current x ∨ x = r) := by
        rintro c hc x hbelow (hcurrent | rfl)
        · exact hrapart x (.head (hleads c hc) hbelow) hcurrent
        · exact not_transGen_of_acc (h.descends x hr) (.head' (hleads c hc) hbelow)
      have hbelow := ihc found hchildren hchildrenapart (hsettles.enter (h.isIn r hr) hfound)
      refine ((hbelow.mono fun s₁ hs₁ hread => And.intro hs₁ hread).weaken fun e he =>
        .failsBelow hfound he).bind fun s₁ hread₁ => ?_
      obtain ⟨hs₁, hread₁⟩ := hread₁
      obtain ⟨_, _, _, hreads₁⟩ := hread₁.reads
      -- once all below it is inert, the record is inert itself
      have hself : r.Inert g s₁.machine := h.inert hr hfound hread₁.grows hread₁.inert
      have hbeside := ihr found s₁ (progress_of_visit hs₁) hrest hrestapart
        (hread₁.settles.leave hself)
      exact (hbeside.mono fun s₂ _ hread₂ => Read.cons hfound hreferenced hself hread₁ hread₂).weaken
        fun e he => .failsBeside hfound hreads₁ he
  | case3 s r rest hfresh ih =>
    obtain ⟨hr, hrest⟩ := List.forall_mem_cons.mp hrs
    obtain ⟨hrapart, hrestapart⟩ := List.forall_mem_cons.mp hapart
    rw [visit_cons_of_not_fresh hfresh]
    have hin := h.isIn r hr
    have hseen : r.label ∈ s.seen := by
      by_contra hnew
      exact hfresh ⟨hin.label_lt, hnew⟩
    -- it was met before and is no record that is being visited, so it is inert
    have hinert : r.Inert g s.machine := (hsettles r hin hseen).resolve_left (hrapart r .refl)
    exact ((ih hrest hrestapart hsettles).mono fun s' _ hread => .cons_of_inert hinert hread).weaken
      fun e he => Machine.reads_of_inert hinert he

/-- What waits is read as if there were no memory. -/
theorem drain_reads (h : Record.Orderly g among) (hqueue : ∀ d ∈ s.queue, among d)
    (hsettles : s.Settles g fun _ => False) :
    (s.drain g).Ends (fun e => Machine.ReadsAll g s.machine s.queue (.error e))
      fun s' => Machine.ReadsAll g s.machine s.queue (.ok s'.machine) := by
  -- along what waits
  induction s using Tour.drain.induct g with
  | case1 s hnil =>
    rw [drain_of_nil hnil, hnil]
    exact .pure .nil
  | case2 s r queue hcons ih =>
    rw [drain_of_cons hcons, hcons]
    obtain ⟨hr, hrest⟩ := List.forall_mem_cons.mp (hcons ▸ hqueue)
    have hfirst : (Tour.visit g { s with queue } [r]).Ends
        (fun e => Machine.Reads g s.machine [r] (.error e))
        (Read g among (fun _ => False) { s with queue } [r]) :=
      visit_reads h (List.forall_mem_singleton.mpr hr) (fun _ _ _ _ => id) hsettles
    refine ((hfirst.mono fun s₁ hs₁ hread => And.intro hs₁ hread).weaken fun e he =>
      .fails he).bind fun s₁ hread₁ => ?_
    obtain ⟨hs₁, ⟨waiting, hwaiting, hwait, hreads⟩, -, hsettles₁, -⟩ := hread₁
    have hwaiting₁ : s₁.queue = queue ++ waiting := hwaiting
    have hqueue₁ : ∀ d ∈ s₁.queue, among d := by
      rw [hwaiting₁]
      exact List.forall_mem_append.mpr ⟨hrest, hwait⟩
    have hlater := ih s₁ (progress_of_visit hs₁) hqueue₁ hsettles₁
    rw [hwaiting₁] at hlater
    exact (hlater.mono fun s' _ hread => .cons hreads hread).weaken fun e he => .cons hreads he

end Tour

namespace Machine

variable {g g' : Graph} {among : Record → Prop} {root root' : Record}

/-- **The walk of a tree needs no memory**, where no record stands below itself and transitions with
pointers have paths. -/
theorem ofTree_reads (h : Record.Orderly g among) (hroot : among root) :
    ReadsAll g {} [root] (ofTree g root).result := by
  -- the root is visited first, then what waits
  have hfirst : (Tour.visit g {} [root]).Ends (fun e => Reads g {} [root] (.error e))
      (Tour.Read g among (fun _ => False) {} [root]) :=
    Tour.visit_reads h (List.forall_mem_singleton.mpr hroot) (fun _ _ _ _ => id)
      fun r _ hseen => absurd hseen List.not_mem_nil
  rw [ofTree_eq (h.isIn root hroot), traverse]
  have hends : (do
      let s ← Tour.visit g {} [root]
      let s ← s.drain g
      pure s.machine : Logged Machine).Ends (fun e => ReadsAll g {} [root] (.error e))
        fun m => ReadsAll g {} [root] (.ok m) := by
    refine (hfirst.weaken fun e he => .fails he).bind fun s hread => ?_
    obtain ⟨⟨waiting, hwaiting, hwait, hreads⟩, -, hsettles, -⟩ := hread
    obtain rfl : s.queue = waiting := hwaiting
    have hlater := Tour.drain_reads h hwait hsettles
    exact (hlater.weaken fun e he => .cons hreads he).bind fun s' hread => .pure (.cons hreads hread)
  exact hends.result

end Machine

/-! ### Copies -/

namespace Record

/-- What is found in two records is the same, up to related records. -/
structure Found.Like (copied : Record → Record → Prop) (found found' : Found) : Prop where
  machine : found.machine = found'.machine
  children : List.Forall₂ copied found.children found'.children
  referenced : List.Forall₂ copied found.referenced found'.referenced

/-- **Records that read alike**: whatever the machine, related records of the two graphs add the same to
it, or have the same fault, and what they lead to is related. -/
structure Copying (g g' : Graph) (copied : Record → Record → Prop) : Prop where
  isIn : ∀ r r', copied r r' → r'.IsIn g'
  enter : ∀ r r' m, copied r r' → (r.enter g m).EndsLike (Found.Like copied) (r'.enter g' m)

variable {g g' : Graph} {among : Record → Prop} {copied : Record → Record → Prop} {r r' : Record}

/-- What is found in a copy is found in the original, and the other way round. -/
theorem Copying.found (h : Copying g g' copied) (hcopied : copied r r') {m : Machine} {found' : Found}
    (hfound : (r'.enter g' m).result = .ok found') :
    ∃ found, (r.enter g m).result = .ok found ∧ found.Like copied found' := by
  have hends := h.enter r r' m hcopied
  rw [Logged.EndsLike, hfound] at hends
  exact hends.of_ok'

theorem Copying.found_copy (h : Copying g g' copied) (hcopied : copied r r') {m : Machine} {found : Found}
    (hfound : (r.enter g m).result = .ok found) :
    ∃ found', (r'.enter g' m).result = .ok found' ∧ found.Like copied found' := by
  have hends := h.enter r r' m hcopied
  rw [Logged.EndsLike, hfound] at hends
  exact hends.of_ok

/-- Copies of records among which one can stay are such records again. -/
theorem Orderly.copy (h : Orderly g among) (hcopying : Copying g g' copied) :
    Orderly g' fun r' => ∃ r, among r ∧ copied r r' where
  isIn := by
    rintro r' ⟨r, -, hcopied⟩
    exact hcopying.isIn r r' hcopied
  found := by
    rintro r' m found' ⟨r, hr, hcopied⟩ hfound'
    obtain ⟨found, hfound, hlike⟩ := hcopying.found hcopied hfound'
    obtain ⟨hchildren, hreferenced⟩ := h.found r m found hr hfound
    refine ⟨fun c' hc' => ?_, fun d' hd' => ?_⟩
    · obtain ⟨c, hc, hcc'⟩ := exists_of_mem_right hlike.children hc'
      exact ⟨c, hchildren c hc, hcc'⟩
    · obtain ⟨d, hd, hdd'⟩ := exists_of_mem_right hlike.referenced hd'
      exact ⟨d, hreferenced d hd, hdd'⟩
  descends := by
    rintro r' ⟨r, hr, hcopied⟩
    have hacc := h.descends r hr
    clear hr
    -- down the original; what the copy leads to are copies of what the original leads to
    induction hacc generalizing r' with
    | intro r _ ih =>
      refine .intro r' fun c' hleads => ?_
      obtain ⟨m, found', hfound', hc'⟩ := hleads
      obtain ⟨found, hfound, hlike⟩ := hcopying.found hcopied hfound'
      obtain ⟨c, hc, hcc'⟩ := exists_of_mem_right hlike.children hc'
      exact ih c ⟨m, found, hfound, hc⟩ c' hcc'
  again := by
    rintro r' m found' m' ⟨r, hr, hcopied⟩ hfound' hgrows
    obtain ⟨found, hfound, hlike⟩ := hcopying.found hcopied hfound'
    obtain ⟨cs, hcs, -⟩ := h.again r m found m' hr hfound (hlike.machine ▸ hgrows)
    have hends := hcopying.enter r r' m' hcopied
    rw [Logged.EndsLike, hcs] at hends
    obtain ⟨found'', hfound'', hmachine, hchildren, hreferenced⟩ := hends.of_ok
    obtain ⟨machine, children, referenced⟩ := found''
    obtain rfl : m' = machine := hmachine
    obtain rfl := List.forall₂_nil_left_iff.mp hreferenced
    refine ⟨children, hfound'', fun c hc => ?_⟩
    -- the children of a record do not depend on the machine
    exact ((entered_of_enter hfound').children c).mpr (((entered_of_enter hfound'').children c).mp hc)

end Record

namespace Machine

variable {g g' : Graph} {copied : Record → Record → Prop} {m : Machine}

/-- Copies are read like the originals. -/
theorem Reads.copy (h : Record.Copying g g' copied) {rs : List Record}
    {out : Except Fault (Machine × List Record)} (hreads : Reads g m rs out) {rs' : List Record}
    (hrs : List.Forall₂ copied rs rs') :
    ∃ out', Reads g' m rs' out' ∧
      EndsLike (fun a b => a.1 = b.1 ∧ List.Forall₂ copied a.2 b.2) out out' := by
  -- on the reading of the originals; each record has a copy that is entered alike
  induction hreads generalizing rs' with
  | nil =>
    cases hrs
    exact ⟨_, .nil, rfl, .nil⟩
  | @failsHere m r rest e hfound =>
    obtain ⟨r', rest', hr, hrest, rfl⟩ := List.forall₂_cons_left_iff.mp hrs
    have hends := h.enter r r' m hr
    rw [Logged.EndsLike, hfound] at hends
    exact ⟨_, .failsHere hends.of_error, rfl⟩
  | @failsBelow m r rest found e hfound _ ih =>
    obtain ⟨r', rest', hr, hrest, rfl⟩ := List.forall₂_cons_left_iff.mp hrs
    obtain ⟨found', hfound', hlike⟩ := h.found_copy hr hfound
    obtain ⟨out', hbelow, hout⟩ := ih hlike.children
    obtain rfl := hout.of_error
    exact ⟨_, .failsBelow hfound' (hlike.machine ▸ hbelow), rfl⟩
  | @failsBeside m m₁ r rest waiting found e hfound _ _ ihc ihr =>
    obtain ⟨r', rest', hr, hrest, rfl⟩ := List.forall₂_cons_left_iff.mp hrs
    obtain ⟨found', hfound', hlike⟩ := h.found_copy hr hfound
    obtain ⟨out₁, hbelow, hout₁⟩ := ihc hlike.children
    obtain ⟨⟨_, waiting'⟩, rfl, rfl, hwaiting⟩ := hout₁.of_ok
    obtain ⟨out', hbeside, hout⟩ := ihr hrest
    obtain rfl := hout.of_error
    exact ⟨_, .failsBeside hfound' (hlike.machine ▸ hbelow) hbeside, rfl⟩
  | @cons m m₁ m' r rest waiting later found hfound _ _ ihc ihr =>
    obtain ⟨r', rest', hr, hrest, rfl⟩ := List.forall₂_cons_left_iff.mp hrs
    obtain ⟨found', hfound', hlike⟩ := h.found_copy hr hfound
    obtain ⟨out₁, hbelow, hout₁⟩ := ihc hlike.children
    obtain ⟨⟨_, waiting'⟩, rfl, rfl, hwaiting⟩ := hout₁.of_ok
    obtain ⟨out₂, hbeside, hout₂⟩ := ihr hrest
    obtain ⟨⟨_, later'⟩, rfl, rfl, hlater⟩ := hout₂.of_ok
    exact ⟨_, .cons hfound' (hlike.machine ▸ hbelow) hbeside, rfl,
      List.rel_append (List.rel_append hlike.referenced hwaiting) hlater⟩

theorem ReadsAll.copy (h : Record.Copying g g' copied) {rs : List Record} {out : Except Fault Machine}
    (hreads : ReadsAll g m rs out) {rs' : List Record} (hrs : List.Forall₂ copied rs rs') :
    ReadsAll g' m rs' out := by
  -- on the reading of the originals, record by record
  induction hreads generalizing rs' with
  | nil =>
    cases hrs
    exact .nil
  | @fails m r rest e hfirst =>
    obtain ⟨r', rest', hr, hrest, rfl⟩ := List.forall₂_cons_left_iff.mp hrs
    obtain ⟨out', hfirst', hout⟩ := hfirst.copy h (.cons hr .nil)
    obtain rfl := hout.of_error
    exact .fails hfirst'
  | @cons m m₁ r rest waiting out hfirst _ ih =>
    obtain ⟨r', rest', hr, hrest, rfl⟩ := List.forall₂_cons_left_iff.mp hrs
    obtain ⟨out', hfirst', hout⟩ := hfirst.copy h (.cons hr .nil)
    obtain ⟨⟨_, waiting'⟩, rfl, rfl, hwaiting⟩ := hout.of_ok
    exact .cons hfirst' (ih (List.rel_append hrest hwaiting))

/-- **Trees that read alike have the same machine.** -/
theorem ofTree_copying {among : Record → Prop} {root root' : Record} (h : Record.Orderly g among)
    (hcopying : Record.Copying g g' copied) (hroot : among root) (hcopied : copied root root') :
    (ofTree g' root').result = (ofTree g root).result := by
  have hreads := ofTree_reads h hroot
  have hreads' := ofTree_reads (h.copy hcopying) ⟨root, hroot, hcopied⟩
  exact hreads'.unique (hreads.copy hcopying (.cons hcopied .nil))

end Machine

end HomeAutomaton
