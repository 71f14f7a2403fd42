import HomeAutomaton.Proofs.NormalForm
import HomeAutomaton.Proofs.RuleOrder
import HomeAutomaton.Proofs.Sameness

/-!
# What is looked up in a machine

Compiling looks up the node at a path, the states, the transitions out of a source, the node that stands
for the machine and the transition that says where it starts. Machines in which all this is found alike are
compiled to the same document, whatever else their nodes and transitions are.

* `Machine.markInitial_eq_ok` says what becomes of a machine when start markers are taken into account.
* `Machine.SameLookups` relates machines before that, and `Machine.SameLookups.markInitial` says that they
  mirror each other afterwards.
* `Model.output_of_sameLookups` is about models.
-/

namespace HomeAutomaton

/-! ### Start markers -/

namespace Node

/-- Is the path that of a start marker among the nodes? -/
def isMarked (nodes : List Node) : Data → Bool
  | .null => false
  | path => nodes.any fun n => n.kind == .initial && n.path.same path

/-- A path that is not null is compared with those of the start markers. -/
theorem isMarked_of_ne {path : Data} (h : path ≠ .null) (nodes : List Node) :
    isMarked nodes path = nodes.any fun n => n.kind == .initial && n.path.same path := by
  cases path with
  | null => exact absurd rfl h
  | _ => rfl

end Node

/-- Is the transition an initial one, by its type or because it leaves a start marker? -/
def Transition.isInitial (nodes : List Node) (t : Transition) : Bool :=
  t.kind == .initial || Node.isMarked nodes t.src

/-- A computation that does the same to every item gives what is done to each. -/
theorem mapM_eq_ok_iff {α β : Type} {f : α → Except Fault β} {p : α → Prop} {g : α → β}
    (h : ∀ a b, f a = .ok b ↔ p a ∧ g a = b) (as : List α) (bs : List β) :
    as.mapM f = .ok bs ↔ (∀ a ∈ as, p a) ∧ as.map g = bs := by
  -- along the items; a fault at one of them is a fault of all
  induction as generalizing bs with
  | nil => simp [pure, Except.pure]
  | cons a as ih =>
    rw [List.mapM_cons, List.forall_mem_cons, List.map_cons]
    simp only [bind_eq_ok, h, ih]
    constructor
    · rintro ⟨_, ⟨ha, rfl⟩, _, ⟨has, rfl⟩, heq⟩
      exact ⟨⟨ha, has⟩, Except.ok.inj heq⟩
    · rintro ⟨⟨ha, has⟩, rfl⟩
      exact ⟨_, ⟨ha, rfl⟩, _, ⟨has, rfl⟩, rfl⟩

namespace Machine

variable {m m' : Machine}

/-- The transition as it is when start markers are taken into account. -/
def marked (m : Machine) (t : Transition) : Transition :=
  match m.find? t.src with
  | some source => if source.kind = .initial then { t with kind := .initial } else t
  | none => t

/-- Marking changes kinds of transitions alone, and fails only for a source that cannot be looked up. -/
theorem markInitial_eq_ok : m.markInitial = .ok m' ↔
    (∀ t ∈ m.transitions, t.src.isKey = true) ∧
      { m with transitions := m.transitions.map m.marked } = m' := by
  -- one transition: its source is looked up, and its kind changes if a start marker is found
  have hone : ∀ t t' : Transition, (do
      match ← m.node? t.src with
      | some source => .ok (if source.kind = .initial then { t with kind := .initial } else t)
      | none => .ok t : Except Fault Transition) = .ok t' ↔
        t.src.isKey = true ∧ m.marked t = t' := by
    intro t t'
    rw [node?, marked]
    cases t.src.isKey with
    | false => simp [bind, Except.bind]
    | true => cases m.find? t.src <;> simp
  rw [markInitial, bind_eq_ok]
  constructor
  · rintro ⟨ts, hts, heq⟩
    obtain ⟨hkeys, rfl⟩ := (mapM_eq_ok_iff hone _ _).mp hts
    exact ⟨hkeys, Except.ok.inj heq⟩
  · rintro ⟨hkeys, rfl⟩
    exact ⟨_, (mapM_eq_ok_iff hone _ _).mpr ⟨hkeys, rfl⟩, rfl⟩

@[simp] theorem marked_src (m : Machine) (t : Transition) : (m.marked t).src = t.src := by
  unfold marked
  split
  next => split <;> rfl
  next => rfl

/-- The start marker that is looked for is the one that is found. -/
theorem find?_isMarked (hkeys : ∀ n ∈ m.nodes, n.path.isKey = true) {path : Data}
    (hpath : path.isKey = true) :
    (m.find? path).any (fun n => n.kind == .initial) = Node.isMarked m.nodes path := by
  unfold find?
  split
  next => rfl
  next hnull =>
    rw [Node.isMarked_of_ne hnull, Bool.eq_iff_iff, List.any_eq_true, Option.any_eq_true]
    constructor
    · rintro ⟨n, hn, hkind⟩
      refine ⟨n, List.mem_of_find?_eq_some hn, ?_⟩
      rw [hkind, List.find?_some hn, Bool.and_self]
    · rintro ⟨n, hn, hmarker⟩
      obtain ⟨hkind, hsame⟩ := Bool.and_eq_true_iff.mp hmarker
      -- another node with this path would be the same one
      obtain ⟨found, hfound⟩ : ∃ found, m.nodes.find? (fun n => n.path.same path) = some found :=
        Option.isSome_iff_exists.mp (List.find?_isSome.mpr ⟨n, hn, hsame⟩)
      have hfoundSame : found.path.same path = true := by simpa using List.find?_some hfound
      obtain rfl := m.distinct.eq_of_same hkeys hpath (List.mem_of_find?_eq_some hfound) hn hfoundSame
        hsame
      exact ⟨found, hfound, hkind⟩

/-- A transition becomes an initial one if it leaves a start marker. -/
theorem marked_kind (hkeys : ∀ n ∈ m.nodes, n.path.isKey = true) {t : Transition}
    (hsrc : t.src.isKey = true) :
    ((m.marked t).kind == .initial) = Transition.isInitial m.nodes t := by
  rw [Transition.isInitial, ← find?_isMarked hkeys hsrc, marked]
  cases m.find? t.src with
  | none => simp
  | some source =>
    by_cases hkind : source.kind = .initial
    · simp [hkind]
    · simp [hkind]

/-- Whatever is looked up in one of the machines is found alike in the other one. -/
structure SameLookups (m m' : Machine) : Prop where
  keys : ∀ n ∈ m.nodes, n.path.isKey = true
  nodes : m'.nodes.Perm m.nodes
  root? : m'.root? = m.root?
  states : m'.states = m.states
  outgoing : ∀ source, m'.transitions.filter (fun t => t.src.equal source)
    = m.transitions.filter fun t => t.src.equal source
  initial : m'.transitions.filter (Transition.isInitial m.nodes)
    = m.transitions.filter (Transition.isInitial m.nodes)

namespace SameLookups

variable (h : m.SameLookups m')
include h

/-- The node at a path is found alike. -/
theorem find? {path : Data} (hpath : path.isKey = true) : m'.find? path = m.find? path := by
  unfold Machine.find?
  split
  next => rfl
  next =>
    have hfound := map_find?_of_perm (p := fun n => n.path.same path) (f := id) h.nodes
      fun n hn n' hn' hsame hsame' => m.distinct.eq_of_same h.keys hpath hn hn' hsame hsame'
    simpa using hfound

/-- So is the fault of a path that cannot be looked up. -/
theorem node? (path : Data) : m'.node? path = m.node? path := by
  rw [Machine.node?, Machine.node?]
  split
  next hpath => rw [h.find? hpath]
  next => rfl

/-- Which transitions are initial ones. -/
theorem isInitial_nodes : Transition.isInitial m'.nodes = Transition.isInitial m.nodes := by
  funext t
  unfold Transition.isInitial Node.isMarked
  cases t.src <;> simp only [h.nodes.any_eq]

/-- Looking things up alike goes both ways. -/
theorem symm : m'.SameLookups m where
  keys := fun n hn => h.keys n (h.nodes.mem_iff.mp hn)
  nodes := h.nodes.symm
  root? := h.root?.symm
  states := h.states.symm
  outgoing := fun source => (h.outgoing source).symm
  initial := by rw [h.isInitial_nodes, h.initial]

/-- A source that cannot be looked up is that of a transition of both. -/
theorem sources (hkeys : ∀ t ∈ m.transitions, t.src.isKey = true) :
    ∀ t ∈ m'.transitions, t.src.isKey = true := by
  intro t ht
  by_contra hnot
  -- such a source is equal to itself, so the transition is found out of it
  have hself : t.src.equal t.src = true := by
    unfold Data.equal
    split
    next heq => 
      rw [heq] at hnot
      exact absurd (by simp [Data.isKey]) hnot
    next => exact Data.same_self _
  have hmem : t ∈ m'.transitions.filter fun t' => t'.src.equal t.src := List.mem_filter.mpr ⟨ht, hself⟩
  rw [h.outgoing] at hmem
  exact hnot (hkeys t (List.mem_of_mem_filter hmem))

/-- A transition is marked in both alike. -/
theorem marked_eq {t : Transition} (hsrc : t.src.isKey = true) : m'.marked t = m.marked t := by
  rw [Machine.marked, Machine.marked, h.find? hsrc]

/-- Start markers are taken into account in both alike, and then the machines mirror each other. -/
theorem markInitial {marked : Machine} (hmarked : m.markInitial = .ok marked) :
    ∃ marked', m'.markInitial = .ok marked' ∧ marked.Mirrors id marked' ∧
      marked'.root? = marked.root? ∧ marked'.initialTransition? = marked.initialTransition? := by
  obtain ⟨hsources, rfl⟩ := markInitial_eq_ok.mp hmarked
  have hsources' := h.sources hsources
  have hmap : m'.transitions.map m'.marked = m'.transitions.map m.marked :=
    List.map_congr_left fun t ht => h.marked_eq (hsources' t ht)
  refine ⟨_, markInitial_eq_ok.mpr ⟨hsources', rfl⟩, ?_, h.root?, ?_⟩
  · refine ⟨⟨fun _ => rfl, fun _ => rfl, fun _ => rfl, fun _ => rfl, fun _ => rfl, fun _ => rfl,
      fun _ => rfl⟩, h.states, h.node?, fun path kinds => ?_⟩
    -- a source stays as it is, so the order out of each is kept
    have hout : ∀ ts : List Transition, (ts.map m.marked).filter (fun t => t.src.equal path)
        = (ts.filter fun t => t.src.equal path).map m.marked := fun ts => by
      simp [List.filter_map, Function.comp_def]
    simp only [Machine.outgoing, List.map_id, hmap, Bool.and_comm (Data.equal _ _), ← List.filter_filter,
      hout, h.outgoing]
  -- initial are the transitions that were so by type or by their source, in the order they had
  · have hinitial : ∀ ts : List Transition, (∀ t ∈ ts, t.src.isKey = true) →
        (ts.map m.marked).filter (fun t => t.kind == .initial)
          = (ts.filter (Transition.isInitial m.nodes)).map m.marked := fun ts hts => by
      rw [List.filter_map]
      exact congrArg _ (List.filter_congr fun t ht => marked_kind h.keys (hts t ht))
    refine find?_of_filter_eq ?_
    simp only [hmap]
    rw [hinitial _ hsources', hinitial _ hsources, h.initial]

end SameLookups

end Machine

/-! ### Compiling -/

/-- Machines that mirror each other start in the same state, if they have the same initial transition. -/
theorem initialState?_mirrored {f : Transition → Transition} {m m' : Machine} (h : m.Mirrors f m')
    (hinitial : m'.initialTransition? = m.initialTransition?) (identifiers : Table String) :
    initialState? m' identifiers = initialState? m identifiers := by
  rw [initialState?, initialState?, hinitial]
  cases m.initialTransition? with
  | none => rfl
  | some t => simp only [h.node?]

namespace Model

variable {model model' : Model} {appearance : Appearance}

/-- The machine of a model is what was read, with a node for itself, marked. -/
theorem exists_of_machine {marked : Machine} (h : model.machine.result = .ok marked) :
    ∃ m, model.rawMachine.result = .ok m ∧ m.root?.isSome = true ∧ m.markInitial = .ok marked := by
  obtain ⟨m, hm, h⟩ := Logged.bind_eq_ok.mp h
  refine ⟨m, hm, ?_⟩
  cases hroot : m.root? with
  | none => rw [hroot] at h; cases h
  | some root =>
    rw [hroot] at h
    obtain ⟨marked', hmarked, h⟩ := Logged.bind_eq_ok.mp h
    obtain rfl : marked' = marked := Except.ok.inj h
    exact ⟨rfl, hmarked⟩

/-- There is something to read off a model if it is compiled. -/
theorem output_eq_ok {out : Table String × Document} :
    (Compiled.output <$> model.compile appearance).result = .ok out ↔
      ∃ c, (model.compile appearance).result = .ok c ∧ c.output = out := by
  rw [map_eq_pure_bind, Logged.bind_eq_ok]
  simp only [Logged.pure_result, Except.ok.injEq]

/-- What is looked up in a machine determines what the model is compiled to. -/
theorem output_of_sameLookups {m m' : Machine} (hm : model.rawMachine.result = .ok m)
    (hm' : model'.rawMachine.result = .ok m') (h : m.SameLookups m') {out : Table String × Document}
    (hout : (Compiled.output <$> model.compile appearance).result = .ok out) :
    (Compiled.output <$> model'.compile appearance).result = .ok out := by
  obtain ⟨c, hc, rfl⟩ := output_eq_ok.mp hout
  obtain ⟨hmachine, hidentifiers, root, initial, rules, options, hroot, hinitial, hrules, hoptions,
    hdocument⟩ := compile_eq_ok.mp hc
  obtain ⟨m₁, hm₁, hsome, hmarked⟩ := exists_of_machine hmachine
  obtain rfl := Except.ok.inj (hm₁.symm.trans hm)
  obtain ⟨marked', hmarked', hmirrors, hroot', htransition⟩ := h.markInitial hmarked
  -- identifiers, root, start, rules and options are those of the other machine, one by one
  refine output_eq_ok.mpr ⟨⟨marked', c.identifiers, c.document⟩, compile_eq_ok.mpr
    ⟨machine_result hm' (by rwa [h.root?]) hmarked', ?_, root, initial, rules, options, ?_, ?_, ?_, ?_,
      hdocument⟩, rfl⟩
  · rw [hmirrors.states, hidentifiers]
  · rw [hroot', hroot]
  · rw [initialState?_mirrored hmirrors htransition, hinitial]
  · rw [← hrules]
    exact congrArg Logged.result (Scope.rules_mirrored hmirrors c.identifiers)
  · rw [hmirrors.states, hoptions]

end Model

end HomeAutomaton
