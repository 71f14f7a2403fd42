import HomeAutomaton.Proofs.Closure

/-!
# What is read of a transition

Compiling reads the ends, the path, the event, the guard and the action of a transition. Where the event
comes from, its own attributes or the group that it stands in, makes no difference, and neither does any
other attribute. So a transition has a normal form, with the event in one place and nothing besides, and
machines whose transitions have the same normal forms are compiled alike.

* `Transition.normal` is the normal form, `Machine.normal` that of all transitions.
* `Machine.Mirrors` relates machines that are the same to all lookups but for a change of the transitions
  found, and `Scope.rules_mirrored` says that they have the same rules. The normal form is such a change.
* `Model.compile_congr` is about models.
-/

namespace HomeAutomaton

/-! ### Transitions -/

/-- The text of an attribute is not blank. -/
theorem not_isBlankText_of_textAttribute? {attributes : Table Data} {key s : String}
    (h : textAttribute? attributes key = some s) : Text.isBlankText s = false := by
  unfold textAttribute? at h
  split at h
  next =>
    split at h
    next => cases h
    next hblank =>
      obtain rfl := Option.some.inj h
      simpa using hblank
  next => cases h

/-- A text that is not blank is read where it is kept. -/
theorem textAttribute?_of_get? {attributes : Table Data} {key : String} {text : Option String}
    (hget : attributes.get? (.str key) = some (Fragment.ofAttribute text))
    (hblank : ∀ s, text = some s → Text.isBlankText s = false) :
    textAttribute? attributes key = text := by
  rw [textAttribute?, hget]
  cases text with
  | none => rfl
  | some s => simp [Fragment.ofAttribute, hblank s rfl]

namespace Transition

/-- The name of the event, wherever it stands. A blank name is as good as none. -/
def normalEvent (t : Transition) : Data :=
  match t.attr? "Event" with
  | some event => .str event
  | none =>
    match t.eventName with
    | .str s => if Text.isBlankText s then .null else .str s
    | d => d

/-- The transition with the attributes that are read, and its event as that of a group. -/
def normal (t : Transition) : Transition :=
  { t with
    eventName := t.normalEvent
    attributes := [(.str "Action", Fragment.ofAttribute (t.attr? "Action")),
      (.str "Guard", Fragment.ofAttribute (t.attr? "Guard"))] }

variable {t : Transition}

/-- The kind is kept. -/
@[simp] theorem normal_kind : t.normal.kind = t.kind := rfl

@[simp] theorem normal_src : t.normal.src = t.src := rfl

@[simp] theorem normal_dst : t.normal.dst = t.dst := rfl

@[simp] theorem normal_title : t.normal.title = t.title := rfl

/-- The action is read of the normal form as it is read of the transition. -/
@[simp] theorem attr?_normal_action : t.normal.attr? "Action" = t.attr? "Action" :=
  textAttribute?_of_get? (by simp [normal, Table.get?]) fun _ => not_isBlankText_of_textAttribute?

@[simp] theorem attr?_normal_guard : t.normal.attr? "Guard" = t.attr? "Guard" :=
  textAttribute?_of_get? (by simp [normal, Table.get?]) fun _ => not_isBlankText_of_textAttribute?

/-- **The event is the same**, though it stands elsewhere. -/
@[simp] theorem event?_normal : t.normal.event? = t.event? := by
  -- the normal form has no event among its attributes, so that of the group is read
  have hnone : t.normal.attr? "Event" = none := by
    simp [attr?, normal, textAttribute?, Table.get?]
  rw [event?, hnone, event?]
  change groupEvent? t.normalEvent = _
  rw [normalEvent]
  -- the transition has an event of its own, or takes that of its group
  cases hevent : t.attr? "Event" with
  | some event =>
    have hblank := not_isBlankText_of_textAttribute? hevent
    simp [groupEvent?, hblank]
  | none =>
    dsimp only
    split
    next s hs =>
      rw [hs]
      -- a blank name of a group gives no event, as none at all does
      cases hblank : Text.isBlankText s <;> simp [groupEvent?, hblank, Data.isFilled]
    next => rfl

end Transition

/-! ### Machines -/

namespace Machine

/-- The machine with its transitions in normal form. How transitions are told apart does not matter
when all are collected. -/
def normal (m : Machine) : Machine :=
  { nodes := m.nodes, distinct := m.distinct, transitions := m.transitions.map Transition.normal }

variable {m : Machine}

/-- Nodes are kept. -/
@[simp] theorem normal_nodes : m.normal.nodes = m.nodes := rfl

@[simp] theorem normal_states : m.normal.states = m.states := rfl

@[simp] theorem normal_node? (path : Data) : m.normal.node? path = m.node? path := rfl

/-- Of what leads out of a node, the normal forms are found. -/
@[simp] theorem outgoing_normal (path : Data) (kinds : Option (List TransitionKind)) :
    m.normal.outgoing path kinds = (m.outgoing path kinds).map Transition.normal := by
  rw [outgoing, outgoing, normal, List.filter_map]
  rfl

/-- Of the initial transition as well. -/
@[simp] theorem initialTransition?_normal :
    m.normal.initialTransition? = m.initialTransition?.map Transition.normal := by
  rw [initialTransition?, initialTransition?, normal, List.find?_map]
  rfl

/-- Transitions are changed before or after their normal forms are taken. -/
theorem mapM_normal {f : Transition → Except Fault Transition}
    (h : ∀ t, f t.normal = Transition.normal <$> f t) (ts : List Transition) :
    (ts.map Transition.normal).mapM f = List.map Transition.normal <$> ts.mapM f := by
  induction ts with
  | nil => rfl
  | cons t ts ih =>
    rw [List.map_cons, List.mapM_cons, List.mapM_cons, h, ih]
    cases f t with
    | error e => rfl
    | ok t' => cases ts.mapM f <;> rfl

/-- Start markers are taken into account before or after. -/
theorem markInitial_normal : m.normal.markInitial = normal <$> m.markInitial := by
  rw [markInitial, markInitial]
  change List.mapM _ (m.transitions.map Transition.normal) >>= _ = _
  -- the change asks for the source of a transition, which the normal form keeps
  rw [mapM_normal, map_eq_pure_bind, map_eq_pure_bind, bind_assoc, bind_assoc]
  · rfl
  · intro t
    simp only [normal_node?, Transition.normal_src]
    cases m.node? t.src with
    | error e => rfl
    | ok source? =>
      cases source? with
      | none => rfl
      | some source =>
        simp only [ok_bind]
        split <;> rfl

end Machine

/-! ### Rules -/

/-- The change leaves alone what compiling reads of a transition that it has found. -/
structure Transition.Faithful (f : Transition → Transition) : Prop where
  kind : ∀ t, (f t).kind = t.kind
  dst : ∀ t, (f t).dst = t.dst
  title : ∀ t, (f t).title = t.title
  makeTitle : ∀ t, (f t).makeTitle = t.makeTitle
  event? : ∀ t, (f t).event? = t.event?
  action : ∀ t, (f t).attr? "Action" = t.attr? "Action"
  guard : ∀ t, (f t).attr? "Guard" = t.attr? "Guard"

/-- The normal form is such a change. -/
theorem Transition.faithful_normal : Transition.Faithful normal :=
  ⟨fun _ => rfl, fun _ => rfl, fun _ => rfl, fun _ => rfl, fun _ => event?_normal, fun _ => attr?_normal_action,
    fun _ => attr?_normal_guard⟩

/-- Whether a name can be made does not change. -/
theorem Transition.Faithful.requireTitle {f : Transition → Transition} (h : Transition.Faithful f)
    (t : Transition) : (f t).requireTitle = t.requireTitle := by
  rw [Transition.requireTitle, Transition.requireTitle, h.makeTitle, h.title]

/-- The other machine has the same states and finds the same nodes; where this one finds transitions, the
other one finds the changed ones. -/
structure Machine.Mirrors (f : Transition → Transition) (m m' : Machine) : Prop where
  faithful : Transition.Faithful f
  states : m'.states = m.states
  node? : ∀ path, m'.node? path = m.node? path
  outgoing : ∀ path kinds, m'.outgoing path kinds = (m.outgoing path kinds).map f

/-- A machine is mirrored by its normal form. -/
theorem Machine.mirrors_normal (m : Machine) : m.Mirrors Transition.normal m.normal :=
  ⟨Transition.faithful_normal, rfl, fun _ => rfl, fun path kinds => outgoing_normal path kinds⟩

namespace Scope

variable {f : Transition → Transition} {m m' : Machine} {identifiers : Table String}

/-- The transitions without a guard are those that were without one. -/
theorem filter_unguarded_map (hf : Transition.Faithful f) (ts : List Transition) :
    (ts.map f).filter (fun b => (b.attr? "Guard").isNone)
      = (ts.filter fun b => (b.attr? "Guard").isNone).map f := by
  simp [List.filter_map, Function.comp_def, hf.guard]

/-- The first default of a choice is named as before. -/
theorem nameDefault_map (hf : Transition.Faithful f) (ts : List Transition) :
    nameDefault (ts.map f) = nameDefault ts := by
  rw [nameDefault, nameDefault, filter_unguarded_map hf]
  generalize ts.filter (fun b => (b.attr? "Guard").isNone) = unguarded
  rcases unguarded with _ | ⟨first, _ | ⟨second, rest⟩⟩
  · rfl
  · rfl
  · exact hf.makeTitle first

/-- What is reported of a choice names transitions alone. -/
theorem choiceReports_map (hf : Transition.Faithful f) (choice : Node) (ts : List Transition) :
    choiceReports choice (ts.map f) = choiceReports choice ts := by
  rw [choiceReports, choiceReports, filter_unguarded_map hf]
  simp only [List.map_eq_nil_iff]
  congr 1
  -- with two of them, the first is named in the report
  generalize ts.filter (fun b => (b.attr? "Guard").isNone) = unguarded
  rcases unguarded with _ | ⟨first, _ | ⟨second, rest⟩⟩
  · rfl
  · rfl
  · simp [hf.title]

/-- What happens at the destination is the same, if that is so for the choices not yet visited. -/
theorem arrival_mirrored (h : m.Mirrors f m') {visited : List Data} {t : Transition}
    (ih : ∀ target, m.node? t.dst = .ok (some target) → target.kind = .choice →
      ¬ visited.any (fun path => path.same target.path) = true → ∀ b,
        ({ machine := m', identifiers } : Scope).descend (target.path :: visited) (f b)
          = ({ machine := m, identifiers } : Scope).descend (target.path :: visited) b) :
    ({ machine := m', identifiers } : Scope).arrival visited (f t)
      = ({ machine := m, identifiers } : Scope).arrival visited t := by
  rw [arrival, arrival, h.node?, h.faithful.dst, h.faithful.title]
  refine Logged.bind_congr_ok fun n? hn => ?_
  cases n? with
  | none => rfl
  | some target =>
    dsimp only
    split
    next => rfl
    next => rfl
    next hkind =>
      split
      next => rfl
      next hnew =>
        have harm := ih target hn hkind hnew
        -- the first default, if there is one, is followed like the other ones
        have hdefault : ∀ b? : Option Transition,
            (b?.map f).mapM
                (({ machine := m', identifiers } : Scope).descend (target.path :: visited))
              = b?.mapM
                (({ machine := m, identifiers } : Scope).descend (target.path :: visited)) := by
          intro b?
          cases b? with
          | none => rfl
          | some b => simp [harm]
        -- all that is asked of the ways on is kept by the mirroring
        simp only [h.outgoing, nameDefault_map h.faithful, choiceReports_map h.faithful, List.filter_map, List.find?_map,
          Function.comp_def, h.faithful.guard, List.mapM_map, harm, hdefault]
    next => rfl
    next => rfl

/-- The actions of a transition are those of the changed one in the other machine. -/
theorem descend_mirrored (h : m.Mirrors f m') (visited : List Data) (t : Transition) :
    ({ machine := m', identifiers } : Scope).descend visited (f t)
      = ({ machine := m, identifiers } : Scope).descend visited t := by
  -- on the choices that are left to visit, as the recursion goes
  refine descend.induct { machine := m, identifiers } (fun visited t =>
    ({ machine := m', identifiers } : Scope).descend visited (f t)
      = ({ machine := m, identifiers } : Scope).descend visited t) (fun visited t ih => ?_) visited t
  rw [descend_eq, descend_eq, arrival_mirrored h ih, h.faithful.requireTitle, h.faithful.title,
    h.faithful.action]

/-- The actions of a transition out of a state are kept. -/
theorem actionsFrom_mirrored (h : m.Mirrors f m') (state : Node) (t : Transition) :
    ({ machine := m', identifiers } : Scope).actionsFrom state (f t)
      = ({ machine := m, identifiers } : Scope).actionsFrom state t := by
  simp only [actionsFrom, resolve_eq, descend_mirrored h, h.faithful.kind, h.faithful.requireTitle,
    h.faithful.title, h.faithful.action]

/-- And so is its rule. -/
theorem rule?_mirrored (h : m.Mirrors f m') (state : Node) (stateId : String) (t : Transition) :
    ({ machine := m', identifiers } : Scope).rule? state stateId (f t)
      = ({ machine := m, identifiers } : Scope).rule? state stateId t := by
  simp only [rule?, actionsFrom_mirrored h, h.faithful.event?]

/-- **Machines that mirror each other have the same rules.** -/
theorem rules_mirrored (h : m.Mirrors f m') (identifiers : Table String) :
    ({ machine := m', identifiers } : Scope).rules = ({ machine := m, identifiers } : Scope).rules := by
  have hrulesOf : ∀ state, ({ machine := m', identifiers } : Scope).rulesOf state
      = ({ machine := m, identifiers } : Scope).rulesOf state := by
    intro state
    simp only [rulesOf, h.outgoing, List.mapM_map, Function.comp_def, rule?_mirrored h]
  simp only [rules, funext hrulesOf, h.states]

end Scope

/-! ### Models -/

/-- Where a machine starts is where its normal form starts. -/
theorem initialState?_normal (m : Machine) (identifiers : Table String) :
    initialState? m.normal identifiers = initialState? m identifiers := by
  rw [initialState?, initialState?, Machine.initialTransition?_normal]
  cases m.initialTransition? <;> rfl

/-- What is read off a compiled model: the identifiers of the states, and the document. -/
def Compiled.output (c : Compiled) : Table String × Document := (c.identifiers, c.document)

/-- Machines with the same normal form are the same to all that compiling asks of a machine. -/
structure Machine.Alike (m m' : Machine) : Prop where
  nodes : m.nodes = m'.nodes
  length : m.transitions.length = m'.transitions.length
  initial : ∀ identifiers, initialState? m identifiers = initialState? m' identifiers
  rules : ∀ identifiers,
    ({ machine := m, identifiers } : Scope).rules = ({ machine := m', identifiers } : Scope).rules

/-- Machines with the same normal form are so. -/
theorem Machine.alike_of_normal {m m' : Machine} (h : m.normal = m'.normal) : m.Alike m' where
  nodes := (congrArg nodes h : m.normal.nodes = m'.normal.nodes)
  length := by
    have hlength : m.normal.transitions.length = m'.normal.transitions.length := by rw [h]
    simpa [normal] using hlength
  initial := fun identifiers => by rw [← initialState?_normal m, h, initialState?_normal]
  rules := fun identifiers => by
    rw [← Scope.rules_mirrored m.mirrors_normal, h, Scope.rules_mirrored m'.mirrors_normal]

/-- **Models whose machines have the same normal form are compiled alike**, reports and faults
included. -/
theorem Model.compile_congr {model model' : Model} {m m' : Machine} (hm : model.rawMachine = pure m)
    (hm' : model'.rawMachine = pure m') (h : m.normal = m'.normal) (appearance : Appearance) :
    Compiled.output <$> model.compile appearance
      = Compiled.output <$> model'.compile appearance := by
  have hroot : ∀ {m m' : Machine}, m.nodes = m'.nodes → m.root? = m'.root? :=
    fun hnodes => congrArg (List.find? _) hnodes
  -- start markers commute with the normal form, so both fail or both give the same form
  have hmarked : Machine.normal <$> m.markInitial = Machine.normal <$> m'.markInitial := by
    rw [← Machine.markInitial_normal, h, Machine.markInitial_normal]
  simp only [compile, machine, hm, hm', Logged.bind_done, hroot (Machine.alike_of_normal h).nodes]
  split
  next => rfl
  next =>
    -- with different ends the normal forms could not be equal
    cases hl : m.markInitial with
    | error e =>
      cases hr : m'.markInitial with
      | error e' =>
        rw [hl, hr] at hmarked
        obtain rfl := Except.error.inj hmarked
        rfl
      | ok marked' => rw [hl, hr] at hmarked; cases hmarked
    | ok marked =>
      cases hr : m'.markInitial with
      | error e => rw [hl, hr] at hmarked; cases hmarked
      | ok marked' =>
        rw [hl, hr] at hmarked
        have halike := Machine.alike_of_normal (Except.ok.inj hmarked)
        have hstates : marked.states = marked'.states := by
          rw [Machine.states, Machine.states, halike.nodes]
        simp only [Logged.liftM_ok, Logged.bind_done, Logged.bind_assoc, hroot halike.nodes,
          hstates, halike.nodes, halike.length, halike.initial, halike.rules]
        -- what is left is the machine itself, which is not read off
        cases marked'.root? with
        | none => rfl
        | some root => simp only [map_bind, map_pure, Compiled.output]

end HomeAutomaton
