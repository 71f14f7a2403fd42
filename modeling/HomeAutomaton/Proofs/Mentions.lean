import HomeAutomaton.Proofs.RuleEntries

/-!
# Which transitions diagnostics name

Many diagnostics name a transition: one with a fragment that cannot be used, one that leads nowhere, the
default of a choice, the one that says where the machine starts. Transitions are looked at in three ways only.
The states are gone through with what leads out of each of them, choices are followed from there, and the
initial transition is looked for. So a transition that leads out of no state and no choice is never named,
unless it is an initial one (`Model.compile_names`).

* `Diagnostic.title?` is the name of the transition in a diagnostic.
* `Logged.Reports` says something of all that a computation reports; it is put together step by step, whether
  there is a result or not.
* `Machine.Names` is what is shown of all diagnostics, along the recursion of `Scope.descend`.
-/

namespace HomeAutomaton

variable {α β : Type}

/-! ### What is reported -/

/-- The transition that has the place. -/
def Place.title? : Place → Option Data
  | transition title => some title
  | _ => none

/-- The transition that is named in the diagnostic. -/
def Diagnostic.title? : Diagnostic → Option Data
  | fragmentNotText place _ => place.bind Place.title?
  | fragmentMalformed place _ => place.bind Place.title?
  | fragmentNotActions place _ _ => place.bind Place.title?
  | destinationMissing _ place => place.title?
  | choiceCycle _ place => place.title?
  | notEnterable _ _ place => place.title?
  | severalDefaults _ _ first => some first
  | initialNotState title => some title
  | _ => none

/-- The diagnostic names no transition. -/
def Diagnostic.Nameless (d : Diagnostic) : Prop := d.title? = none

namespace Logged

/-- All that is reported has the property, whether there is a result or not. -/
def Reports (P : Diagnostic → Prop) (x : Logged α) : Prop := ∀ d ∈ x.log, P d

namespace Reports

variable {P Q : Diagnostic → Prop} {x : Logged α} {f : α → Logged β}

theorem pure (a : α) : Reports P (Pure.pure a) := fun _ hd => absurd hd List.not_mem_nil

theorem fail (e : Fault) : Reports P (Logged.fail e : Logged α) := fun _ hd => absurd hd List.not_mem_nil

theorem lift (x : Except Fault α) : Reports P (liftM x : Logged α) :=
  fun _ hd => absurd hd List.not_mem_nil

theorem report {d : Diagnostic} (h : P d) : Reports P (Logged.report d) := by
  intro e he
  rw [List.mem_singleton.mp he]
  exact h

/-- A report, and what comes after it. -/
theorem report_bind {d : Diagnostic} {y : Unit → Logged α} (h : P d) (hy : Reports P (y ())) :
    Reports P (Logged.report d >>= y) :=
  List.forall_mem_cons.mpr ⟨h, hy⟩

theorem mono (h : Reports P x) (himp : ∀ d, P d → Q d) : Reports Q x := fun d hd => himp d (h d hd)

/-- **A step and what comes after it.** The second one is asked about only with results that the first one can
have. -/
theorem bind (h : Reports P x) (hf : ∀ a, x.result = .ok a → Reports P (f a)) : Reports P (x >>= f) := by
  -- after a fault nothing else is done, so what was reported is all
  cases hx : x.result with
  | ok a =>
    rw [bind_of_ok hx]
    intro d hd
    exact (List.mem_append.mp hd).elim (h d) (hf a hx d)
  | error e =>
    rw [bind_of_error hx]
    exact h

/-- A computation for each item of a list. -/
theorem mapM {as : List α} (h : ∀ a ∈ as, Reports P (f a)) : Reports P (as.mapM f) := by
  induction as with
  | nil => exact .pure []
  | cons a as ih =>
    rw [List.mapM_cons]
    apply (h a List.mem_cons_self).bind
    intro b _
    apply (ih fun a ha => h a (List.mem_cons_of_mem _ ha)).bind
    intro bs _
    exact .pure _

end Reports

end Logged

/-- A fragment is reported with its place. -/
theorem Fragment.read_reports (place : Place) (fragment : Data) :
    (read (some place) fragment).Reports fun d => d.title? = place.title? := by
  -- in all branches with a report it names the place and ends without actions
  have hreport : ∀ d : Diagnostic, d.title? = place.title? →
      (do Logged.report d; pure {} : Logged Actions).Reports fun d => d.title? = place.title? :=
    fun d hd => .report_bind hd (.pure _)
  unfold read
  split
  next => exact .pure _
  next text =>
    unfold ofText
    split
    next => exact .pure _
    next =>
      split
      next m _ =>
        unfold ofModel
        split
        next => exact .pure _
        next => exact .pure _
        next => exact .pure _
        next => exact hreport _ rfl
      next => exact hreport _ rfl
      next => exact .fail _
  next => exact hreport _ rfl

/-- A fragment that is read is reported with its place. -/
theorem Fragment.listed_reports (place : Place) (text : Option String) :
    (listed place text).Reports fun d => d.title? = place.title? :=
  (read_reports place _).bind fun _ _ => .pure _

theorem Fragment.apart_reports (place : Place) (text : Option String) :
    (apart place text).Reports fun d => d.title? = place.title? :=
  (read_reports place _).bind fun _ _ => .pure _

/-! ### Transitions that are looked at -/

namespace Machine

variable {m : Machine}

/-- The transition leads out of a state or a choice. -/
def Owned (m : Machine) (t : Transition) : Prop :=
  ∃ n, m.find? t.src = some n ∧ (n.isState = true ∨ n.kind = .choice)

/-- The transition that is named, if there is one, is an initial one or leads out of a state or a choice. -/
def Names (m : Machine) (d : Diagnostic) : Prop :=
  ∀ title, d.title? = some title →
    ∃ t ∈ m.transitions, t.title = title ∧ (t.kind = .initial ∨ m.Owned t)

/-- A report that names no transition says nothing wrong about any. -/
theorem names_of_nameless {d : Diagnostic} (h : d.Nameless) : m.Names d := by
  intro title htitle
  rw [show d.title? = none from h] at htitle
  cases htitle

/-- A report on a transition that is looked at names that one. -/
theorem names_of_title {d : Diagnostic} {t : Transition} (ht : t ∈ m.transitions)
    (hlooked : t.kind = .initial ∨ m.Owned t) (h : d.title? = some t.title) : m.Names d := by
  intro title htitle
  obtain rfl := Option.some.inj (h.symm.trans htitle)
  exact ⟨t, ht, rfl, hlooked⟩

/-- What leads out of a node at its path is found there. -/
theorem WellFormed.find?_of_mem_outgoing (h : m.WellFormed) {n : Node} (hn : n ∈ m.nodes)
    {kinds : Option (List TransitionKind)} {t : Transition} (ht : t ∈ m.outgoing n.path kinds) :
    m.find? t.src = some n := by
  obtain ⟨hmem, hleaves⟩ := List.mem_filter.mp ht
  have hequal := (Bool.and_eq_true_iff.mp hleaves).1
  rw [Data.IsTextOrNull.equal_iff (h.sources t hmem) (h.paths n hn)] at hequal
  exact (Machine.find?_eq_some_iff h.paths).mpr ⟨hn, hequal.symm⟩

end Machine

namespace Scope

variable {scope : Scope}

/-- What is reported of a choice names transitions out of it. -/
theorem choiceReports_names {choice : Node} {outgoing : List Transition}
    (harms : ∀ b ∈ outgoing, b ∈ scope.machine.transitions ∧ scope.machine.Owned b) :
    ∀ d ∈ choiceReports choice outgoing, scope.machine.Names d := by
  intro d hd
  unfold choiceReports at hd
  -- one report names the choice alone, the other one the first default
  rcases List.mem_append.mp hd with hd | hd
  · split at hd
    next =>
      obtain rfl := List.mem_singleton.mp hd
      exact Machine.names_of_nameless rfl
    next => exact absurd hd List.not_mem_nil
  · split at hd
    next first _ _ hunguarded =>
      obtain rfl := List.mem_singleton.mp hd
      -- the first default is one of the unguarded ones, which are among all
      have hfirst : first ∈ outgoing := by
        apply List.mem_of_mem_filter
        rw [hunguarded]
        exact List.mem_cons_self
      obtain ⟨hmem, howned⟩ := harms first hfirst
      exact Machine.names_of_title hmem (.inr howned) rfl
    next => exact absurd hd List.not_mem_nil

/-- What is reported at the destination names transitions that are looked at, if that is so where a choice not
visited yet leads. -/
theorem arrival_names (hformed : scope.machine.WellFormed) {visited : List Data} {t : Transition}
    (ht : t ∈ scope.machine.transitions) (howned : scope.machine.Owned t)
    (ih : ∀ target, scope.machine.node? t.dst = .ok (some target) → target.kind = .choice →
      ¬ visited.any (fun path => path.same target.path) = true →
      ∀ b ∈ scope.machine.transitions, scope.machine.Owned b →
        (scope.descend (target.path :: visited) b).Reports scope.machine.Names) :
    (scope.arrival visited t).Reports scope.machine.Names := by
  have hreport : ∀ d : Diagnostic, d.title? = some t.title →
      (do Logged.report d; pure [] : Logged (List Action)).Reports scope.machine.Names :=
    fun d hd => .report_bind (Machine.names_of_title ht (.inr howned) hd) (.pure _)
  -- what is entered is a state, and its fragment is reported with the place of a state
  have hentering : ∀ target : Node, (do
      let stateId ← (identifierAt scope.identifiers target.path : Except Fault String)
      let entry ← Fragment.apart (.entryOf target.path) (target.attr? "Entry")
      pure (.setState stateId :: entry.map .given) : Logged (List Action)).Reports
        scope.machine.Names := by
    intro target
    refine (Logged.Reports.lift _).bind fun stateId _ => ?_
    have hentry : (Fragment.apart (.entryOf target.path) (target.attr? "Entry")).Reports
        scope.machine.Names := (Fragment.apart_reports _ _).mono fun _ hd => Machine.names_of_nameless hd
    exact hentry.bind fun entry _ => .pure _
  refine (Logged.Reports.lift _).bind fun found hnode => ?_
  -- a missing destination, a state, a choice, or what cannot be entered
  cases found with
  | none => exact hreport _ rfl
  | some target =>
    dsimp only
    split
    next => exact hentering target
    next => exact hentering target
    next hkind =>
      split
      next => exact hreport _ rfl
      next hnew =>
        -- what leads out of the choice is owned by it, so that the hypothesis can be used
        have harm : ∀ b ∈ scope.machine.outgoing target.path (some [.external]),
            b ∈ scope.machine.transitions ∧ scope.machine.Owned b := by
          intro b hb
          exact ⟨Machine.mem_of_mem_outgoing hb, target,
            hformed.find?_of_mem_outgoing (Machine.mem_of_node? hnode) hb, .inr hkind⟩
        have hdescend : ∀ b ∈ scope.machine.outgoing target.path (some [.external]),
            (scope.descend (target.path :: visited) b).Reports scope.machine.Names :=
          fun b hb => ih target hnode hkind hnew b (harm b hb).1 (harm b hb).2
        have hchoice : (Logged.reports (choiceReports target
            (scope.machine.outgoing target.path (some [.external])))).Reports scope.machine.Names :=
          choiceReports_names harm
        -- naming the first default reports nothing
        refine (Logged.Reports.lift _).bind fun _ _ => hchoice.bind fun _ _ => ?_
        refine (Logged.Reports.mapM fun b hb => ?_).bind fun options _ => ?_
        · exact (hdescend b (List.mem_of_mem_filter hb)).bind fun _ _ => .pure _
        cases hfirst : (scope.machine.outgoing target.path (some [.external])).find?
            fun b => (b.attr? "Guard").isNone with
        | none => exact .pure _
        | some b =>
          rw [Option.mapM_some, map_eq_pure_bind, Logged.bind_assoc]
          apply (hdescend b (List.mem_of_find?_eq_some hfirst)).bind
          intro actions _
          exact .pure _
    next => exact hreport _ rfl
    next => exact hreport _ rfl

/-- What is reported of a transition that leads out of a state or a choice names such transitions. -/
theorem descend_names (hformed : scope.machine.WellFormed) (visited : List Data) (t : Transition)
    (ht : t ∈ scope.machine.transitions) (howned : scope.machine.Owned t) :
    (scope.descend visited t).Reports scope.machine.Names := by
  -- what leads out of a choice is owned by the choice, so the hypothesis is kept
  refine descend.induct scope (fun visited t => t ∈ scope.machine.transitions → scope.machine.Owned t →
    (scope.descend visited t).Reports scope.machine.Names) (fun visited t ih ht howned => ?_)
    visited t ht howned
  rw [descend_eq]
  have hplace : ∀ d : Diagnostic, d.title? = (Place.transition t.title).title? → scope.machine.Names d :=
    fun d hd => Machine.names_of_title ht (.inr howned) hd
  refine (Logged.Reports.lift _).bind fun _ _ => ?_
  apply ((Fragment.apart_reports _ _).mono hplace).bind
  intro own _
  apply (arrival_names hformed ht howned ih).bind
  intro there _
  exact .pure _

/-- What is reported of a rule names the transition of the rule, or one further on. -/
theorem rule?_names (hformed : scope.machine.WellFormed) {state : Node} (hstate : state ∈ scope.machine.states)
    (stateId : String) {t : Transition} (ht : t ∈ scope.machine.outgoing state.path) :
    (scope.rule? state stateId t).Reports scope.machine.Names := by
  obtain ⟨hnode, hisState⟩ := List.mem_filter.mp hstate
  have hmem := Machine.mem_of_mem_outgoing ht
  have howned : scope.machine.Owned t := ⟨state, hformed.find?_of_mem_outgoing hnode ht, .inl hisState⟩
  -- leaving the state, then what the transition does; or the actions of one that stays inside
  have hactions : (scope.actionsFrom state t).Reports scope.machine.Names := by
    unfold actionsFrom
    split
    next =>
      have hexit : (Fragment.listed (.exitOf state.path) (state.attr? "Exit")).Reports
          scope.machine.Names := (Fragment.listed_reports _ _).mono fun _ hd => Machine.names_of_nameless hd
      refine hexit.bind fun leaving _ => ?_
      rw [resolve_eq]
      apply (descend_names hformed [] t hmem howned).bind
      intro actions _
      exact .pure _
    next =>
      -- a fragment is named by its transition, which is one of the machine
      have hplace : ∀ d : Diagnostic, d.title? = (Place.transition t.title).title? →
          scope.machine.Names d := fun d hd => Machine.names_of_title hmem (.inr howned) hd
      refine (Logged.Reports.lift _).bind fun _ _ => ?_
      apply ((Fragment.listed_reports _ _).mono hplace).bind
      intro actions _
      exact .pure _
    next => exact .pure _
  refine (Logged.Reports.lift _).bind fun event? _ => ?_
  cases event? with
  | none => exact .pure _
  | some event =>
    apply hactions.bind
    intro actions? _
    split
    next => exact .pure _
    next => exact .report_bind (Machine.names_of_nameless rfl) (.pure _)
    next => exact .pure _

/-- What is reported of all rules. -/
theorem rules_names (hformed : scope.machine.WellFormed) : scope.rules.Reports scope.machine.Names := by
  refine (Logged.Reports.mapM fun state hstate => ?_).bind fun _ _ => .pure _
  refine (Logged.Reports.lift _).bind fun stateId _ => ?_
  exact (Logged.Reports.mapM fun t ht => rule?_names hformed hstate stateId ht).bind fun _ _ => .pure _

end Scope

/-! ### Before there are rules -/

/-- Nothing that is reported of a node record names a transition. -/
theorem Record.node?_nameless (r : Record) (g : Graph) (otherwise : Data) :
    (r.node? g otherwise).Reports Diagnostic.Nameless := by
  refine (Logged.Reports.lift _).bind fun _ _ => ?_
  split
  next => exact .pure _
  next kind _ =>
    dsimp only
    split
    next => exact .report_bind rfl (.pure _)
    -- the name and the attributes are read, and nothing is reported
    next =>
      refine (Logged.Reports.lift _).bind fun _ _ => ?_
      exact (Logged.Reports.lift _).bind fun _ _ => .pure _

namespace Machine

/-- A table is read without naming transitions. -/
theorem ofTable_nameless (g : Graph) (objects : Table Value) :
    (ofTable g objects).Reports Diagnostic.Nameless := by
  -- along the records; of transitions nothing is reported at all
  have hnodes : ∀ (records : List (Data × Record)) (m : Machine),
      (addTableNodes g m records).Reports Diagnostic.Nameless := by
    intro records
    induction records with
    | nil => exact fun m => .pure m
    | cons e rest ih =>
      intro m
      unfold addTableNodes
      refine (Record.node?_nameless _ _ _).bind fun n? _ => ?_
      cases n? with
      | none => exact .report_bind rfl (ih m)
      | some n => exact (Logged.Reports.lift _).bind fun added _ => ih added.2
  exact (hnodes _ _).bind fun _ _ => .lift _

theorem ofTree_nameless (g : Graph) (root : Record) :
    (ofTree g root).Reports Diagnostic.Nameless := by
  -- one record of the walk, whether it is a transition or a node
  have hvisit : ∀ (r : Record) (w : Walk), (visit g r w).Reports Diagnostic.Nameless := by
    intro r w
    unfold visit
    split
    next => exact (Logged.Reports.lift _).bind fun _ _ => .pure _
    next =>
      have hchildren : ∀ w : Walk, (do
          let children ← r.children g
          pure { w with pending := children ++ w.pending } : Logged Walk).Reports Diagnostic.Nameless :=
        fun w => (Logged.Reports.lift _).bind fun _ _ => .pure _
      refine (Record.node?_nameless _ _ _).bind fun n? _ => ?_
      cases n? with
      | none => exact hchildren _
      | some n =>
        refine (Logged.Reports.lift _).bind fun added _ => ?_
        dsimp only
        split
        next => exact (Logged.Reports.lift _).bind fun _ _ => hchildren _
        next => exact hchildren _
  -- on the number of steps left
  have hwalk : ∀ (steps : ℕ) (w : Walk), (walk g steps w).Reports Diagnostic.Nameless := by
    intro steps
    induction steps with
    | zero => exact fun w => .pure _
    | succ steps ih =>
      intro w
      unfold walk
      split
      next => exact .pure _
      next => exact (hvisit _ _).bind fun w _ => ih w
  exact hwalk _ _

end Machine

/-- Collecting a model of either form names no transition. -/
theorem Model.rawMachine_nameless (model : Model) :
    model.rawMachine.Reports Diagnostic.Nameless := by
  unfold rawMachine
  dsimp only
  split
  next =>
    split
    next => exact Machine.ofTree_nameless _ _
    next => exact .fail _
  next =>
    split
    next => exact Machine.ofTable_nameless _ _
    next => exact .fail _

theorem Model.machine_nameless (model : Model) : model.machine.Reports Diagnostic.Nameless := by
  refine (rawMachine_nameless model).bind fun m _ => ?_
  split
  next => exact .fail _
  next =>
    refine (Logged.Reports.lift _).bind fun marked _ => ?_
    exact .report_bind rfl (.pure _)

/-- Identifiers are reported with the states that they are for. -/
theorem identifiersOf_nameless (states : List Node) :
    (identifiersOf states).Reports Diagnostic.Nameless := by
  -- along the states; the table and the identifiers taken grow, and are not reported
  have hfrom : ∀ (table : Table String) (taken : List String),
      (identifiersFrom table taken states).Reports Diagnostic.Nameless := by
    induction states with
    | nil => exact fun table _ => .pure table
    | cons state rest ih =>
      intro table taken
      have hrest : ∀ identifier, (if !state.path.isKey then Logged.fail .notKey
          else identifiersFrom (table.put state.path identifier) (identifier :: taken) rest).Reports
            Diagnostic.Nameless := by
        intro identifier
        split
        next => exact .fail _
        next => exact ih _ _
      unfold identifiersFrom
      dsimp only
      split
      next => exact .fail _
      next =>
        split
        next => exact .report_bind rfl (hrest _)
        next => exact hrest _
  exact hfrom _ _

/-! ### Compiling -/

/-- The report that the machine starts at no state names the initial transition. -/
theorem initialState?_names (m : Machine) (identifiers : Table String) :
    (initialState? m identifiers).Reports m.Names := by
  unfold initialState?
  split
  next => exact .report_bind (Machine.names_of_nameless rfl) (.pure _)
  next t hinitial =>
    rw [Machine.initialTransition?] at hinitial
    have hmem := List.mem_of_find?_eq_some hinitial
    have hfound := List.find?_some hinitial
    -- the transition is one of the machine, and an initial one
    have hkind : t.kind = .initial := eq_of_beq hfound
    have hreport : (do
        (t.makeTitle : Except Fault Unit)
        Logged.report (.initialNotState t.title)
        pure none : Logged (Option String)).Reports m.Names :=
      (Logged.Reports.lift _).bind fun _ _ =>
        .report_bind (Machine.names_of_title hmem (.inl hkind) rfl) (.pure _)
    refine (Logged.Reports.lift _).bind fun found _ => ?_
    cases found with
    | none => exact hreport
    | some target =>
      dsimp only
      split
      next => exact (Logged.Reports.lift _).bind fun _ _ => .pure _
      next => exact hreport

/-- **Which transitions are named.** Every transition that is named while a model is compiled is an initial
one, or leads out of a state or a choice. -/
theorem Model.compile_names {model : Model} {m : Machine} (appearance : Appearance)
    (hm : model.machine.result = .ok m) (hformed : m.WellFormed) :
    (model.compile appearance).Reports m.Names := by
  have hnameless : ∀ d : Diagnostic, d.Nameless → m.Names d := fun d hd => Machine.names_of_nameless hd
  -- reading the machine, its identifiers, its start, and its rules, in the order of compiling
  refine (model.machine_nameless.mono hnameless).bind fun m' hm' => ?_
  obtain rfl := Except.ok.inj (hm.symm.trans hm')
  split
  next => exact .fail _
  next root _ =>
    refine ((identifiersOf_nameless _).mono hnameless).bind fun identifiers _ => ?_
    refine (initialState?_names m identifiers).bind fun initial _ => ?_
    have hrules : (Scope.rules { machine := m, identifiers }).Reports m.Names := Scope.rules_names hformed
    refine hrules.bind fun rules _ => ?_
    exact .report_bind (hnameless _ rfl) ((Logged.Reports.lift _).bind fun options _ => .pure _)

end HomeAutomaton
