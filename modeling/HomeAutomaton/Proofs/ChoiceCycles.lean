import HomeAutomaton.Proofs.Closure
import HomeAutomaton.Proofs.Reporting

/-!
# Circles of choices are reported

On every way that is gone along while a transition is resolved, the choices on that way are remembered, and
one that is met again ends the way with a report. Two ways that meet at a choice remember different choices
and both go on from there, so a choice can be met many times without a report. A report is there if and only
if there is a circle of choices to be come to (`Scope.cycle_reported_iff`).

* No false alarm, `Scope.circular_of_reported`: what was visited lies behind (`Scope.Behind`), so a choice
  that is met again leads back to itself.
* No circle is missed, `Scope.reported_of_circular`: where a circle can be come to, one of the transitions
  that are followed leads on to one, and there are only so many choices to enter.
* `Scope.descend_returns` says that transitions are resolved at all.
-/

namespace HomeAutomaton

open Relation

/-- It is reported that a choice is met again. -/
def CycleReported (log : List Diagnostic) : Prop := ∃ path place, .choiceCycle path place ∈ log

namespace CycleReported

variable {log more : List Diagnostic}

/-- It is reported in one log or in the other. -/
theorem append_iff : CycleReported (log ++ more) ↔ CycleReported log ∨ CycleReported more := by
  simp only [CycleReported, List.mem_append, exists_or]

theorem not_apart (place : Place) (text : Option String) :
    ¬ CycleReported (Fragment.apart place text).log := by
  rintro ⟨path, place', hmem⟩
  rcases Fragment.readOrRejected place text with ⟨d, hlog, hd⟩ | ⟨hlog, -⟩
  · rw [hlog, List.mem_singleton] at hmem
    subst hmem
    cases hd
  · rw [hlog] at hmem
    cases hmem

/-- Of the transitions out of a choice something else is reported. -/
theorem not_choiceReports (choice : Node) (outgoing : List Transition) :
    ¬ CycleReported (Scope.choiceReports choice outgoing) := by
  rintro ⟨path, place, hmem⟩
  rw [Scope.choiceReports, List.mem_append] at hmem
  rcases hmem with hmem | hmem
  · split at hmem
    · cases List.mem_singleton.mp hmem
    · cases hmem
  · split at hmem
    · cases List.mem_singleton.mp hmem
    · cases hmem

/-- Of several computations with results it is reported if it is of one of them. -/
theorem mapM_iff {α β : Type} {f : α → Logged β} {as : List α} {bs : List β}
    (h : (as.mapM f).result = .ok bs) :
    CycleReported (as.mapM f).log ↔ ∃ a ∈ as, CycleReported (f a).log := by
  simp only [CycleReported, Logged.mem_log_mapM h]
  constructor
  · rintro ⟨path, place, a, ha, hmem⟩
    exact ⟨a, ha, path, place, hmem⟩
  · rintro ⟨a, ha, path, place, hmem⟩
    exact ⟨path, place, a, ha, hmem⟩

end CycleReported

namespace Scope

variable {scope : Scope} {visited : List Data} {t : Transition} {choice : Node}
  {resolved : List Action}

/-! ### No false alarm -/

/-- Where it is reported that a choice is met again, a circle can be come to, if what was visited lies
behind. -/
theorem circular_of_reported (hkeys : ∀ n ∈ scope.machine.nodes, n.path.isKey = true)
    (h : (scope.descend visited t).result = .ok resolved) (hbehind : scope.Behind visited t)
    (hreported : CycleReported (scope.descend visited t).log) :
    ∃ choice, scope.ComesTo t choice ∧ scope.Circular choice := by
  -- the induction is that of `descend`, and `Behind` is handed on to the transitions that are followed
  refine descend.induct scope (fun visited t => ∀ resolved : List Action,
    (scope.descend visited t).result = .ok resolved → scope.Behind visited t →
    CycleReported (scope.descend visited t).log →
    ∃ choice, scope.ComesTo t choice ∧ scope.Circular choice) ?_ visited t resolved h hbehind hreported
  intro visited t ih resolved h hbehind hreported
  obtain ⟨own, there, log, -, harrives, -, hlog⟩ := descend_cases h
  rw [hlog, CycleReported.append_iff] at hreported
  replace hreported := hreported.resolve_left (CycleReported.not_apart _ _)
  cases harrives with
  | nowhere hfind =>
    obtain ⟨path, place, hmem⟩ := hreported
    cases List.mem_singleton.mp hmem
  | notEnterable hfind hkind =>
    obtain ⟨path, place, hmem⟩ := hreported
    cases List.mem_singleton.mp hmem
  | state hfind hstate hid hentry => exact absurd hreported (CycleReported.not_apart _ _)
  | @again choice hto hold =>
    -- the choice lies behind itself
    have hround : TransGen scope.Follows choice choice := hbehind choice hto.mem hold choice hto
    exact ⟨choice, hto, choice, .refl, hround⟩
  | @choice choice as hnode hkind hnew harms =>
    have hto := ComesTo.of_node? hnode hkind
    rw [CycleReported.append_iff, CycleReported.mapM_iff harms] at hreported
    obtain ⟨b, hb, hreported⟩ := hreported.resolve_left (CycleReported.not_choiceReports _ _)
    obtain ⟨resolved', -, hresolved⟩ := (Logged.mapM_mem harms).2 b hb
    obtain ⟨next, hnext, hcircle⟩ :=
      ih choice hnode hkind hnew b resolved' hresolved (hbehind.arm hkeys hto hb) hreported
    exact ⟨choice, hto, .of_follows (hto.follows hb hnext) hcircle⟩

/-! ### No circle is missed -/

/-- Where a circle can be come to, it is reported that a choice is met again. -/
theorem reported_of_circular (h : (scope.descend visited t).result = .ok resolved)
    (hto : scope.ComesTo t choice) (hcircle : scope.Circular choice) :
    CycleReported (scope.descend visited t).log := by
  -- the induction is that of `descend`: on the way to the circle, and round it, choices are used up
  refine descend.induct scope (fun visited t => ∀ (resolved : List Action) (choice : Node),
    (scope.descend visited t).result = .ok resolved → scope.ComesTo t choice →
    scope.Circular choice → CycleReported (scope.descend visited t).log) ?_ visited t resolved choice h
    hto hcircle
  intro visited t ih resolved choice h hto hcircle
  obtain ⟨own, there, log, -, harrives, -, hlog⟩ := descend_cases h
  rw [hlog, CycleReported.append_iff]
  -- the report comes from where the transition leads, not from its own fragment
  right
  rcases harrives.of_comesTo hto with rfl | ⟨hnode, hnew, as, harms, rfl⟩
  · exact ⟨choice.path, placeOf t, List.mem_cons_self⟩
  · -- one of the transitions that are followed leads on to the circle, or on round it
    obtain ⟨next, ⟨-, b, hb, hnext⟩, hround⟩ := hcircle.exists_follows
    obtain ⟨resolved', -, hresolved⟩ := (Logged.mapM_mem harms).2 b hb
    rw [CycleReported.append_iff, CycleReported.mapM_iff harms]
    exact .inr ⟨b, hb, ih choice hnode hto.kind hnew b resolved' next hresolved hnext hround⟩

/-! ### Results -/

/-- A transition that has a title, whose destination can be looked up and whose fragment can be read is
resolved, whether it is one of the machine or not. -/
theorem descend_returns {options : List String} (h : scope.Ready options)
    (htitle : t.requireTitle = .ok ()) (hdst : t.dst.isKey = true) (haction : Fragment.Readable (t.attr? "Action")) :
    ∃ resolved, (scope.descend visited t).result = .ok resolved := by
  have hends : (scope.descend visited t).Ends (Fault.Breaks True) fun actions =>
      True → EntersOnly options actions :=
    descend_ends_of_arms (fun _ => h) (fun _ => htitle) (fun _ => hdst) (fun _ => haction) fun _ _ _ _ b hb =>
      descend_ends (fun _ => h) _ b hb
  obtain ⟨resolved, hresolved, -⟩ := Ends.returns hends trivial
  exact ⟨resolved, hresolved⟩

/-- **Circles of choices are reported, and nothing else is.** Where titles can be put into words, fragments
can be read and states have identifiers, a transition is resolved, and it is reported that a choice is met
again if and only if the transition leads to a choice from which one can be come to that leads back to
itself. -/
theorem cycle_reported_iff (scope : Scope) (hformed : scope.machine.WellFormed)
    (htitled : scope.machine.Titled) (hreadable : scope.machine.Readable)
    (hidentified : ∀ s ∈ scope.machine.states, ∃ stateId, scope.identifiers.get? s.path = some stateId)
    {t : Transition} (htitle : t.requireTitle = .ok ()) (hdst : t.dst.IsTextOrNull)
    (haction : Fragment.Readable (t.attr? "Action")) :
    (∃ actions, (scope.resolve t).result = .ok actions) ∧
      ((∃ path place, .choiceCycle path place ∈ (scope.resolve t).log) ↔
        ∃ choice, scope.ComesTo t choice ∧
          ∃ c, ReflTransGen scope.Follows choice c ∧ TransGen scope.Follows c c) := by
  have hkeys : ∀ n ∈ scope.machine.nodes, n.path.isKey = true :=
    fun n hn => (hformed.paths n hn).isTextOrNull.isKey
  -- all that is demanded of the machine makes it ready, so the transition is resolved
  have hready : scope.Ready (scope.machine.states.filterMap fun s => scope.identifiers.get? s.path) := by
    refine hformed.ready_of htitled hreadable fun s hs => ?_
    obtain ⟨stateId, hget⟩ := hidentified s hs
    exact ⟨stateId, by rw [identifierAt, hget], List.mem_filterMap.mpr ⟨s, hs, hget⟩⟩
  rw [resolve_eq]
  obtain ⟨actions, hactions⟩ := descend_returns hready htitle hdst.isKey haction
  refine ⟨⟨actions, hactions⟩, fun hreported => ?_, ?_⟩
  · exact circular_of_reported hkeys hactions (.nil t) hreported
  · rintro ⟨choice, hto, hcircle⟩
    exact reported_of_circular hactions hto hcircle

/-! ### A door -/

/-- Has somebody knocked? -/
def knockChoice : Node := { kind := .choice, path := .str "/knock" }

/-- Is the door closed? -/
def closedChoice : Node := { kind := .choice, path := .str "/closed" }

/-- Is somebody there? -/
def thereChoice : Node := { kind := .choice, path := .str "/there" }

/-- Somebody is at the door. -/
def knock : Transition := { kind := .external, src := .str "/shut", dst := .str "/knock" }

/-- While the door is closed it is asked whether somebody is there. -/
def closedArm : Transition where
  kind := .external
  src := .str "/closed"
  dst := .str "/there"
  attributes := [(.str "Guard", .str "[closed]")]

/-- It is asked again whether the door is closed. -/
def thereArm : Transition := { kind := .external, src := .str "/there", dst := .str "/closed" }

/-- A door. As long as it is closed, two choices lead to each other. -/
def doorScope : Scope where
  machine :=
    { nodes := [{ kind := .stateMachine, path := .str "/door", name := "Door" },
        { kind := .state, path := .str "/shut" }, knockChoice, closedChoice, thereChoice]
      distinct := by simp [DistinctPaths, knockChoice, closedChoice, thereChoice]
      transitions := [knock, { kind := .external, src := .str "/knock", dst := .str "/closed" },
        closedArm, { kind := .external, src := .str "/closed", dst := .str "/shut" }, thereArm] }
  identifiers := [(.str "/shut", "shut")]

/-- The machine of the door is well-formed. -/
theorem doorScope_wellFormed : doorScope.machine.WellFormed where
  paths := by simp [doorScope, knockChoice, closedChoice, thereChoice]
  sources := by simp [doorScope, knock, closedArm, thereArm, Data.IsTextOrNull]
  destinations := by simp [doorScope, knock, closedArm, thereArm, Data.IsTextOrNull]
  eventNames := by simp [doorScope, knock, closedArm, thereArm, Data.IsTextOrNull]

theorem doorScope_titled : doorScope.machine.Titled := doorScope_wellFormed.titled (by decide)

/-- There are no fragments in the machine of the door. -/
theorem doorScope_readable : doorScope.machine.Readable := .of_forall (by decide) (by decide)

/-- A knock leads to a choice that is on no circle, and on to two that lead to each other. -/
theorem cycle_reported_knock : doorScope.machine.WellFormed ∧ doorScope.machine.Titled ∧
    doorScope.machine.Readable ∧
    (∀ s ∈ doorScope.machine.states, ∃ stateId, doorScope.identifiers.get? s.path = some stateId) ∧
    knock.requireTitle = .ok () ∧ knock.dst.IsTextOrNull ∧ Fragment.Readable (knock.attr? "Action") ∧
    (∃ actions, (doorScope.resolve knock).result = .ok actions) ∧
    ∃ path place, .choiceCycle path place ∈ (doorScope.resolve knock).log := by
  have hidentified : ∀ s ∈ doorScope.machine.states,
      ∃ stateId, doorScope.identifiers.get? s.path = some stateId := by
    intro s hs
    exact Option.isSome_iff_exists.mp ((by decide : ∀ s ∈ doorScope.machine.states,
      (doorScope.identifiers.get? s.path).isSome = true) s hs)
  have haction : Fragment.Readable (knock.attr? "Action") := ⟨_, rfl⟩
  have hdst : knock.dst.IsTextOrNull := .inr ⟨_, rfl⟩
  have htitle : knock.requireTitle = .ok () := doorScope_titled knock List.mem_cons_self
  obtain ⟨hresolved, hiff⟩ := cycle_reported_iff doorScope doorScope_wellFormed doorScope_titled
    doorScope_readable hidentified htitle hdst haction
  refine ⟨doorScope_wellFormed, doorScope_titled, doorScope_readable, hidentified, htitle, hdst, haction,
    hresolved, ?_⟩
  -- the knock leads on to two choices that lead to each other
  have hclosed : doorScope.Follows knockChoice closedChoice :=
    ⟨rfl, _, List.mem_cons_self, rfl, rfl⟩
  have hthere : doorScope.Follows closedChoice thereChoice :=
    ⟨rfl, closedArm, List.mem_cons_self, rfl, rfl⟩
  have hback : doorScope.Follows thereChoice closedChoice :=
    ⟨rfl, thereArm, List.mem_cons_self, rfl, rfl⟩
  exact hiff.mpr ⟨knockChoice, ⟨rfl, rfl⟩, closedChoice, .single hclosed, .tail (.single hthere) hback⟩

end Scope

end HomeAutomaton
