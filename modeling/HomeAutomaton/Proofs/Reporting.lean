import HomeAutomaton.Proofs.ActionRecords
import HomeAutomaton.Proofs.ChoiceGraph

/-!
# What is reported of a resolved transition

The tree of a resolved transition can be cut short: a fragment cannot be used, a destination is missing or
cannot be entered, a choice is met again or has no way out. What is left then is a shorter tree, and nothing
in it tells that it was cut. The diagnostics do: wherever something is missing in the tree, there is a
warning. So a transition that is resolved without one is complete, at every depth
(`Scope.resolve_silent`).

* `Fragment.Parses` says which actions a fragment holds, and `Fragment.readOrRejected` that these are the
  ones that are read, or else the fragment is reported.
* `Scope.ArrivesReporting` says what a transition comes to where it leads, with what is reported of it, and
  `Scope.descend_cases` that every resolved transition is of this form.
* `Scope.Complete` is what the list of one transition has to be. `Scope.complete_of_quiet` is the step, and
  `Scope.quiet_arm` hands the silence on to the transitions out of a choice.
-/

namespace HomeAutomaton

/-! ### Reports of computations -/

namespace Logged

variable {α β : Type} {f : α → Logged β} {as : List α} {bs : List β} {d : Diagnostic}

/-- What is reported by a sequence of two computations, the first of which has a result. -/
theorem log_bind {x : Logged α} {a : α} (h : x.result = .ok a) :
    (x >>= f).log = x.log ++ (f a).log := by
  rw [bind_of_ok h, after_log]

/-- If there is a result for every item, then what is reported is what is reported of the items. -/
theorem mem_log_mapM (h : (as.mapM f).result = .ok bs) :
    d ∈ (as.mapM f).log ↔ ∃ a ∈ as, d ∈ (f a).log := by
  induction as generalizing bs with
  | nil => simp
  | cons a as ih =>
    rw [List.mapM_cons] at h ⊢
    obtain ⟨b, hb, h⟩ := bind_eq_ok.mp h
    obtain ⟨rest, hrest, -⟩ := bind_eq_ok.mp h
    rw [log_bind hb, log_bind hrest, pure_log, List.append_nil, List.mem_append, ih hrest,
      List.exists_mem_cons_iff]

end Logged

/-- Nothing is reported as a warning. -/
def Quiet (log : List Diagnostic) : Prop := ∀ d ∈ log, d.level ≠ .warning

/-- Of two logs neither has a warning. -/
theorem Quiet.append_iff {log more : List Diagnostic} :
    Quiet (log ++ more) ↔ Quiet log ∧ Quiet more :=
  List.forall_mem_append

/-! ### Fragments -/

/-- The diagnostic is about a fragment at this place: it is not well formed, or it holds something else than
actions. -/
inductive Diagnostic.RejectsFragment (place : Place) : Diagnostic → Prop where
  | malformed (fragment : String) : RejectsFragment place (.fragmentMalformed (some place) fragment)
  | notActions (typeName fragment : String) :
      RejectsFragment place (.fragmentNotActions (some place) typeName fragment)

namespace Fragment

variable {text : Option String} {m : Model} {place : Place} {ds : List Data} {d : Diagnostic}

/-- The actions that a fragment holds: the items of a sequence, each written out on its own, or a mapping as
the only one. A fragment that is missing or blank holds none, and neither does one with nothing but
comments. -/
inductive Parses (text : Option String) : List Data → Prop where
  | missing (hblank : ∀ s, text = some s → Text.isBlankText s = true) : Parses text []
  | sequence {m : Model} {values : List Value} (hholds : Holds text m)
      (hvalues : m.graph.deref? m.root = some (.list values)) : Parses text (values.map m.graph.data)
  | mapping {m : Model} {entries : List (Data × Data)} (hholds : Holds text m)
      (hdata : m.data = .map entries) : Parses text [.map entries]
  | nothing {m : Model} (hholds : Holds text m) (hdata : m.data = .null) : Parses text []

/-- The fragment is rejected with one diagnostic, or else nothing is reported and all that it holds is
read. -/
def ReadOrRejected (place : Place) (text : Option String) : Prop :=
  (∃ d, (apart place text).log = [d] ∧ d.RejectsFragment place) ∨
    (apart place text).log = [] ∧ ∀ ds, (apart place text).result = .ok ds → Parses text ds

/-- A fragment that holds a value is rejected if the value is neither a sequence nor a mapping. Null is
nothing at all. -/
theorem Holds.readOrRejected (h : Holds text m) : ReadOrRejected place text := by
  obtain ⟨s, -, hread⟩ := h.read_eq
  rw [ReadOrRejected, apart, hread, ofModel]
  cases hdata : m.data with
  | list items =>
    obtain ⟨label, values, hroot, hcell, -⟩ := Model.data_eq_list hdata
    have hvalues : m.graph.deref? m.root = some (.list values) := by
      rw [hroot]
      exact hcell
    rw [hvalues]
    refine .inr ⟨rfl, fun ds hds => ?_⟩
    obtain rfl := Except.ok.inj hds
    exact .sequence h hvalues
  | map entries =>
    refine .inr ⟨rfl, fun ds hds => ?_⟩
    obtain rfl := Except.ok.inj hds
    exact .mapping h hdata
  | null =>
    refine .inr ⟨rfl, fun ds hds => ?_⟩
    obtain rfl := Except.ok.inj hds
    exact .nothing h hdata
  -- all other values are no actions
  | _ => exact .inl ⟨_, rfl, .notActions _ _⟩

/-- **A fragment is read or rejected.** -/
theorem readOrRejected (place : Place) (text : Option String) : ReadOrRejected place text := by
  cases text with
  | none =>
    refine .inr ⟨rfl, fun ds hds => ?_⟩
    obtain rfl := Except.ok.inj hds
    refine .missing fun s hnone => ?_
    cases hnone
  | some s =>
    have hattribute : ofAttribute (some s) = .str s := rfl
    -- a blank fragment is as good as none
    cases hblank : Text.isBlankText s with
    | true =>
      rw [ReadOrRejected, apart, hattribute, read, ofText, if_pos hblank]
      refine .inr ⟨rfl, fun ds hds => ?_⟩
      obtain rfl := Except.ok.inj hds
      exact .missing fun _ hs => Option.some.inj hs ▸ hblank
    | false =>
      cases hm : Model.ofYaml s with
      | ok m => exact Holds.readOrRejected ⟨s, rfl, hblank, hm⟩
      | error e =>
        rw [ReadOrRejected, apart, hattribute, read, ofText, hblank, hm]
        cases e with
        | malformed => exact .inl ⟨_, rfl, .malformed s⟩
        -- any other fault ends the computation without a report
        | _ =>
          refine .inr ⟨rfl, fun ds hds => ?_⟩
          cases hds

/-- Of a fragment of which no warning is reported all is read. -/
theorem parses_of_quiet (h : (apart place text).result = .ok ds)
    (hquiet : Quiet (apart place text).log) : Parses text ds := by
  rcases readOrRejected place text with ⟨d, hlog, hd⟩ | ⟨-, hparses⟩
  · refine absurd ?_ (hquiet d (hlog ▸ List.mem_singleton_self d))
    cases hd <;> rfl
  · exact hparses ds h

end Fragment

namespace Scope

variable {scope : Scope} {visited : List Data} {t b : Transition} {choice : Node}

/-! ### Where a transition leads -/

/-- What a transition comes to where it leads, and what is reported of it. Five things can be found there,
and at three of them there is nothing to do, which is reported. -/
inductive ArrivesReporting (scope : Scope) (visited : List Data) (t : Transition) :
    List Action → List Diagnostic → Prop where
  | nowhere (hfind : scope.machine.find? t.dst = none) :
      ArrivesReporting scope visited t [] [.destinationMissing t.dst (placeOf t)]
  | notEnterable {target : Node} (hfind : scope.machine.find? t.dst = some target)
      (hkind : target.kind = .stateMachine ∨ target.kind = .initial) :
      ArrivesReporting scope visited t [] [.notEnterable target.kind target.path (placeOf t)]
  | again {choice : Node} (hto : scope.ComesTo t choice)
      (hold : visited.any (fun path => path.same choice.path) = true) :
      ArrivesReporting scope visited t [] [.choiceCycle choice.path (placeOf t)]
  | state {target : Node} {stateId : String} {entry : List Data}
      (hfind : scope.machine.find? t.dst = some target) (hstate : target.isState = true)
      (hid : scope.identifiers.get? target.path = some stateId)
      (hentry : (Fragment.apart (.entryOf target.path) (target.attr? "Entry")).result = .ok entry) :
      ArrivesReporting scope visited t (.setState stateId :: entry.map .given)
        (Fragment.apart (.entryOf target.path) (target.attr? "Entry")).log
  | choice {choice : Node} {as : List (List Action)}
      (hnode : scope.machine.node? t.dst = .ok (some choice)) (hkind : choice.kind = .choice)
      (hnew : ¬ visited.any (fun path => path.same choice.path) = true)
      (harms : ((scope.arms choice).mapM (scope.descend (choice.path :: visited))).result = .ok as) :
      ArrivesReporting scope visited t
        [.choose (((scope.guardedArms choice).map predicateOf).zip as)
          (as.drop (scope.guardedArms choice).length).head?]
        (choiceReports choice (scope.machine.outgoing choice.path (some [.external]))
          ++ ((scope.arms choice).mapM (scope.descend (choice.path :: visited))).log)

/-- A transition that is resolved comes to this. -/
theorem arrivesReporting {there : List Action} (h : (scope.arrival visited t).result = .ok there) :
    ArrivesReporting scope visited t there (scope.arrival visited t).log := by
  -- the destination is looked up first, and what is found decides everything else
  obtain ⟨found, hnode, -⟩ := Logged.bind_eq_ok.mp h
  replace hnode : scope.machine.node? t.dst = .ok found := hnode
  have hfind := (Machine.node?_eq_ok hnode).2
  cases found with
  | none =>
    simp only [arrival, hnode, Logged.liftM_ok, Logged.bind_done] at h ⊢
    obtain rfl := Except.ok.inj h
    exact .nowhere hfind
  | some target =>
    -- the two kinds of states are entered alike
    have hentering : target.isState = true → scope.arrival visited t = (do
        let stateId ← (identifierAt scope.identifiers target.path : Except Fault String)
        let entry ← Fragment.apart (.entryOf target.path) (target.attr? "Entry")
        pure (.setState stateId :: entry.map .given)) →
        ArrivesReporting scope visited t there (scope.arrival visited t).log := by
      intro hstate heq
      rw [heq] at h ⊢
      obtain ⟨stateId, hid, h⟩ := Logged.bind_eq_ok.mp h
      obtain ⟨entry, hentry, h⟩ := Logged.bind_eq_ok.mp h
      obtain rfl := Except.ok.inj h
      rw [Logged.log_bind hid, Logged.log_bind hentry, Logged.liftM_log, Logged.pure_log,
        List.nil_append, List.append_nil]
      exact .state hfind hstate (get?_of_identifierAt hid) hentry
    cases hkind : target.kind with
    | state =>
      refine hentering (by rw [Node.isState, hkind]; rfl) ?_
      simp only [arrival, hnode, hkind, Logged.liftM_ok, Logged.bind_done]
    | endState =>
      refine hentering (by rw [Node.isState, hkind]; rfl) ?_
      simp only [arrival, hnode, hkind, Logged.liftM_ok, Logged.bind_done]
    | choice =>
      by_cases hold : visited.any (fun path => path.same target.path) = true
      · simp only [arrival, hnode, hkind, if_pos hold, Logged.liftM_ok, Logged.bind_done] at h ⊢
        obtain rfl := Except.ok.inj h
        exact .again ⟨hfind, hkind⟩ hold
      · rw [scope.arrival_of_choice hnode hkind hold] at h ⊢
        -- naming the first default reports nothing
        obtain ⟨_, hname, h⟩ := Logged.bind_eq_ok.mp h
        obtain ⟨_, hreports, h⟩ := Logged.bind_eq_ok.mp h
        obtain ⟨as, has, h⟩ := Logged.bind_eq_ok.mp h
        obtain rfl := Except.ok.inj h
        rw [Logged.log_bind hname, Logged.log_bind hreports, Logged.log_bind has, Logged.liftM_log,
          Logged.reports_log, Logged.pure_log, List.append_nil, List.nil_append]
        exact .choice hnode hkind hold has
    | stateMachine =>
      simp only [arrival, hnode, hkind, Logged.liftM_ok, Logged.bind_done] at h ⊢
      obtain rfl := Except.ok.inj h
      exact hkind ▸ .notEnterable hfind (.inl hkind)
    | initial =>
      simp only [arrival, hnode, hkind, Logged.liftM_ok, Logged.bind_done] at h ⊢
      obtain rfl := Except.ok.inj h
      exact hkind ▸ .notEnterable hfind (.inr hkind)

/-- At a choice there are two possibilities: it was visited before, or the transitions out of it are
followed. -/
theorem ArrivesReporting.of_comesTo {there : List Action} {log : List Diagnostic}
    (h : ArrivesReporting scope visited t there log) (hto : scope.ComesTo t choice) :
    log = [.choiceCycle choice.path (placeOf t)] ∨
      scope.machine.node? t.dst = .ok (some choice) ∧
        ¬ visited.any (fun path => path.same choice.path) = true ∧
        ∃ as, ((scope.arms choice).mapM (scope.descend (choice.path :: visited))).result = .ok as ∧
          log = choiceReports choice (scope.machine.outgoing choice.path (some [.external]))
            ++ ((scope.arms choice).mapM (scope.descend (choice.path :: visited))).log := by
  cases h with
  | nowhere hfind => cases hto.find.symm.trans hfind
  -- nodes of other kinds are no choices
  | notEnterable hfind hkind =>
    obtain rfl := Option.some.inj (hto.find.symm.trans hfind)
    rw [hto.kind] at hkind
    rcases hkind with hkind | hkind <;> cases hkind
  | state hfind hstate hid hentry =>
    obtain rfl := Option.some.inj (hto.find.symm.trans hfind)
    rw [Node.isState, hto.kind] at hstate
    cases hstate
  | again hto' hold =>
    obtain rfl := hto.unique hto'
    exact .inl rfl
  | choice hnode hkind hnew harms =>
    obtain rfl := hto.unique (.of_node? hnode hkind)
    exact .inr ⟨hnode, hnew, _, harms, rfl⟩

/-- What a transition is resolved into are its own actions and those where it leads, and what is reported is
put together in the same way. -/
theorem descend_cases {resolved : List Action} (h : (scope.descend visited t).result = .ok resolved) :
    ∃ own there log, (Fragment.apart (placeOf t) (t.attr? "Action")).result = .ok own ∧
      ArrivesReporting scope visited t there log ∧ resolved = own.map .given ++ there ∧
      (scope.descend visited t).log = (Fragment.apart (placeOf t) (t.attr? "Action")).log ++ log := by
  obtain ⟨own, there, hown, hthere, rfl⟩ := scope.descend_eq_ok h
  rw [scope.descend_of_ok h]
  refine ⟨own, there, _, hown, arrivesReporting hthere, rfl, ?_⟩
  rw [Logged.log_bind hown, Logged.log_bind hthere, Logged.pure_log, List.append_nil]
  rfl

/-! ### What is not cut short -/

/-- The list of a transition is complete: all actions that the fragment of the transition holds, and after
them either the change into the state that it leads to, with all that is done on entering the state, or one
decision, at the choice that it leads to, with an alternative or a default. -/
inductive Complete (scope : Scope) (t : Transition) : List Action → Prop where
  | state {own entry : List Data} {target : Node} {stateId : String}
      (hown : Fragment.Parses (t.attr? "Action") own)
      (hfind : scope.machine.find? t.dst = some target) (hstate : target.isState = true)
      (hid : scope.identifiers.get? target.path = some stateId)
      (hentry : Fragment.Parses (target.attr? "Entry") entry) :
      Complete scope t (own.map .given ++ .setState stateId :: entry.map .given)
  | decision {own : List Data} {choice : Node} {options : List (String × List Action)}
      {default? : Option (List Action)} (hown : Fragment.Parses (t.attr? "Action") own)
      (hto : scope.ComesTo t choice) (hway : options ≠ [] ∨ default? ≠ none) :
      Complete scope t (own.map .given ++ [.choose options default?])

/-- Something leads out of a choice of which no warning is reported, and it is followed. -/
theorem arms_ne_nil_of_quiet
    (hquiet : Quiet (choiceReports choice (scope.machine.outgoing choice.path (some [.external])))) :
    scope.arms choice ≠ [] := by
  have hout : scope.machine.outgoing choice.path (some [.external]) ≠ [] := by
    intro hnone
    refine hquiet (.choiceWithoutExit choice.path) ?_ rfl
    rw [choiceReports, if_pos hnone]
    exact List.mem_append_left _ List.mem_cons_self
  obtain ⟨b, hb⟩ := List.exists_mem_of_ne_nil _ hout
  cases hguard : b.attr? "Guard" with
  | some guard =>
    have hmem : b ∈ scope.guardedArms choice := List.mem_filter.mpr ⟨hb, by rw [hguard]; rfl⟩
    exact List.ne_nil_of_mem (List.mem_append_left _ hmem)
  | none =>
    -- there is a transition without a guard, and so there is a first one
    have hsome : (scope.defaultArm? choice).isSome = true :=
      List.find?_isSome.mpr ⟨b, hb, by rw [hguard]; rfl⟩
    obtain ⟨first, hfirst⟩ := Option.isSome_iff_exists.mp hsome
    exact List.ne_nil_of_mem (mem_arms_of_defaultArm? hfirst)

/-- A decision has an alternative or a default for every transition that is followed. -/
theorem decision_of_arms {as : List (List Action)} (hlength : as.length = (scope.arms choice).length)
    (harms : scope.arms choice ≠ []) :
    ((scope.guardedArms choice).map predicateOf).zip as ≠ [] ∨
      (as.drop (scope.guardedArms choice).length).head? ≠ none := by
  have hne : as ≠ [] := by
    rw [← List.length_pos_iff, hlength]
    exact List.length_pos_iff.mpr harms
  -- without guards, what is followed is the default alone
  cases hguarded : scope.guardedArms choice with
  | nil => exact .inr (by simpa using hne)
  | cons b rest =>
    obtain ⟨a, more, rfl⟩ := List.exists_cons_of_ne_nil hne
    exact .inl (by simp)

/-- **The step.** A transition that is resolved without a warning has a complete list, whatever was
visited. -/
theorem complete_of_quiet {resolved : List Action}
    (h : (scope.descend visited t).result = .ok resolved)
    (hquiet : Quiet (scope.descend visited t).log) : scope.Complete t resolved := by
  obtain ⟨own, there, log, hown, harrives, rfl, hlog⟩ := descend_cases h
  rw [hlog, Quiet.append_iff] at hquiet
  obtain ⟨hquietOwn, hquietThere⟩ := hquiet
  have hparses := Fragment.parses_of_quiet hown hquietOwn
  cases harrives with
  -- where nothing is done, that is reported
  | nowhere hfind => exact absurd rfl (hquietThere _ List.mem_cons_self)
  | notEnterable hfind hkind => exact absurd rfl (hquietThere _ List.mem_cons_self)
  | again hto hold => exact absurd rfl (hquietThere _ List.mem_cons_self)
  | state hfind hstate hid hentry =>
    exact .state hparses hfind hstate hid (Fragment.parses_of_quiet hentry hquietThere)
  -- a choice without a way out is reported too
  | choice hnode hkind hnew harms =>
    rw [Quiet.append_iff] at hquietThere
    have hways := decision_of_arms (Logged.mapM_length harms) (arms_ne_nil_of_quiet hquietThere.1)
    exact .decision hparses (.of_node? hnode hkind) hways

/-- What is resolved without a warning is so at the transitions out of the choice that it leads to. -/
theorem quiet_arm {resolved : List Action} (h : (scope.descend visited t).result = .ok resolved)
    (hquiet : Quiet (scope.descend visited t).log) (hto : scope.ComesTo t choice)
    (hb : b ∈ scope.arms choice) : Quiet (scope.descend (choice.path :: visited) b).log := by
  obtain ⟨own, there, log, hown, harrives, rfl, hlog⟩ := descend_cases h
  rw [hlog, Quiet.append_iff] at hquiet
  rcases harrives.of_comesTo hto with rfl | ⟨-, -, as, harms, rfl⟩
  · exact absurd rfl (hquiet.2 _ List.mem_cons_self)
  · intro d hd
    exact hquiet.2 d (List.mem_append_right _ ((Logged.mem_log_mapM harms).mpr ⟨b, hb, hd⟩))

/-- **Silence means completeness.** If a transition is resolved and no warning is reported, then the list of
every transition in its tree is complete, and every list in the tree, at any depth, is that of a
transition. -/
theorem resolve_silent (scope : Scope) {t : Transition} {actions : List Action}
    (hactions : (scope.resolve t).result = .ok actions)
    (hsilent : ∀ d ∈ (scope.resolve t).log, d.level ≠ .warning) :
    (∀ turns last inner, scope.Leads t actions turns last inner → scope.Complete last inner) ∧
      ∀ predicates inner, Action.Inside actions predicates inner →
        ∃ turns last, scope.Leads t actions turns last inner ∧
          turns.map (·.predicate?) = predicates ∧ scope.Complete last inner := by
  rw [resolve_eq] at hactions hsilent
  have hcomplete : ∀ turns last inner, scope.Leads t actions turns last inner →
      scope.Complete last inner := by
    intro turns last inner hleads
    -- no warning comes out of any part of the tree
    have hquiet : Quiet (scope.descend (visitedAfter [] turns) last).log :=
      handed_of_leads (P := fun visited b => Quiet (scope.descend visited b).log)
        (fun _ _ _ _ _ hquiet h hto _ hb => quiet_arm h hquiet hto hb) [] hactions hleads
        hsilent
    obtain ⟨resolved, rfl, hresolved⟩ := descend_of_leads [] hactions hleads
    rw [beforeAfter_nil]
    exact complete_of_quiet hresolved hquiet
  refine ⟨hcomplete, fun predicates inner hinside => ?_⟩
  obtain ⟨turns, last, hleads, hpredicates⟩ := exists_leads_of_inside [] hactions hinside
  exact ⟨turns, last, hleads, hpredicates, hcomplete turns last inner hleads⟩

/-- A press of the switch is resolved without a warning, and its list is complete, as is that of the bell in
it. -/
theorem resolve_silent_press :
    ∃ actions bell, (duskScope.resolve switchPress).result = .ok actions ∧
      (∀ d ∈ (duskScope.resolve switchPress).log, d.level ≠ .warning) ∧
      duskScope.Complete switchPress actions ∧
      duskScope.Leads switchPress actions [⟨homeChoice, some "home"⟩] bellArm bell ∧
      duskScope.Complete bellArm bell := by
  have hsilent : ∀ d ∈ (duskScope.resolve switchPress).log, d.level ≠ .warning := by decide +kernel
  obtain ⟨bell, quiet, hpress⟩ := resolve_switchPress
  obtain ⟨hcomplete, -⟩ := resolve_silent duskScope hpress hsilent
  -- the bell is in the first alternative
  have hleads : duskScope.Leads switchPress [.choose [("home", bell)] (some quiet)]
      [⟨homeChoice, some "home"⟩] bellArm bell :=
    .option (i := 0) rfl List.mem_cons_self rfl rfl (.here _ _)
  exact ⟨_, bell, hpress, hsilent, hcomplete _ _ _ (.here _ _), hleads, hcomplete _ _ _ hleads⟩

end Scope

end HomeAutomaton
