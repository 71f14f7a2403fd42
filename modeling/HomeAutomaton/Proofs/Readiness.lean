import HomeAutomaton.Compile
import HomeAutomaton.Proofs.Identifier
import HomeAutomaton.Proofs.Legibility
import HomeAutomaton.Proofs.Resolution

/-!
# The rules of a machine

From a machine to its rules everything is a matter of look-ups: destinations are looked up among the
nodes, states among the identifiers, and fragments are read. Where the look-ups and the fragments are in
order, every transition is resolved, and it leads into states with an identifier alone. Where they are
not, there may be a fault, but none that refuses the model with a message.

* `Action.Enters` says into which states an action may put the machine, at any depth of decisions.
* `Fragment.Readable` is about fragments, `Machine.Readable` about those of a machine.
* `Scope.Ready` gathers what a scope needs for its transitions to be resolved; `Scope.descend_ends`
  resolves them, by induction on the choices that are left to enter, and `Scope.rules_ends` makes the
  rules.
-/

namespace HomeAutomaton

/-! ### Into which states an action leads -/

/-- The action may put the machine into the state with this identifier. -/
inductive Action.Enters : Action → String → Prop where
  | here (stateId : String) : Enters (.setState stateId) stateId
  | option {options : List (String × List Action)} {default? : Option (List Action)}
      {o : String × List Action} {a : Action} {stateId : String} :
      o ∈ options → a ∈ o.2 → a.Enters stateId → Enters (.choose options default?) stateId
  | default {options : List (String × List Action)} {actions : List Action} {a : Action}
      {stateId : String} :
      a ∈ actions → a.Enters stateId → Enters (.choose options (some actions)) stateId

/-- The actions lead into these states alone. -/
def EntersOnly (options : List String) (actions : List Action) : Prop :=
  ∀ a ∈ actions, ∀ stateId, a.Enters stateId → stateId ∈ options

namespace EntersOnly

variable {options : List String} {actions more : List Action}

theorem nil : EntersOnly options [] := fun _ h => absurd h List.not_mem_nil

theorem append (h : EntersOnly options actions) (h' : EntersOnly options more) :
    EntersOnly options (actions ++ more) := by
  intro a ha
  rcases List.mem_append.mp ha with ha | ha
  · exact h a ha
  · exact h' a ha

/-- The actions of a fragment never count as changes of the state. -/
theorem given (ds : List Data) : EntersOnly options (ds.map .given) := by
  intro a ha stateId henters
  obtain ⟨d, -, rfl⟩ := List.mem_map.mp ha
  cases henters

/-- The change to a state of the options. -/
theorem setState {stateId : String} (h : stateId ∈ options) :
    EntersOnly options [.setState stateId] := by
  intro a ha other henters
  rw [List.mem_singleton.mp ha] at henters
  cases henters
  exact h

/-- A decision, with all of its alternatives and its default. -/
theorem choose {alternatives : List (String × List Action)} {default? : Option (List Action)}
    (halternatives : ∀ o ∈ alternatives, EntersOnly options o.2)
    (hdefault : ∀ actions, default? = some actions → EntersOnly options actions) :
    EntersOnly options [.choose alternatives default?] := by
  intro a ha stateId henters
  rw [List.mem_singleton.mp ha] at henters
  cases henters with
  | option ho hmem henters => exact halternatives _ ho _ hmem _ henters
  | default hmem henters => exact hdefault _ rfl _ hmem _ henters

end EntersOnly

/-! ### Look-ups -/

variable {H : Prop}

/-- Any path that is a key can be looked up. -/
theorem Machine.node?_ends {m : Machine} {path : Data} (h : H → path.isKey = true) :
    Ends (Fault.Breaks H) (m.node? path) fun n? => m.node? path = .ok n? := by
  unfold node?
  split
  next => exact .ok rfl
  next hkey => exact .error ⟨rfl, fun hH => hkey (h hH)⟩

/-- Transitions out of a start marker become initial ones, and nothing else changes. -/
theorem Machine.markInitial_ends {m : Machine} (h : H → ∀ t ∈ m.transitions, t.src.isKey = true) :
    Ends (Fault.Breaks H) m.markInitial fun marked => marked.nodes = m.nodes ∧
      ∀ t ∈ marked.transitions, ∃ kind, { t with kind } ∈ m.transitions := by
  rw [markInitial]
  refine (Ends.mapM fun t ht => ?_).bind
    fun ts (hts : ∀ t ∈ ts, ∃ kind, { t with kind } ∈ m.transitions) => .ok ⟨rfl, hts⟩
  refine (node?_ends fun hH => h hH t ht).bind fun source? _ => ?_
  cases source? with
  | none => exact .ok ⟨t.kind, ht⟩
  | some source =>
    refine .ok ⟨t.kind, ?_⟩
    split <;> exact ht

/-- States get identifiers if their paths can be written and looked up. -/
theorem identifiersFrom_ends {states : List Node} (h : H → ∀ s ∈ states, s.path.IsAddress)
    (table : Table String) (taken : List String) :
    (identifiersFrom table taken states).Ends (Fault.Breaks H) fun _ => True := by
  -- along the states; the table and the identifiers taken differ from step to step
  induction states generalizing table taken with
  | nil => exact .pure trivial
  | cons state rest ih =>
    have hfirst : H → state.path.IsAddress := fun hH => h hH state List.mem_cons_self
    rw [Logged.Ends, identifiersFrom_cons_result]
    split
    next hlong =>
      refine .error ⟨rfl, fun hH => ?_⟩
      rw [(hfirst hH).2] at hlong
      cases hlong
    next =>
      split
      next => exact ih (fun hH s hs => h hH s (List.mem_cons_of_mem _ hs)) _ _
      next hkey => exact .error ⟨rfl, fun hH => hkey (hfirst hH).1⟩

/-- The identifier of a state is found among the options. -/
theorem identifierAt_ends {identifiers : Table String} {path : Data} {options : List String}
    (h : H → Returns (identifierAt identifiers path) (· ∈ options)) :
    Ends (Fault.Breaks H) (identifierAt identifiers path) fun identifier =>
      H → identifier ∈ options := by
  refine .of_returns ?_ h
  unfold identifierAt
  split
  next => exact .ok trivial
  next => exact .error rfl

/-- Only a number that is too long keeps data from being written. -/
theorem Data.requireText_blames (d : Data) : Ends (· = .numberTooLong) d.requireText fun _ => True := by
  unfold requireText
  split
  next => exact .error rfl
  next => exact .ok trivial

/-- Only a number that is too long keeps a transition from having a title. -/
theorem Transition.makeTitle_blames (t : Transition) :
    Ends (· = .numberTooLong) t.makeTitle fun _ => True := by
  unfold makeTitle
  split
  next => exact .ok trivial
  next => exact t.src.requireText_blames.bind fun _ _ => t.dst.requireText_blames

/-- Nor does anything else keep it from being put into words. -/
theorem Transition.requireTitle_blames (t : Transition) :
    Ends (· = .numberTooLong) t.requireTitle fun _ => True :=
  t.makeTitle_blames.bind fun _ _ => t.title.requireText_blames

/-- A title that can be put into words can be made. -/
theorem Transition.makeTitle_of_requireTitle {t : Transition} (h : t.requireTitle = .ok ()) :
    t.makeTitle = .ok () := by
  obtain ⟨_, hmake, -⟩ := bind_eq_ok.mp h
  exact hmake

/-- A text that can be written where the condition holds is written there, and is too long otherwise. -/
theorem Ends.breaks_of_tooLong {x : Except Fault Unit}
    (hblame : Ends (· = Fault.numberTooLong) x fun _ => True) (h : H → x = .ok ()) :
    Ends (Fault.Breaks H) x fun _ => True := by
  cases hx : x with
  | ok _ => exact .ok trivial
  | error e =>
    obtain rfl := hblame.blame_of_error hx
    refine .error ⟨rfl, fun hH => ?_⟩
    rw [h hH] at hx
    cases hx

/-- Where titles can be put into words they are. -/
theorem Transition.requireTitle_ends {t : Transition} (h : H → t.requireTitle = .ok ()) :
    Ends (Fault.Breaks H) t.requireTitle fun _ => True :=
  t.requireTitle_blames.breaks_of_tooLong h

/-- And where they can be put into words they can be made. -/
theorem Transition.makeTitle_ends {t : Transition} (h : H → t.requireTitle = .ok ()) :
    Ends (Fault.Breaks H) t.makeTitle fun _ => True :=
  t.makeTitle_blames.breaks_of_tooLong fun hH => makeTitle_of_requireTitle (h hH)

/-- The first default of a choice can be named if all transitions have titles. -/
theorem Scope.nameDefault_ends {outgoing : List Transition}
    (h : H → ∀ t ∈ outgoing, t.requireTitle = .ok ()) :
    Ends (Fault.Breaks H) (nameDefault outgoing) fun _ => True := by
  unfold nameDefault
  split
  next first _ _ heq =>
    have hfirst : first ∈ outgoing := List.mem_of_mem_filter (heq ▸ List.mem_cons_self)
    exact Transition.makeTitle_ends fun hH => h hH first hfirst
  next => exact .ok trivial

/-- The event of a transition can be read, its own or that of its group. -/
theorem Transition.event?_ends {t : Transition}
    (h : H → t.attr? "Event" = none → t.eventName.IsEventName) :
    Ends (Fault.Breaks H) t.event? fun _ => True := by
  unfold event?
  -- an event of its own is read; else the name of the group is, which may be a text, bytes, or nothing at all
  split
  next => exact .ok trivial
  next hnone =>
    have hname := fun hH => h hH hnone
    unfold groupEvent?
    split
    next => exact .ok trivial
    next bs hbytes =>
      split
      next => exact .ok trivial
      next hblank =>
        refine .error ⟨rfl, fun hH => ?_⟩
        -- the name of the group is a text, empty, or bytes with nothing but blanks; here it is none of these
        rcases hname hH with ⟨s, hs⟩ | hempty | ⟨bs', hbytes', hblank'⟩
        · rw [hbytes] at hs
          cases hs
        · rw [hbytes] at hempty
          have hnil : bs = [] := by simpa [Data.isFilled] using hempty
          exact hblank (by rw [hnil]; rfl)
        · rw [hbytes] at hbytes'
          obtain rfl := Data.bytes.inj hbytes'
          exact hblank hblank'
    next hstr hbytes =>
      split
      next hfilled =>
        refine .error ⟨rfl, fun hH => ?_⟩
        rcases hname hH with ⟨s, hs⟩ | hempty | ⟨bs, hbs, -⟩
        · exact hstr s hs
        · rw [hempty] at hfilled
          cases hfilled
        · exact hbytes bs hbs
      next => exact .ok trivial

/-! ### Fragments -/

/-- The fragment of an attribute gives actions, or is reported and counts as none. -/
def Fragment.Readable (text : Option String) : Prop :=
  ∃ actions, (read none (ofAttribute text)).result = .ok actions

/-- The fragments of the machine are readable. -/
structure Machine.Readable (m : Machine) : Prop where
  entries : ∀ n ∈ m.nodes, Fragment.Readable (n.attr? "Entry")
  exits : ∀ n ∈ m.nodes, Fragment.Readable (n.attr? "Exit")
  actions : ∀ t ∈ m.transitions, Fragment.Readable (t.attr? "Action")

namespace Fragment

/-- Reading that has a result has one that is fit for a model. -/
theorem readable_of_isSome {text : Option String}
    (h : (read none (ofAttribute text)).result.toOption.isSome = true) : Readable text := by
  obtain ⟨actions, hactions⟩ := Option.isSome_iff_exists.mp h
  refine ⟨actions, ?_⟩
  cases hresult : (read none (ofAttribute text)).result with
  | error e => rw [hresult] at hactions; cases hactions
  | ok actions' => rw [hresult] at hactions; exact congrArg _ (Option.some.inj hactions)

/-- Where a fragment stands matters for what is reported alone. -/
theorem read_result (place : Option Place) (d : Data) :
    (read place d).result = (read none d).result := by
  -- the place goes into reports, and `ofModel` is the only other function it is given to
  have hmodel : ∀ text m, (ofModel place text m).result = (ofModel none text m).result := by
    intro text m
    unfold ofModel
    split <;> rfl
  cases d with
  | str text =>
    simp only [read, ofText]
    split
    · rfl
    · split
      · exact hmodel _ _
      · rfl
      · rfl
  | _ => rfl

variable {text : Option String}

/-- A fragment never refuses the model, whatever is wrong with it. -/
theorem read_blames (place : Option Place) (d : Data) :
    (read place d).Ends (·.message? = none) fun _ => True := by
  -- reading has actions, or a report, or a fault that has no message
  unfold read
  split
  next => exact .pure trivial
  next text =>
    unfold ofText
    split
    next => exact .pure trivial
    next =>
      split
      next m _ =>
        unfold ofModel
        split
        next => exact .pure trivial
        next => exact .pure trivial
        next => exact .pure trivial
        next => exact .report_bind (.pure trivial)
      next => exact .report_bind (.pure trivial)
      next e _ _ => exact HomeAutomaton.Ends.error rfl
  next => exact .report_bind (.pure trivial)

/-- A readable fragment is read at any place. -/
theorem read_ends (h : H → Readable text) (place : Option Place) :
    (read place (ofAttribute text)).Ends (Fault.Breaks H) fun _ => True := by
  have hreturns : H → Returns (read place (ofAttribute text)).result fun _ => True := by
    intro hH
    obtain ⟨actions, hactions⟩ := h hH
    exact ⟨actions, by rw [read_result, hactions], trivial⟩
  exact (Ends.of_returns (read_blames place _) hreturns).mono fun _ _ _ => trivial

/-- Also for the list of its actions. -/
theorem listed_ends (h : H → Readable text) (place : Place) :
    (listed place text).Ends (Fault.Breaks H) fun _ => True :=
  (read_ends h (some place)).bind fun _ _ => .pure trivial

theorem apart_ends (h : H → Readable text) (place : Place) :
    (apart place text).Ends (Fault.Breaks H) fun _ => True :=
  (read_ends h (some place)).bind fun _ _ => .pure trivial

end Fragment

/-- The fragments of a machine are readable if reading each of them has a result. -/
theorem Machine.Readable.of_forall {m : Machine}
    (hnodes : ∀ n ∈ m.nodes, ∀ key ∈ ["Entry", "Exit"],
      (Fragment.read none (Fragment.ofAttribute (n.attr? key))).result.toOption.isSome = true)
    (htransitions : ∀ t ∈ m.transitions,
      (Fragment.read none (Fragment.ofAttribute (t.attr? "Action"))).result.toOption.isSome = true) :
    m.Readable where
  entries := fun n hn => Fragment.readable_of_isSome (hnodes n hn "Entry" (by decide))
  exits := fun n hn => Fragment.readable_of_isSome (hnodes n hn "Exit" (by decide))
  actions := fun t ht => Fragment.readable_of_isSome (htransitions t ht)

/-! ### Transitions -/

/-- What a scope needs for its transitions to be resolved: they have titles, destinations can be looked up,
events and fragments can be read, and every state has an identifier, which is among the options. -/
structure Scope.Ready (scope : Scope) (options : List String) : Prop where
  titles : scope.machine.Titled
  destinations : ∀ t ∈ scope.machine.transitions, t.dst.isKey = true
  events : ∀ t ∈ scope.machine.transitions, t.attr? "Event" = none → t.eventName.IsEventName
  readable : scope.machine.Readable
  identified : ∀ s ∈ scope.machine.states,
    Returns (identifierAt scope.identifiers s.path) (· ∈ options)

/-- What leads out of a node is among the transitions. -/
theorem Machine.mem_of_mem_outgoing {m : Machine} {path : Data} {kinds : Option (List TransitionKind)}
    {t : Transition} (h : t ∈ m.outgoing path kinds) : t ∈ m.transitions :=
  List.mem_of_mem_filter h

namespace Scope

variable {scope : Scope} {options : List String}

/-- A decision leads where its alternatives and its default lead. -/
theorem choose_ends {f : Transition → Logged (List Action)} {guarded : List Transition}
    {default? : Option Transition}
    (hguarded : ∀ b ∈ guarded, (f b).Ends (Fault.Breaks H) fun actions =>
      H → EntersOnly options actions)
    (hdefault : ∀ b, default? = some b → (f b).Ends (Fault.Breaks H) fun actions =>
      H → EntersOnly options actions) :
    (do
      let alternatives ← guarded.mapM fun b => do
        let actions ← f b
        pure (guardPredicate ((b.attr? "Guard").getD ""), actions)
      let default? ← default?.mapM f
      pure [.choose alternatives default?] : Logged (List Action)).Ends (Fault.Breaks H)
        fun actions => H → EntersOnly options actions := by
  -- the alternatives are followed one by one, then the default, if there is one
  have halternatives : (guarded.mapM fun b => do
      let actions ← f b
      pure (guardPredicate ((b.attr? "Guard").getD ""), actions) : Logged _).Ends (Fault.Breaks H)
        fun alternatives => ∀ o ∈ alternatives, H → EntersOnly options o.2 :=
    .mapM fun b hb => (hguarded b hb).bind fun actions hactions => .pure hactions
  refine halternatives.bind fun alternatives halternatives => ?_
  cases default? with
  | none => exact .pure fun hH => .choose (fun o ho => halternatives o ho hH) fun _ h => nomatch h
  | some b =>
    rw [Option.mapM_some, map_eq_pure_bind, Logged.bind_assoc]
    refine (hdefault b rfl).bind fun actions hactions => .pure fun hH => ?_
    refine .choose (fun o ho => halternatives o ho hH) ?_
    rintro _ ⟨⟩
    exact hactions hH

/-- A state is entered: the machine is put into it, and what is done on entering it follows. -/
theorem entering_ends (h : H → scope.Ready options) {target : Node}
    (htarget : target ∈ scope.machine.states) :
    (do
      let stateId ← (identifierAt scope.identifiers target.path : Except Fault String)
      let entry ← Fragment.apart (.entryOf target.path) (target.attr? "Entry")
      pure (.setState stateId :: entry.map .given) : Logged (List Action)).Ends (Fault.Breaks H)
        fun actions => H → EntersOnly options actions := by
  refine (Logged.Ends.lift (identifierAt_ends fun hH => (h hH).identified target htarget)).bind
    fun stateId hid => ?_
  -- what is done on entering was found readable with the machine
  have hentry : H → Fragment.Readable (target.attr? "Entry") :=
    fun hH => (h hH).readable.entries target (List.mem_of_mem_filter htarget)
  refine (Fragment.apart_ends hentry _).bind fun entry _ => .pure fun hH => ?_
  exact (EntersOnly.setState (hid hH)).append (EntersOnly.given entry)

/-- What happens at the destination, if it does where a choice not visited yet leads. -/
theorem arrival_ends (h : H → scope.Ready options) {visited : List Data} {t : Transition}
    (hdst : H → t.dst.isKey = true)
    (ih : ∀ target, scope.machine.node? t.dst = .ok (some target) → target.kind = .choice →
      ¬ visited.any (fun path => path.same target.path) = true →
      ∀ b ∈ scope.machine.transitions, (scope.descend (target.path :: visited) b).Ends
        (Fault.Breaks H) fun actions => H → EntersOnly options actions) :
    (scope.arrival visited t).Ends (Fault.Breaks H) fun actions => H → EntersOnly options actions := by
  refine (Logged.Ends.lift (Machine.node?_ends hdst)).bind fun n? hn => ?_
  cases n? with
  | none => exact .report_bind (.pure fun _ => EntersOnly.nil)
  | some target =>
    have hmem : target.isState = true → target ∈ scope.machine.states :=
      fun hstate => List.mem_filter.mpr ⟨Machine.mem_of_node? hn, hstate⟩
    dsimp only
    split
    -- the two kinds of states are entered alike
    next hkind => exact entering_ends h (hmem (by rw [Node.isState, hkind]; rfl))
    next hkind => exact entering_ends h (hmem (by rw [Node.isState, hkind]; rfl))
    next hkind =>
      split
      next => exact .report_bind (.pure fun _ => EntersOnly.nil)
      next hnew =>
        -- all arms start at this choice, which is one choice less to enter
        have harm : ∀ b ∈ scope.machine.outgoing target.path (some [.external]),
            (scope.descend (target.path :: visited) b).Ends (Fault.Breaks H) fun actions =>
              H → EntersOnly options actions :=
          fun b hb => ih target hn hkind hnew b (Machine.mem_of_mem_outgoing hb)
        have htitles : H → ∀ b ∈ scope.machine.outgoing target.path (some [.external]),
            b.requireTitle = .ok () :=
          fun hH b hb => (h hH).titles b (Machine.mem_of_mem_outgoing hb)
        refine (Logged.Ends.lift (nameDefault_ends htitles)).bind fun _ _ => .reports_bind ?_
        exact choose_ends (fun b hb => harm b (List.mem_of_mem_filter hb))
          fun b hb => harm b (List.mem_of_find?_eq_some hb)
    next hkind => exact .report_bind (.pure fun _ => EntersOnly.nil)
    next hkind => exact .report_bind (.pure fun _ => EntersOnly.nil)

/-- A transition is resolved if it has a title, its destination can be looked up and its fragment can be
read, and if those are resolved that are followed where it leads. -/
theorem descend_ends_of_arms (h : H → scope.Ready options) {visited : List Data} {t : Transition}
    (htitle : H → t.requireTitle = .ok ()) (hdst : H → t.dst.isKey = true) (haction : H → Fragment.Readable (t.attr? "Action"))
    (ih : ∀ target, scope.machine.node? t.dst = .ok (some target) → target.kind = .choice →
      ¬ visited.any (fun path => path.same target.path) = true →
      ∀ b ∈ scope.machine.transitions, (scope.descend (target.path :: visited) b).Ends
        (Fault.Breaks H) fun actions => H → EntersOnly options actions) :
    (scope.descend visited t).Ends (Fault.Breaks H) fun actions =>
      H → EntersOnly options actions := by
  rw [descend_eq]
  refine (Logged.Ends.lift (Transition.requireTitle_ends htitle)).bind fun _ _ => ?_
  refine (Fragment.apart_ends haction _).bind fun own _ => ?_
  refine (arrival_ends h hdst ih).bind fun there hthere => .pure fun hH => ?_
  exact (EntersOnly.given own).append (hthere hH)

/-- Every transition is resolved, and leads into states of the options alone. -/
theorem descend_ends (h : H → scope.Ready options) (visited : List Data) (t : Transition)
    (ht : t ∈ scope.machine.transitions) :
    (scope.descend visited t).Ends (Fault.Breaks H) fun actions =>
      H → EntersOnly options actions := by
  -- transitions out of a choice are transitions of the machine, so the hypothesis is kept
  refine descend.induct scope (fun visited t => t ∈ scope.machine.transitions →
    (scope.descend visited t).Ends (Fault.Breaks H) fun actions => H → EntersOnly options actions)
    (fun visited t ih ht => ?_) visited t ht
  exact descend_ends_of_arms h (fun hH => (h hH).titles t ht) (fun hH => (h hH).destinations t ht)
    (fun hH => (h hH).readable.actions t ht) ih

/-! ### Rules -/

/-- The rule is about a state of the options, and leads into such states alone. -/
def RuleWithin (options : List String) (r : Rule) : Prop :=
  r.state ∈ options ∧ EntersOnly options r.actions

/-- The actions of a transition out of a state lead into states of the options. -/
theorem actionsFrom_ends (h : H → scope.Ready options) {state : Node}
    (hstate : state ∈ scope.machine.nodes) {t : Transition} (ht : t ∈ scope.machine.transitions) :
    (scope.actionsFrom state t).Ends (Fault.Breaks H) fun actions? =>
      H → ∀ actions, actions? = some actions → EntersOnly options actions := by
  unfold actionsFrom
  split
  next =>
    refine (Fragment.listed_ends (fun hH => (h hH).readable.exits state hstate) _).bind
      fun leaving _ => ?_
    -- about the recursion this is an induction, about the stack it would not be
    rw [resolve_eq]
    refine (descend_ends h [] t ht).bind fun actions hactions => .pure ?_
    rintro hH _ ⟨⟩
    exact (EntersOnly.given leaving).append (hactions hH)
  next =>
    have htitle := Transition.requireTitle_ends fun hH => (h hH).titles t ht
    refine (Logged.Ends.lift htitle).bind fun _ _ => ?_
    refine (Fragment.listed_ends (fun hH => (h hH).readable.actions t ht) _).bind
      fun actions _ => .pure ?_
    rintro hH _ ⟨⟩
    exact EntersOnly.given actions
  next => exact .pure fun _ _ hnone => nomatch hnone

theorem rule?_ends (h : H → scope.Ready options) {state : Node} (hstate : state ∈ scope.machine.nodes)
    {stateId : String} (hid : H → stateId ∈ options) {t : Transition}
    (ht : t ∈ scope.machine.transitions) :
    (scope.rule? state stateId t).Ends (Fault.Breaks H) fun r? =>
      ∀ r, r? = some r → H → RuleWithin options r := by
  rw [rule?]
  have hevent := Transition.event?_ends fun hH => (h hH).events t ht
  refine (Logged.Ends.lift hevent).bind fun event? _ => ?_
  cases event? with
  | none => exact .pure fun _ hnone => nomatch hnone
  | some event =>
    refine (actionsFrom_ends h hstate ht).bind fun actions? hactions => ?_
    -- no actions make no rule, an empty list is reported, and others make one
    split
    next => exact .pure fun _ hnone => nomatch hnone
    next => exact .report_bind (.pure fun _ hnone => nomatch hnone)
    next =>
      refine .pure ?_
      rintro _ ⟨⟩ hH
      exact ⟨hid hH, hactions hH _ rfl⟩

/-- The rules of a machine are made, state by state and transition by transition, and lie within the
options. -/
theorem rules_ends (h : H → scope.Ready options) :
    scope.rules.Ends (Fault.Breaks H) fun rules => ∀ r ∈ rules, H → RuleWithin options r := by
  -- state by state, in which transition by transition
  have hrulesOf : ∀ state ∈ scope.machine.states,
      (scope.rulesOf state).Ends (Fault.Breaks H) fun rules =>
        ∀ r ∈ rules, H → RuleWithin options r := by
    intro state hstate
    refine (Logged.Ends.lift (identifierAt_ends fun hH => (h hH).identified state hstate)).bind
      fun stateId hid => ?_
    refine Logged.Ends.bind (Logged.Ends.mapM fun t ht => rule?_ends h
      (List.mem_of_mem_filter hstate) hid (Machine.mem_of_mem_outgoing ht)) fun rules hrules => .pure ?_
    intro r hr
    obtain ⟨r?, hr?, hsome⟩ := List.mem_filterMap.mp hr
    exact hrules r? hr? r hsome
  refine (Logged.Ends.mapM hrulesOf).bind fun rules hrules => .pure fun r hr => ?_
  obtain ⟨rs, hrs, hr⟩ := List.mem_flatten.mp hr
  exact hrules rs hrs r hr

/-- With all that is needed there are rules. -/
theorem Ready.rules_returns (h : scope.Ready options) :
    scope.rules.Returns fun rules => ∀ r ∈ rules, RuleWithin options r :=
  (Ends.returns (rules_ends fun _ : True => h) trivial).mono
    fun _ hrules r hr => hrules r hr trivial

/-- The first state, if there is one, has an identifier among the options. -/
theorem initialState?_ends (h : H → scope.Ready options) :
    (initialState? scope.machine scope.identifiers).Ends (Fault.Breaks H) fun initial =>
      H → ∀ stateId, initial = some stateId → stateId ∈ options := by
  rw [initialState?]
  cases hinitial : scope.machine.initialTransition? with
  | none => exact .report_bind (.pure fun _ _ hnone => nomatch hnone)
  | some t =>
    have ht := List.mem_of_find?_eq_some hinitial
    -- where the transition leads to no state, it is named in a report and the machine has no start
    have hnamed : (do
        (t.makeTitle : Except Fault Unit)
        Logged.report (.initialNotState t.title)
        pure none : Logged (Option String)).Ends (Fault.Breaks H) fun initial =>
          H → ∀ stateId, initial = some stateId → stateId ∈ options :=
      (Logged.Ends.lift (Transition.makeTitle_ends fun hH => (h hH).titles t ht)).bind fun _ _ =>
        .report_bind (.pure fun _ _ hnone => nomatch hnone)
    refine (Logged.Ends.lift (Machine.node?_ends fun hH => (h hH).destinations t ht)).bind
      fun n? hn => ?_
    cases n? with
    | none => exact hnamed
    | some target =>
      dsimp only
      split
      next hstate =>
        -- the target is a state, so it has an identifier
        have hmem : target ∈ scope.machine.states :=
          List.mem_filter.mpr ⟨Machine.mem_of_node? hn, hstate⟩
        refine (Logged.Ends.lift (identifierAt_ends fun hH => (h hH).identified target hmem)).bind
          fun stateId hid => .pure ?_
        rintro hH _ ⟨⟩
        exact hid hH
      next => exact hnamed

theorem Ready.initialState?_returns (h : scope.Ready options) :
    (initialState? scope.machine scope.identifiers).Returns fun initial =>
      ∀ stateId, initial = some stateId → stateId ∈ options :=
  (Ends.returns (initialState?_ends fun _ : True => h) trivial).mono
    fun _ hinitial => hinitial trivial

end Scope

end HomeAutomaton
