import HomeAutomaton.Proofs.Origin
import HomeAutomaton.Proofs.Sameness
import Mathlib.Logic.Relation

/-!
# The graph of the choices

One choice leads to another if a transition that is followed out of it does. From where a transition leads,
resolving it goes along every way of this graph, and remembers on each of them the choices it has come
through. So the same choice is met with different choices remembered, and in one place after a long way, in
another at once.

What is remembered matters only where it is met again. The choices that were come through all lead to the
place (`Scope.Behind`); if one of them could be met again from there, it would be on a circle. Hence at a
choice from which no circle can be come to the decision is the same, wherever the choice is met
(`Scope.decision_uniform`).

* `Scope.ComesTo`, `Scope.Follows` and `Scope.Circular` are the graph.
* `Scope.descend_congr` says that visited choices which cannot be met again make no difference.
* `Scope.handed_of_leads` runs down the tree of a resolved transition: what is handed on from a transition to
  those out of the choice it leads to is had by every transition in the tree.
* `Scope.Behind` is handed on (`Scope.Behind.arm`).
-/

namespace HomeAutomaton

open Relation

/-- Computations that are the same for every item are the same for all of them. -/
theorem Logged.mapM_congr {α β : Type} {f g : α → Logged β} {as : List α}
    (h : ∀ a ∈ as, f a = g a) : as.mapM f = as.mapM g := by
  induction as with
  | nil => rfl
  | cons a as ih =>
    rw [List.forall_mem_cons] at h
    rw [List.mapM_cons, List.mapM_cons, h.1, ih h.2]

namespace Scope

/-! ### The graph -/

/-- The transition leads to a choice. -/
structure ComesTo (scope : Scope) (t : Transition) (choice : Node) : Prop where
  find : scope.machine.find? t.dst = some choice
  kind : choice.kind = .choice

/-- The one choice leads to the other, by a transition that is followed out of it. -/
def Follows (scope : Scope) (choice next : Node) : Prop :=
  choice.kind = .choice ∧ ∃ b ∈ scope.arms choice, scope.ComesTo b next

/-- From the choice a circle can be come to: a choice that leads back to itself. -/
def Circular (scope : Scope) (choice : Node) : Prop :=
  ∃ c, ReflTransGen scope.Follows choice c ∧ TransGen scope.Follows c c

variable {scope : Scope} {visited visited' : List Data} {t b : Transition} {choice next n : Node}

/-- A choice that a transition leads to is in the machine. -/
theorem ComesTo.mem (h : scope.ComesTo t choice) : choice ∈ scope.machine.nodes :=
  (Machine.find?_eq_some h.find).1

/-- A transition leads to one choice. -/
theorem ComesTo.unique (h : scope.ComesTo t choice) (h' : scope.ComesTo t next) : choice = next :=
  Option.some.inj (h.find.symm.trans h'.find)

/-- What is found at its end, if it is a choice. -/
theorem ComesTo.of_node? (hnode : scope.machine.node? t.dst = .ok (some choice))
    (hkind : choice.kind = .choice) : scope.ComesTo t choice :=
  ⟨(Machine.node?_eq_ok hnode).2, hkind⟩

/-- Two steps that are made one after the other. -/
theorem ComesTo.follows (h : scope.ComesTo t choice) (hb : b ∈ scope.arms choice)
    (hnext : scope.ComesTo b next) : scope.Follows choice next :=
  ⟨h.kind, b, hb, hnext⟩

/-- All choices that are met are in the machine. -/
theorem mem_of_reflTransGen (h : ReflTransGen scope.Follows choice n)
    (hchoice : choice ∈ scope.machine.nodes) : n ∈ scope.machine.nodes := by
  cases h with
  | refl => exact hchoice
  | tail _ hlast =>
    obtain ⟨-, b, -, hto⟩ := hlast
    exact hto.mem

/-- A step towards a circle. -/
theorem Circular.of_follows (h : scope.Follows choice next) (hnext : scope.Circular next) :
    scope.Circular choice := by
  obtain ⟨c, hway, hround⟩ := hnext
  exact ⟨c, .head h hway, hround⟩

/-- A way to a circle, and round it, has a first step. -/
theorem Circular.exists_follows (h : scope.Circular choice) :
    ∃ next, scope.Follows choice next ∧ scope.Circular next := by
  obtain ⟨c, hway, hround⟩ := h
  rcases hway.cases_head with rfl | ⟨next, hstep, hrest⟩
  -- the choice is on the circle itself, and so is the next one
  · obtain ⟨next, hstep, hback⟩ := TransGen.head'_iff.mp hround
    exact ⟨next, hstep, choice, hback, hround⟩
  · exact ⟨next, hstep, c, hrest, hround⟩

/-! ### Visited choices that cannot be met again -/

/-- The choices that are met from where the transition leads. -/
def Ahead (scope : Scope) (t : Transition) (n : Node) : Prop :=
  ∃ choice, scope.ComesTo t choice ∧ ReflTransGen scope.Follows choice n

/-- What is ahead of a way on is ahead. -/
theorem Ahead.of_arm (hto : scope.ComesTo t choice) (hb : b ∈ scope.arms choice)
    (h : scope.Ahead b n) : scope.Ahead t n := by
  obtain ⟨next, hnext, hway⟩ := h
  exact ⟨choice, hto, .head (hto.follows hb hnext) hway⟩

/-- What was visited matters only where it can be met again: a transition comes to the same after other
choices, if the choices ahead of it are among the ones exactly if they are among the others. -/
theorem descend_congr
    (h : ∀ n, scope.Ahead t n →
      visited.any (fun path => path.same n.path) = visited'.any (fun path => path.same n.path)) :
    scope.descend visited t = scope.descend visited' t := by
  -- the induction is that of `descend`, on the choices that are left to enter
  refine descend.induct scope (fun visited t => ∀ visited' : List Data,
    (∀ n, scope.Ahead t n →
      visited.any (fun path => path.same n.path) = visited'.any (fun path => path.same n.path)) →
    scope.descend visited t = scope.descend visited' t) (fun visited t ih visited' h => ?_)
    visited t visited' h
  rw [descend_eq, descend_eq]
  refine bind_congr fun _ => bind_congr fun own => congrArg (· >>= _) ?_
  cases hnode : scope.machine.node? t.dst with
  | error e =>
    rw [arrival, arrival, hnode]
    rfl
  | ok found =>
    cases found with
    | none =>
      rw [arrival, arrival, hnode]
      rfl
    | some target =>
      cases hkind : target.kind with
      -- nothing but a choice is compared with what was visited
      | state | endState | stateMachine | initial =>
        simp only [arrival, hnode, hkind, Logged.liftM_ok, Logged.bind_done]
      | choice =>
        have hto := ComesTo.of_node? hnode hkind
        have hagree := h target ⟨target, hto, .refl⟩
        by_cases hseen : visited.any (fun path => path.same target.path) = true
        · have hseen' : visited'.any (fun path => path.same target.path) = true := hagree ▸ hseen
          simp only [arrival, hnode, hkind, if_pos hseen, if_pos hseen', Logged.liftM_ok,
            Logged.bind_done]
        · rw [scope.arrival_of_choice hnode hkind hseen,
            scope.arrival_of_choice hnode hkind (hagree ▸ hseen)]
          -- both lists grow by the same choice, so they still agree ahead of each way on
          have harms : (scope.arms target).mapM (scope.descend (target.path :: visited))
              = (scope.arms target).mapM (scope.descend (target.path :: visited')) := by
            apply Logged.mapM_congr
            intro b hb
            apply ih target hnode hkind hseen b (target.path :: visited')
            intro n hn
            rw [List.any_cons, List.any_cons, h n (hn.of_arm hto hb)]
          rw [harms]

/-! ### Down the tree of a resolved transition -/

/-- A way with a guard is a way. -/
theorem mem_arms_of_getElem? {i : Nat} (h : (scope.guardedArms choice)[i]? = some b) :
    b ∈ scope.arms choice :=
  List.mem_append_left _ (List.mem_of_getElem? h)

/-- The way without a guard is one as well. -/
theorem mem_arms_of_defaultArm? (h : scope.defaultArm? choice = some b) : b ∈ scope.arms choice :=
  List.mem_append_right _ (Option.mem_toList.mpr h)

/-- **What is handed on.** If a property is handed on from a transition to those that are followed out of the
choice it leads to, then every transition that turns lead to has it, with the choices on the way
visited. -/
theorem handed_of_leads {P : List Data → Transition → Prop}
    (hstep : ∀ (visited : List Data) (t b : Transition) (resolved : List Action) (choice : Node),
      P visited t → (scope.descend visited t).result = .ok resolved → scope.ComesTo t choice →
      ¬ visited.any (fun path => path.same choice.path) = true → b ∈ scope.arms choice →
      P (choice.path :: visited) b)
    (before : List Data) {last : Transition} {resolved inner : List Action} {turns : List Turn}
    (h : (scope.descend visited t).result = .ok resolved)
    (hleads : scope.Leads t (before.map .given ++ resolved) turns last inner) (hP : P visited t) :
    P (visitedAfter visited turns) last := by
  generalize hactions : before.map .given ++ resolved = actions at hleads
  -- down the tree; a turn goes into an alternative or into the default
  induction hleads generalizing visited before resolved with
  | here t actions => exact hP
  | option hto hdecision hb harm _ ih =>
    obtain ⟨choice', hto', hdecided⟩ := decidedAt_of_choose before h (hactions ▸ hdecision)
    obtain rfl := Option.some.inj (hto.symm.trans hto')
    rw [visitedAfter_cons]
    exact ih [] (hdecided.option hb harm).2
      (hstep _ _ _ _ _ hP h ⟨hto, hdecided.kind⟩ hdecided.new (mem_arms_of_getElem? hb)) rfl
  | default hto hdecision hb _ ih =>
    obtain ⟨choice', hto', hdecided⟩ := decidedAt_of_choose before h (hactions ▸ hdecision)
    obtain rfl := Option.some.inj (hto.symm.trans hto')
    rw [visitedAfter_cons]
    exact ih [] (hdecided.of_default hb)
      (hstep _ _ _ _ _ hP h ⟨hto, hdecided.kind⟩ hdecided.new (mem_arms_of_defaultArm? hb)) rfl

/-! ### What lies behind -/

/-- The visited choices lie behind: each of them leads to the choice that the transition leads to. -/
def Behind (scope : Scope) (visited : List Data) (t : Transition) : Prop :=
  ∀ n ∈ scope.machine.nodes, visited.any (fun path => path.same n.path) = true →
    ∀ choice, scope.ComesTo t choice → TransGen scope.Follows n choice

theorem Behind.nil (t : Transition) : scope.Behind [] t := by
  intro n _ hvisited
  cases hvisited

variable (hkeys : ∀ n ∈ scope.machine.nodes, n.path.isKey = true)
include hkeys

/-- The paths of nodes are told apart, so a node with the path of a choice is the choice. -/
theorem ComesTo.eq_of_same (h : scope.ComesTo t choice) (hn : n ∈ scope.machine.nodes)
    (hsame : choice.path.same n.path = true) : choice = n :=
  scope.machine.distinct.eq_of_same hkeys (hkeys n hn) h.mem hn hsame (Data.same_self _)

/-- **The step.** After the choice that a transition leads to is visited, what was visited lies behind the
transitions that are followed out of it. -/
theorem Behind.arm (h : scope.Behind visited t) (hto : scope.ComesTo t choice)
    (hb : b ∈ scope.arms choice) : scope.Behind (choice.path :: visited) b := by
  intro n hn hvisited next hnext
  have hstep : scope.Follows choice next := hto.follows hb hnext
  rw [List.any_cons, Bool.or_eq_true] at hvisited
  rcases hvisited with hsame | hold
  · obtain rfl := hto.eq_of_same hkeys hn hsame
    exact .single hstep
  · exact (h n hn hold choice hto).tail hstep

/-- **The run.** In the tree of a resolved transition the choices on the way always lie behind. -/
theorem behind_of_leads {last : Transition} {resolved inner : List Action} {turns : List Turn}
    (h : (scope.descend [] t).result = .ok resolved)
    (hleads : scope.Leads t resolved turns last inner) :
    scope.Behind (visitedAfter [] turns) last :=
  handed_of_leads (fun _ _ _ _ _ hbehind _ hto _ hb => hbehind.arm hkeys hto hb) [] h hleads (.nil t)

omit hkeys

/-- What lies behind a choice without a circle ahead is not met again from there. -/
theorem Behind.not_ahead (h : scope.Behind visited t) (hto : scope.ComesTo t choice)
    (hcircle : ¬ scope.Circular choice) (hway : ReflTransGen scope.Follows choice n) :
    ¬ visited.any (fun path => path.same n.path) = true := by
  intro hvisited
  have hround : TransGen scope.Follows n choice :=
    h n (mem_of_reflTransGen hway hto.mem) hvisited choice hto
  -- from the choice to the visited one and back
  exact hcircle ⟨n, hway, hround.trans_left hway⟩

/-! ### The decision at a choice -/

/-- The decision at a choice if nothing was visited before. -/
def freshDecision (scope : Scope) (choice : Node) : Logged Action := do
  (nameDefault (scope.machine.outgoing choice.path (some [.external])) : Except Fault Unit)
  Logged.reports (choiceReports choice (scope.machine.outgoing choice.path (some [.external])))
  let as ← (scope.arms choice).mapM (scope.descend [choice.path])
  pure (.choose (((scope.guardedArms choice).map predicateOf).zip as)
    (as.drop (scope.guardedArms choice).length).head?)

theorem choose_of_freshDecision {decision : Action}
    (h : (scope.freshDecision choice).result = .ok decision) :
    ∃ options default?, decision = .choose options default? := by
  obtain ⟨_, -, h⟩ := Logged.bind_eq_ok.mp h
  obtain ⟨_, -, h⟩ := Logged.bind_eq_ok.mp h
  obtain ⟨as, -, h⟩ := Logged.bind_eq_ok.mp h
  exact ⟨_, _, (Except.ok.inj h).symm⟩

/-- Where nothing ahead of a choice was visited, the decision is made as if nothing had been visited at
all. -/
theorem arrival_of_fresh (hnode : scope.machine.node? t.dst = .ok (some choice))
    (hkind : choice.kind = .choice)
    (hfresh : ∀ n, ReflTransGen scope.Follows choice n →
      ¬ visited.any (fun path => path.same n.path) = true) :
    scope.arrival visited t = (do let decision ← scope.freshDecision choice; pure [decision]) := by
  have hto := ComesTo.of_node? hnode hkind
  have harms : (scope.arms choice).mapM (scope.descend (choice.path :: visited))
      = (scope.arms choice).mapM (scope.descend [choice.path]) := by
    apply Logged.mapM_congr
    intro b hb
    apply descend_congr
    rintro n ⟨next, hnext, hway⟩
    -- the choice itself is visited on both sides, and nothing else that is ahead of the transition
    have hnew := hfresh n (.head (hto.follows hb hnext) hway)
    rw [List.any_cons, List.any_cons, Bool.eq_false_iff.mpr hnew, List.any_nil]
  rw [scope.arrival_of_choice hnode hkind (hfresh choice .refl), harms, freshDecision]
  simp only [Logged.bind_assoc, Logged.bind_done]

/-- Where a transition comes to a choice and nothing ahead of it was visited, the decision follows what the
transition does itself. -/
theorem decision_of_fresh {resolved : List Action}
    (h : (scope.descend visited t).result = .ok resolved) (hto : scope.ComesTo t choice)
    (hfresh : ∀ n, ReflTransGen scope.Follows choice n →
      ¬ visited.any (fun path => path.same n.path) = true) :
    ∃ decision, (scope.freshDecision choice).result = .ok decision ∧
      resolved = (Fragment.apartActions (t.attr? "Action")).map .given ++ [decision] := by
  obtain ⟨own, there, hown, hthere, rfl⟩ := scope.descend_eq_ok h
  -- the destination was looked up, or there would be no result
  obtain ⟨found, hfound, -⟩ := Logged.bind_eq_ok.mp hthere
  have hnode : scope.machine.node? t.dst = .ok (some choice) := by
    rw [← hto.find, (Machine.node?_eq_ok hfound).2]
    exact hfound
  rw [arrival_of_fresh hnode hto.kind hfresh] at hthere
  obtain ⟨decision, hdecision, hthere⟩ := Logged.bind_eq_ok.mp hthere
  obtain rfl := Except.ok.inj hthere
  exact ⟨decision, hdecision, by rw [Fragment.eq_apartActions hown]⟩

/-- **A choice means the same wherever it is met.** If no circle can be come to from a choice, there is one
decision that the actions of every transition which leads to it end with, behind what the transition does
itself: of a transition that is resolved, and of those on the way, at any depth, of any that is. -/
theorem decision_uniform (scope : Scope) (hkeys : ∀ n ∈ scope.machine.nodes, n.path.isKey = true)
    {choice : Node} (hkind : choice.kind = .choice) (hcircle : ¬ scope.Circular choice) :
    ∃ options default?, ∀ t actions, (scope.resolve t).result = .ok actions →
      ∀ turns last inner, scope.Leads t actions turns last inner →
        scope.machine.find? last.dst = some choice →
          inner = (Fragment.apartActions (last.attr? "Action")).map .given
            ++ [.choose options default?] := by
  -- the decision that is met is the one made as if nothing had been visited
  have hplace : ∀ t actions, (scope.resolve t).result = .ok actions →
      ∀ turns last inner, scope.Leads t actions turns last inner →
        scope.machine.find? last.dst = some choice →
          ∃ decision, (scope.freshDecision choice).result = .ok decision ∧
            inner = (Fragment.apartActions (last.attr? "Action")).map .given ++ [decision] := by
    intro t actions hactions turns last inner hleads hfind
    rw [resolve_eq] at hactions
    have hto : scope.ComesTo last choice := ⟨hfind, hkind⟩
    have hbehind := behind_of_leads hkeys hactions hleads
    obtain ⟨resolved, rfl, hresolved⟩ := descend_of_leads [] hactions hleads
    rw [beforeAfter_nil]
    exact decision_of_fresh hresolved hto fun n hway => hbehind.not_ahead hto hcircle hway
  -- so it is one and the same everywhere, if it can be made
  cases hdecision : (scope.freshDecision choice).result with
  | error e =>
    -- then the choice is met nowhere
    refine ⟨[], none, fun t actions hactions turns last inner hleads hfind => ?_⟩
    obtain ⟨decision, hsome, -⟩ := hplace t actions hactions turns last inner hleads hfind
    rw [hdecision] at hsome
    cases hsome
  | ok decision =>
    obtain ⟨options, default?, rfl⟩ := choose_of_freshDecision hdecision
    refine ⟨options, default?, fun t actions hactions turns last inner hleads hfind => ?_⟩
    obtain ⟨decision', hsome, hinner⟩ := hplace t actions hactions turns last inner hleads hfind
    rw [hdecision] at hsome
    rw [hinner, ← Except.ok.inj hsome]

/-! ### A lamp -/

/-- Is anybody at home? -/
def homeChoice : Node := { kind := .choice, path := .str "/home" }

/-- Is it dark? -/
def darkChoice : Node := { kind := .choice, path := .str "/dark" }

/-- Somebody is at home: a bell is rung, and it matters whether it is dark. -/
def bellArm : Transition where
  kind := .external
  src := .str "/home"
  dst := .str "/dark"
  attributes := [(.str "Guard", .str "[home]"), (.str "Action", .str "service: bell.ring")]

/-- Nobody is at home: it matters whether it is dark. -/
def quietArm : Transition := { kind := .external, src := .str "/home", dst := .str "/dark" }

/-- The switch of the lamp is pressed. -/
def switchPress : Transition := { kind := .external, src := .str "/off", dst := .str "/home" }

/-- The sun sets. -/
def sunset : Transition := { kind := .external, src := .str "/on", dst := .str "/dark" }

/-- A lamp that is on when it is dark. A press asks first whether anybody is at home. -/
def duskScope : Scope where
  machine :=
    { nodes := [{ kind := .stateMachine, path := .str "/lamp", name := "Lamp" },
        { kind := .state, path := .str "/on" }, { kind := .state, path := .str "/off" }, homeChoice,
        darkChoice]
      distinct := by simp [DistinctPaths, homeChoice, darkChoice]
      transitions := [switchPress, bellArm, quietArm,
        { kind := .external, src := .str "/dark", dst := .str "/on"
          attributes := [(.str "Guard", .str "[dark]")] },
        { kind := .external, src := .str "/dark", dst := .str "/off" }, sunset] }
  identifiers := [(.str "/on", "on"), (.str "/off", "off")]

/-- From the question whether it is dark only states are reached. -/
theorem not_circular_dark : ¬ duskScope.Circular darkChoice := by
  intro hcircle
  obtain ⟨next, ⟨-, b, hb, hto⟩, -⟩ := hcircle.exists_follows
  have hstates : (duskScope.arms darkChoice).all (fun b =>
      (duskScope.machine.find? b.dst).any (·.isState)) = true := by rfl
  have hstate := List.all_eq_true.mp hstates b hb
  rw [hto.find, Option.any_some, Node.isState, hto.kind] at hstate
  cases hstate

/-- The actions with the predicate of the only alternative, if they are one decision with an alternative and
a default. -/
def loneOption? : List Action → Option String
  | [.choose [(predicate, _)] (some _)] => some predicate
  | _ => none

theorem eq_of_loneOption? {actions : List Action} {predicate : String}
    (h : loneOption? actions = some predicate) :
    ∃ arm other, actions = [.choose [(predicate, arm)] (some other)] := by
  unfold loneOption? at h
  split at h
  next predicate' arm other =>
    obtain rfl := Option.some.inj h
    exact ⟨arm, other, rfl⟩
  next => cases h

/-- A press comes to a decision with one alternative. -/
theorem resolve_switchPress : ∃ bell quiet,
    (duskScope.resolve switchPress).result = .ok [.choose [("home", bell)] (some quiet)] := by
  have hpress : ((duskScope.resolve switchPress).result.toOption.map fun actions =>
      loneOption? actions == some "home") = some true := by
    decide +kernel
  obtain ⟨actions, hactions, hlone⟩ := Returns.of_check hpress
  obtain ⟨bell, quiet, rfl⟩ := eq_of_loneOption? (eq_of_beq hlone)
  exact ⟨bell, quiet, hactions⟩

/-- At sunset, and with or without a bell after a press, the same decision is made. -/
theorem decision_uniform_dusk :
    (∀ n ∈ duskScope.machine.nodes, n.path.isKey = true) ∧ darkChoice.kind = .choice ∧
    ¬ duskScope.Circular darkChoice ∧
    ∃ options default?, (duskScope.resolve sunset).result = .ok [.choose options default?] ∧
      (duskScope.resolve switchPress).result = .ok [.choose
        [("home", (Fragment.apartActions (some "service: bell.ring")).map .given
          ++ [.choose options default?])]
        (some [.choose options default?])] := by
  have hkeys : ∀ n ∈ duskScope.machine.nodes, n.path.isKey = true := by
    simp [duskScope, homeChoice, darkChoice]
  refine ⟨hkeys, rfl, not_circular_dark, ?_⟩
  obtain ⟨options, default?, hsame⟩ := decision_uniform duskScope hkeys rfl not_circular_dark
  have hsunset : (duskScope.resolve sunset).result.toOption.map (fun _ => true) = some true := by
    decide +kernel
  obtain ⟨actions, hactions, -⟩ := Returns.of_check hsunset
  obtain ⟨bell, quiet, hpress⟩ := resolve_switchPress
  -- the sunset leads to the question at once
  obtain rfl := hsame sunset actions hactions [] sunset actions (.here _ _) rfl
  -- the press leads there under the predicate of the bell, and in the default
  have hbell : bell = (Fragment.apartActions (some "service: bell.ring")).map .given
      ++ [.choose options default?] :=
    hsame switchPress _ hpress [⟨homeChoice, some "home"⟩] bellArm bell
      (.option (i := 0) rfl List.mem_cons_self rfl rfl (.here _ _)) rfl
  have hquiet : quiet = [.choose options default?] :=
    hsame switchPress _ hpress [⟨homeChoice, none⟩] quietArm quiet
      (.default rfl List.mem_cons_self rfl (.here _ _)) rfl
  refine ⟨options, default?, hactions, ?_⟩
  rw [hpress, hbell, hquiet]

end Scope

end HomeAutomaton
