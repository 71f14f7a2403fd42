import HomeAutomaton.Rule.Descent

/-!
# The stack resolves what the recursion descends into

`Scope.resolve` puts a decision into its list before its alternatives are known, with references to
lists that are still empty, and fills those one after the other as their branches come off the stack.
`Scope.descend` recurses on the machine. The two are equal (`Scope.resolve_eq_descend`): the same
actions or the same fault, and the same diagnostics in the same order.

The invariant is about lists, not about the stack. `Filled` says what the lists look like once the
branches of some neighbouring empty lists, and all that came out of them, are resolved: every older list
is as it was, and the actions read off those lists are the right ones, in *any* later state that keeps
these lists and the newer ones. Later branches go into other lists (each list has one branch), so
nothing has to be known about what happens afterwards.

* `Filled.cons` puts the work of one branch and that of its neighbours together;
* `Filled.close` closes a decision over the lists of its alternatives;
* `Scope.simulates` is the simulation: by induction on the choices that are left to enter, the steps for
  one branch do to the workspace what `Scope.descend` says, whatever else is on the stack.
-/

namespace HomeAutomaton

/-! ### Lists with holes -/

/-- Two states of the lists agree on the `count` lists from `start` on, and on all from `low` on. -/
structure Agree (start count low : Nat) (lists more : List (List Draft)) : Prop where
  within : ∀ a, start ≤ a → a < start + count → more[a]? = lists[a]?
  beyond : ∀ a, low ≤ a → a < lists.length → more[a]? = lists[a]?

/-- The `actions.length` lists from `start` on are filled, which takes the state of the lists from
`old` to `new`: other old lists are unchanged, and wherever these lists and the new ones stay what they
are, reading them gives `actions`. Decisions are at most `depth` deep inside one another. -/
structure Filled (old new : List (List Draft)) (start depth : Nat) (actions : List (List Action)) :
    Prop where
  grows : old.length ≤ new.length
  frame : ∀ a, a < old.length → a < start ∨ start + actions.length ≤ a → new[a]? = old[a]?
  reads : ∀ later d, Agree start actions.length old.length new later → depth < d →
    (List.range' start actions.length).map (actionsAt later d) = actions

/-- No list is filled in no step. -/
theorem Filled.nil (lists : List (List Draft)) (start depth : Nat) :
    Filled lists lists start depth [] where
  grows := Nat.le_refl _
  frame := fun _ _ _ => rfl
  reads := fun _ _ _ _ => rfl

/-- One list is filled and then its neighbours. -/
theorem Filled.cons {old mid new : List (List Draft)} {start depth : Nat} {a : List Action}
    {as : List (List Action)} (hroom : start + (as.length + 1) ≤ old.length)
    (hfirst : Filled old mid start depth [a]) (hrest : Filled mid new (start + 1) depth as) :
    Filled old new start depth (a :: as) where
  grows := Nat.le_trans hfirst.grows hrest.grows
  frame := by
    intro k hk hout
    have hgrows := hfirst.grows
    rw [List.length_cons] at hout
    rw [hrest.frame k (by omega) (by omega), hfirst.frame k hk (by simp; omega)]
  reads := by
    intro later d hagree hd
    have hgrows := hfirst.grows
    have hgrows' := hrest.grows
    -- what is kept of `new` is kept of `mid`: the neighbours' work leaves the first list alone
    have hone : Agree start 1 old.length mid later := by
      refine ⟨fun k h₁ h₂ => ?_, fun k h₁ h₂ => ?_⟩
      · rw [hagree.within k h₁ (by rw [List.length_cons]; omega),
          hrest.frame k (by omega) (by omega)]
      · rw [hagree.beyond k h₁ (by omega), hrest.frame k h₂ (by omega)]
    have hmore : Agree (start + 1) as.length mid.length new later := by
      refine ⟨fun k h₁ h₂ => ?_, fun k h₁ h₂ => ?_⟩
      · exact hagree.within k (by omega) (by rw [List.length_cons]; omega)
      · exact hagree.beyond k (by omega) h₂
    have hread := hfirst.reads later d hone hd
    rw [List.length_cons, List.range'_succ, List.map_cons, hrest.reads later d hmore hd]
    simpa using hread

/-- The drafts of one list are put into it, and the `arms.length` new lists that they refer to are
filled. -/
theorem Filled.close {old new : List (List Draft)} {out depth inner : Nat} {drafts : List Draft}
    {actions : List Action} {arms : List (List Action)} (hhole : old[out]? = some [])
    (harms : Filled (old.modify out (· ++ drafts) ++ List.replicate arms.length []) new old.length
      inner arms)
    (hinner : arms = [] ∨ inner < depth)
    (hread : ∀ read : Nat → List Action, (List.range' old.length arms.length).map read = arms →
      drafts.map (Draft.action read) = actions) :
    Filled old new out depth [actions] := by
  have hout : out < old.length := (List.getElem?_eq_some_iff.mp hhole).1
  have hgrows := harms.grows
  simp only [List.length_append, List.length_modify, List.length_replicate] at hgrows
  -- the work on the new lists touches no old one
  have hold : ∀ a, a < old.length → new[a]? = (old.modify out (· ++ drafts))[a]? := by
    intro a ha
    rw [harms.frame a (by simp; omega) (.inl ha), List.getElem?_append_left (by simpa using ha)]
  refine ⟨by omega, fun a ha hne => ?_, fun later d hagree hd => ?_⟩
  · have hne' : out ≠ a := by simp at hne; omega
    rw [hold a ha, List.getElem?_modify_ne _ _ hne']
  -- the alternatives are read one level further down
  · obtain ⟨d, rfl⟩ : ∃ d', d = d' + 1 := ⟨d - 1, by omega⟩
    have hlist : later[out]? = some drafts := by
      rw [hagree.within out (Nat.le_refl _) (by simp), hold out hout, List.getElem?_modify_eq, hhole]
      rfl
    have harmsRead : (List.range' old.length arms.length).map (actionsAt later d) = arms := by
      rcases hinner with rfl | hlt
      · rfl
      · refine harms.reads later d ⟨fun a h₁ h₂ => ?_, fun a h₁ h₂ => ?_⟩ (by omega)
        · exact hagree.beyond a h₁ (by omega)
        · exact hagree.beyond a (by simp at h₁; omega) h₂
    simp only [List.length_singleton, List.range'_one, List.map_cons, List.map_nil]
    rw [actionsAt, List.getD_eq_getElem?_getD, hlist, Option.getD_some, hread _ harmsRead]

namespace Scope

variable (scope : Scope)

/-! ### The transitions that are followed out of a choice -/

/-- The transitions with a guard out of a choice. -/
def guardedArms (choice : Node) : List Transition :=
  (scope.machine.outgoing choice.path (some [.external])).filter fun t => (t.attr? "Guard").isSome

/-- The first transition without a guard out of a choice. -/
def defaultArm? (choice : Node) : Option Transition :=
  (scope.machine.outgoing choice.path (some [.external])).find? fun t => (t.attr? "Guard").isNone

/-- The transitions that are followed out of a choice, in the order of their lists. -/
def arms (choice : Node) : List Transition :=
  scope.guardedArms choice ++ (scope.defaultArm? choice).toList

theorem isNone_guard_eq (t : Transition) :
    (t.attr? "Guard").isNone = !(t.attr? "Guard").isSome := by
  cases t.attr? "Guard" <;> rfl

/-- The two lists that the transitions out of a choice are split into. -/
theorem alternatives_eq (choice : Node) :
    scope.alternatives choice = (scope.guardedArms choice,
      (scope.machine.outgoing choice.path (some [.external])).filter fun t =>
        (t.attr? "Guard").isNone) := by
  simp only [alternatives, guardedArms, List.partition_eq_filter_filter, isNone_guard_eq]
  rfl

/-- A machine has at least as many transitions as are followed out of a choice. -/
theorem arms_length_le (choice : Node) :
    (scope.arms choice).length ≤ scope.machine.transitions.length := by
  -- of the transitions without a guard only the first counts
  have hsplit : ∀ ts : List Transition,
      (ts.filter fun t => (t.attr? "Guard").isSome).length
        + (ts.find? fun t => (t.attr? "Guard").isNone).toList.length ≤ ts.length := by
    intro ts
    induction ts with
    | nil => exact Nat.le_refl _
    | cons t ts ih =>
      have hle := List.length_filter_le (fun t : Transition => (t.attr? "Guard").isSome) ts
      cases h : t.attr? "Guard" with
      | none => simp [h]; exact hle
      | some g => simp [h]; omega
  rw [arms, List.length_append]
  exact Nat.le_trans (hsplit _) (List.length_filter_le _ _)

/-! ### One branch -/

/-- The decision at a choice: what is reported, the alternatives by the numbers of their lists, and the
branches. -/
theorem decisionAt_eq (choice : Node) (visited : List Data) (next : Nat) :
    scope.decisionAt choice visited next = (do
      (nameDefault (scope.machine.outgoing choice.path (some [.external])) : Except Fault Unit)
      Logged.reports (choiceReports choice (scope.machine.outgoing choice.path (some [.external])))
      pure (.choose (((scope.guardedArms choice).zipIdx next).map fun arm =>
              (predicateOf arm.1, arm.2))
            ((scope.defaultArm? choice).map fun _ => next + (scope.guardedArms choice).length),
          branchesFrom visited next (scope.arms choice))) := by
  rw [decisionAt, alternatives_eq, arms]
  have hdefault : scope.defaultArm? choice
      = ((scope.machine.outgoing choice.path (some [.external])).filter fun t =>
          (t.attr? "Guard").isNone).head? := List.head?_filter.symm
  -- no transition of either kind is no transition at all
  have hempty : ((scope.guardedArms choice).isEmpty
      && ((scope.machine.outgoing choice.path (some [.external])).filter fun t =>
          (t.attr? "Guard").isNone).isEmpty) = true
      ↔ scope.machine.outgoing choice.path (some [.external]) = [] := by
    rw [guardedArms]
    cases scope.machine.outgoing choice.path (some [.external]) with
    | nil => simp
    | cons t ts => cases h : t.attr? "Guard" <;> simp [h]
  rw [hdefault, choiceReports, nameDefault]
  simp only [hempty]
  by_cases hnone : scope.machine.outgoing choice.path (some [.external]) = []
  · simp [hnone]
    rfl
  -- both sides report by how many transitions without a guard there are: none, one, or more
  · generalize (scope.machine.outgoing choice.path (some [.external])).filter (fun t =>
      (t.attr? "Guard").isNone) = unguarded
    rcases unguarded with _ | ⟨first, _ | ⟨second, rest⟩⟩ <;> simp [hnone] <;> rfl

/-- Options and default, each from its own transition, come from the transitions one after the other. -/
theorem mapM_arms {β : Type} (f : Transition → Logged (List Action)) (default? : Option Transition)
    (guarded : List Transition)
    (k : List (String × List Action) → Option (List Action) → Logged β) :
    (do
      let options ← guarded.mapM fun b => do
        let actions ← f b
        pure (predicateOf b, actions)
      let default? ← default?.mapM f
      k options default?)
    = (do
      let as ← (guarded ++ default?.toList).mapM f
      k ((guarded.map predicateOf).zip as) (as.drop guarded.length).head?) := by
  induction guarded generalizing k with
  | nil => cases default? <;> simp
  | cons b guarded ih =>
    -- what is left to do is part of the statement, so the first option can go into it
    have hrest := fun a => ih fun options default? => k ((predicateOf b, a) :: options) default?
    simp only [List.mapM_cons, Logged.bind_assoc, Logged.bind_done, List.cons_append, hrest]
    simp

/-- At a choice that can still be entered, the transitions that are followed out of it are descended into
one after the other, and what comes of them are the alternatives. -/
theorem arrival_of_choice {visited : List Data} {t : Transition} {target : Node}
    (hnode : scope.machine.node? t.dst = .ok (some target)) (hkind : target.kind = .choice)
    (hnew : ¬ visited.any (fun path => path.same target.path) = true) :
    scope.arrival visited t = (do
      (nameDefault (scope.machine.outgoing target.path (some [.external])) : Except Fault Unit)
      Logged.reports
        (choiceReports target (scope.machine.outgoing target.path (some [.external])))
      let as ← (scope.arms target).mapM (scope.descend (target.path :: visited))
      pure [.choose (((scope.guardedArms target).map predicateOf).zip as)
        (as.drop (scope.guardedArms target).length).head?]) := by
  have harms := mapM_arms (scope.descend (target.path :: visited)) (scope.defaultArm? target)
    (scope.guardedArms target)
    fun options default? => (pure [.choose options default?] : Logged (List Action))
  rw [arms, ← harms]
  simp only [arrival, hnode, hkind, if_neg hnew, Logged.liftM_ok, Logged.bind_done, guardedArms,
    defaultArm?, predicateOf]

/-- What a branch meets where it leads: either all of it is known at once, or it is a choice that can
still be entered. -/
theorem enter_cases (b : Branch) :
    (∃ x : Logged (List Draft),
      (∀ next, scope.enter b next = (do let drafts ← x; pure (drafts, []))) ∧
      ∀ read, scope.arrival b.visited b.transition = (do
        let drafts ← x
        pure (drafts.map (Draft.action read)))) ∨
    ∃ target, scope.machine.node? b.transition.dst = .ok (some target) ∧ target.kind = .choice ∧
      ¬ b.visited.any (fun path => path.same target.path) = true ∧
      (∀ next, scope.enter b next = (do
        let (decision, branches) ← scope.decisionAt target (target.path :: b.visited) next
        pure ([decision], branches))) ∧
      scope.arrival b.visited b.transition = (do
        (nameDefault (scope.machine.outgoing target.path (some [.external])) : Except Fault Unit)
        Logged.reports
          (choiceReports target (scope.machine.outgoing target.path (some [.external])))
        let as ← (scope.arms target).mapM (scope.descend (target.path :: b.visited))
        pure [.choose (((scope.guardedArms target).map predicateOf).zip as)
          (as.drop (scope.guardedArms target).length).head?]) := by
  -- everything but a choice that is new is known at once
  cases hfind : scope.machine.node? b.transition.dst with
  | error e =>
    -- a path that cannot be looked up is a fault on both sides
    refine .inl ⟨Logged.fail e, fun next => ?_, fun read => ?_⟩
    · rw [enter, hfind]; rfl
    · rw [arrival, hfind]; rfl
  | ok found =>
    cases found with
    | none =>
      refine .inl ⟨do
        Logged.report (.destinationMissing b.transition.dst (placeOf b.transition))
        pure [], fun next => ?_, fun read => ?_⟩
      · rw [enter, hfind]; rfl
      · rw [arrival, hfind]; rfl
    | some target =>
      cases hkind : target.kind with
      | state | endState =>
        refine .inl ⟨do
          let stateId ← (identifierAt scope.identifiers target.path : Except Fault String)
          let entry ← Fragment.apart (.entryOf target.path) (target.attr? "Entry")
          pure (.setState stateId :: entry.map .given), fun next => ?_, fun read => ?_⟩
        · simp only [enter, hfind, hkind, Logged.liftM_ok, Logged.bind_done, Logged.bind_assoc]
        · simp only [arrival, hfind, hkind, Logged.liftM_ok, Logged.bind_done, Logged.bind_assoc,
            List.map_cons, Draft.map_action_given, Draft.action]
      | stateMachine | initial =>
        refine .inl ⟨do
          Logged.report (.notEnterable target.kind target.path (placeOf b.transition))
          pure [], fun next => ?_, fun read => ?_⟩
        · simp only [enter, hfind, hkind, Logged.liftM_ok, Logged.bind_done, Logged.bind_assoc]
        · simp only [arrival, hfind, hkind, Logged.liftM_ok, Logged.bind_done, Logged.bind_assoc,
            List.map_nil, placeOf]
      | choice =>
        by_cases hseen : b.visited.any (fun path => path.same target.path) = true
        -- a choice that is entered already is reported and left out
        · refine .inl ⟨do
            Logged.report (.choiceCycle target.path (placeOf b.transition))
            pure [], fun next => ?_, fun read => ?_⟩
          · simp only [enter, hfind, hkind, if_pos hseen, Logged.liftM_ok, Logged.bind_done,
              Logged.bind_assoc]
          · simp only [arrival, hfind, hkind, if_pos hseen, Logged.liftM_ok, Logged.bind_done,
              Logged.bind_assoc, List.map_nil, placeOf]
        -- only here branches are left to be worked off
        · refine .inr ⟨target, rfl, hkind, hseen, fun next => ?_, ?_⟩
          · simp only [enter, hfind, hkind, if_neg hseen, Logged.liftM_ok, Logged.bind_done]
          · exact scope.arrival_of_choice hfind hkind hseen

/-- Read where its lists hold `as`, a decision has the alternatives `as`. -/
theorem read_alternatives {read : Nat → List Action} {next : Nat} {as : List (List Action)}
    (guarded : List Transition) (default? : Option Transition)
    (hread : (List.range' next as.length).map read = as)
    (hlen : as.length = guarded.length + default?.toList.length) :
    ((guarded.zipIdx next).map fun arm => (predicateOf arm.1, arm.2)).map
        (fun o => (o.1, read o.2)) = (guarded.map predicateOf).zip as
      ∧ (default?.map fun _ => next + guarded.length).map read = (as.drop guarded.length).head? := by
  induction guarded generalizing next as with
  | nil =>
    cases default? with
    | none =>
      -- no alternative at all
      obtain rfl : as = [] := List.length_eq_zero_iff.mp (by simpa using hlen)
      simp
    | some t =>
      -- only the default
      obtain ⟨a, rfl⟩ : ∃ a, as = [a] := List.length_eq_one_iff.mp (by simpa using hlen)
      simpa using hread
  | cons b guarded ih =>
    obtain ⟨a, rest, rfl⟩ : ∃ a rest, as = a :: rest := by
      cases as with
      | nil => simp at hlen; omega
      | cons a rest => exact ⟨a, rest, rfl⟩
    rw [List.length_cons, List.range'_succ, List.map_cons, List.cons.injEq] at hread
    have hrest := ih hread.2 (by simp at hlen; omega)
    refine ⟨?_, ?_⟩
    · rw [List.zipIdx_cons, List.map_cons, List.map_cons, List.map_cons, List.zip_cons_cons,
        hrest.1, hread.1]
    · rw [List.length_cons, List.drop_succ_cons, ← hrest.2, Nat.add_right_comm, Nat.add_assoc]

/-! ### The simulation -/

/-- The work on the branch of a transition, on top of any stack, does what `descend` says, and leaves
the branch's list filled. -/
def SimulatesInto (lists : List (List Draft)) (out : Nat) (visited : List Data) (t : Transition) :
    Prop :=
  ∃ (filled : List (List Draft)) (steps : Nat),
    steps ≤ stepBound scope.machine.transitions.length (scope.unvisited visited).length ∧
    (∀ n stack, scope.work (steps + n) ⟨lists, ⟨t, visited, out⟩ :: stack⟩
      = (do let _ ← scope.descend visited t; scope.work n ⟨filled, stack⟩)) ∧
    ∀ actions, (scope.descend visited t).result = .ok actions →
      Filled lists filled out (scope.unvisited visited).length [actions]

/-- It does so into every list that is still empty. -/
def Simulates (visited : List Data) (t : Transition) : Prop :=
  ∀ lists out, lists[out]? = some [] → scope.SimulatesInto lists out visited t

/-- The same for the branches of several transitions, into neighbouring lists. -/
theorem work_branches {visited : List Data} (hsim : ∀ t, scope.Simulates visited t)
    (ts : List Transition) (lists : List (List Draft)) (start : Nat)
    (hholes : ∀ i < ts.length, lists[start + i]? = some []) :
    ∃ (filled : List (List Draft)) (steps : Nat),
      steps ≤ ts.length
        * stepBound scope.machine.transitions.length (scope.unvisited visited).length ∧
      (∀ n stack, scope.work (steps + n) ⟨lists, branchesFrom visited start ts ++ stack⟩
        = (do let _ ← ts.mapM (scope.descend visited); scope.work n ⟨filled, stack⟩)) ∧
      ∀ as, (ts.mapM (scope.descend visited)).result = .ok as →
        Filled lists filled start (scope.unvisited visited).length as := by
  -- along the branches; each of them fills its own list
  induction ts generalizing lists start with
  | nil =>
    refine ⟨lists, 0, by simp, fun n stack => ?_, fun as has => ?_⟩
    · simp [branchesFrom]
    · obtain rfl : [] = as := by simpa using has
      exact .nil lists start _
  | cons t ts ih =>
    have hhole : lists[start]? = some [] := hholes 0 (by simp)
    obtain ⟨mid, k₁, hk₁, hwork₁, hfill₁⟩ := hsim t lists start hhole
    have hstep : ∀ n stack, scope.work (k₁ + n) ⟨lists, branchesFrom visited start (t :: ts) ++ stack⟩
        = (do
          let _ ← scope.descend visited t
          scope.work n ⟨mid, branchesFrom visited (start + 1) ts ++ stack⟩) :=
      fun n stack => hwork₁ n (branchesFrom visited (start + 1) ts ++ stack)
    cases ht : (scope.descend visited t).result with
    | error e =>
      -- the first branch ends everything, so the others take no step
      refine ⟨mid, k₁, ?_, fun n stack => ?_, fun as has => ?_⟩
      · rw [List.length_cons, Nat.add_mul, Nat.one_mul]
        omega
      · rw [hstep, List.mapM_cons, Logged.bind_assoc, Logged.bind_of_error ht,
          Logged.bind_of_error ht]
      · rw [List.mapM_cons, Logged.bind_of_error ht] at has
        cases has
    | ok a =>
      have hfirst := hfill₁ a ht
      have hroom : start + ts.length < lists.length :=
        (List.getElem?_eq_some_iff.mp (hholes ts.length (by simp))).1
      -- the other lists are still empty, since the first branch fills only its own and newer ones
      have hrest : ∀ i < ts.length, mid[start + 1 + i]? = some [] := by
        intro i hi
        rw [hfirst.frame (start + 1 + i) (by omega) (.inr (by simp)), Nat.add_assoc, Nat.add_comm 1]
        exact hholes (i + 1) (by simpa using hi)
      obtain ⟨filled, k₂, hk₂, hwork₂, hfill₂⟩ := ih mid (start + 1) hrest
      refine ⟨filled, k₁ + k₂, ?_, fun n stack => ?_, fun as has => ?_⟩
      · rw [List.length_cons, Nat.add_mul, Nat.one_mul]
        omega
      · rw [Nat.add_assoc, hstep, List.mapM_cons]
        simp only [hwork₂, Logged.bind_assoc, Logged.bind_done]
      · rw [List.mapM_cons] at has
        obtain ⟨a', ha', has⟩ := Logged.bind_eq_ok.mp has
        obtain ⟨rest, hrest', has⟩ := Logged.bind_eq_ok.mp has
        obtain rfl : a = a' := by rw [ht] at ha'; exact Except.ok.inj ha'
        obtain rfl : a :: rest = as := Except.ok.inj has
        have hlen : rest.length = ts.length := Logged.mapM_length hrest'
        exact hfirst.cons (by omega) (hfill₂ rest hrest')

theorem stepBound_pos (width depth : Nat) : 0 < stepBound width depth := by
  cases depth <;> simp only [stepBound] <;> omega

theorem stepBound_mono (width : Nat) {m n : Nat} (h : m ≤ n) :
    stepBound width m ≤ stepBound width n := by
  induction h with
  | refl => exact Nat.le_refl _
  | step _ ih =>
    refine Nat.le_trans ih ?_
    rename_i n _
    -- a machine without transitions needs one step at any depth
    cases width with
    | zero => cases n <;> simp [stepBound]
    | succ w =>
      rw [stepBound.eq_2, Nat.add_mul, Nat.one_mul]
      omega

/-- One step, and those of the branches of a choice, are within the bound where the choice can still be
entered. -/
theorem succ_steps_le {choice : Node} {visited : List Data} {k : Nat}
    (hnext : (scope.unvisited (choice.path :: visited)).length < (scope.unvisited visited).length)
    (hk : k ≤ (scope.arms choice).length * stepBound scope.machine.transitions.length
      (scope.unvisited (choice.path :: visited)).length) :
    k + 1 ≤ stepBound scope.machine.transitions.length (scope.unvisited visited).length := by
  -- a choice that can be entered is one level of the bound
  obtain ⟨m, hm⟩ : ∃ m, (scope.unvisited visited).length = m + 1 :=
    ⟨(scope.unvisited visited).length - 1, by omega⟩
  rw [hm, stepBound]
  have hwide := Nat.mul_le_mul (scope.arms_length_le choice)
    (stepBound_mono scope.machine.transitions.length
      (show (scope.unvisited (choice.path :: visited)).length ≤ m by omega))
  omega

theorem branchesFrom_length (visited : List Data) (next : Nat) (ts : List Transition) :
    (branchesFrom visited next ts).length = ts.length := by
  simp [branchesFrom]

/-- The step for a branch on top of the stack. -/
theorem work_succ (k : Nat) (lists : List (List Draft)) (b : Branch) (stack : List Branch) :
    scope.work (k + 1) ⟨lists, b :: stack⟩ = (do
      (b.transition.requireTitle : Except Fault Unit)
      let own ← Fragment.apart (placeOf b.transition) (b.transition.attr? "Action")
      let (drafts, branches) ← scope.enter b lists.length
      scope.work k (.fill lists stack b (own.map .given ++ drafts) branches)) := by
  simp only [work, expand, Logged.bind_assoc, Logged.bind_done]

/-- A branch from which nothing comes onto the stack fills its list in one step. -/
theorem simulatesInto_of_drafts {lists : List (List Draft)} {out : Nat} {visited : List Data}
    {t : Transition} (hhole : lists[out]? = some []) (here : Logged (List Draft))
    (hwork : ∀ n stack, scope.work (n + 1) ⟨lists, ⟨t, visited, out⟩ :: stack⟩
      = here >>= fun drafts => scope.work n (.fill lists stack ⟨t, visited, out⟩ drafts []))
    (hdescend : ∀ read, scope.descend visited t
      = here >>= fun drafts => pure (drafts.map (Draft.action read))) :
    scope.SimulatesInto lists out visited t := by
  cases hhere : here.result with
  | error e =>
    refine ⟨lists, 1, stepBound_pos _ _, fun n stack => ?_, fun actions hactions => ?_⟩
    · rw [Nat.add_comm, hwork, hdescend fun _ => [], Logged.bind_assoc, Logged.bind_of_error hhere,
        Logged.bind_of_error hhere]
    · rw [hdescend fun _ => [], Logged.bind_of_error hhere] at hactions
      cases hactions
  | ok drafts =>
    refine ⟨lists.modify out (· ++ drafts), 1, stepBound_pos _ _, fun n stack => ?_,
      fun actions hactions => ?_⟩
    · rw [Nat.add_comm, hwork, hdescend fun _ => [], Logged.bind_assoc, Logged.bind_of_ok hhere,
        Logged.bind_of_ok hhere, Logged.bind_done]
      simp only [Workspace.fill, List.length_nil, List.replicate_zero, List.append_nil,
        List.nil_append]
    -- there are no alternatives, so no list is new
    · have hnone : Filled (lists.modify out (· ++ drafts) ++ List.replicate 0 [])
          (lists.modify out (· ++ drafts)) lists.length 0 [] := by
        simpa using Filled.nil (lists.modify out (· ++ drafts)) lists.length 0
      refine Filled.close hhole hnone (.inl rfl) fun read _ => ?_
      rw [hdescend read, Logged.bind_of_ok hhere] at hactions
      exact Except.ok.inj hactions

/-- A branch that ends in a decision fills its list in one step, and the branches of the alternatives
fill theirs. -/
theorem simulatesInto_of_decision {lists : List (List Draft)} {out : Nat} {visited : List Data}
    {t : Transition} {choice : Node} (hhole : lists[out]? = some [])
    (hnext : (scope.unvisited (choice.path :: visited)).length < (scope.unvisited visited).length)
    (hsim : ∀ b, scope.Simulates (choice.path :: visited) b) (here : Logged (List Data))
    (hwork : ∀ n stack, scope.work (n + 1) ⟨lists, ⟨t, visited, out⟩ :: stack⟩
      = here >>= fun own => scope.work n (.fill lists stack ⟨t, visited, out⟩
          (own.map .given ++ [.choose
            (((scope.guardedArms choice).zipIdx lists.length).map fun arm =>
              (predicateOf arm.1, arm.2))
            ((scope.defaultArm? choice).map fun _ =>
              lists.length + (scope.guardedArms choice).length)])
          (branchesFrom (choice.path :: visited) lists.length (scope.arms choice))))
    (hdescend : scope.descend visited t = here >>= fun own => do
      let as ← (scope.arms choice).mapM (scope.descend (choice.path :: visited))
      pure (own.map .given ++ [.choose (((scope.guardedArms choice).map predicateOf).zip as)
        (as.drop (scope.guardedArms choice).length).head?])) :
    scope.SimulatesInto lists out visited t := by
  cases hhere : here.result with
  | error e =>
    -- a fault in one step, before any list is made
    refine ⟨lists, 1, stepBound_pos _ _, fun n stack => ?_, fun actions hactions => ?_⟩
    · rw [Nat.add_comm, hwork, hdescend, Logged.bind_assoc, Logged.bind_of_error hhere,
        Logged.bind_of_error hhere]
    · rw [hdescend, Logged.bind_of_error hhere] at hactions
      cases hactions
  | ok own =>
    -- what goes into the list before any alternative is known
    let drafts : List Draft := own.map .given ++ [.choose
      (((scope.guardedArms choice).zipIdx lists.length).map fun arm => (predicateOf arm.1, arm.2))
      ((scope.defaultArm? choice).map fun _ => lists.length + (scope.guardedArms choice).length)]
    have hholes : ∀ i < (scope.arms choice).length,
        (lists.modify out (· ++ drafts) ++ List.replicate (scope.arms choice).length [])[
          lists.length + i]? = some [] := by
      intro i hi
      rw [List.getElem?_append_right (by simp), List.length_modify, Nat.add_sub_cancel_left,
        List.getElem?_replicate, if_pos hi]
    -- the branches on the stack are worked off before what was there already
    obtain ⟨filled, k, hk, hworks, hfills⟩ :=
      scope.work_branches hsim (scope.arms choice) _ lists.length hholes
    refine ⟨filled, k + 1, ?_, fun n stack => ?_, fun actions hactions => ?_⟩
    · exact scope.succ_steps_le hnext hk
    · rw [Nat.add_right_comm, hwork, hdescend, Logged.bind_assoc, Logged.bind_of_ok hhere,
        Logged.bind_of_ok hhere, Workspace.fill, branchesFrom_length, hworks, Logged.bind_assoc]
      simp only [Logged.bind_done]
    · rw [hdescend, Logged.bind_of_ok hhere] at hactions
      obtain ⟨as, has, hactions⟩ := Logged.bind_eq_ok.mp hactions
      obtain rfl := Except.ok.inj hactions
      -- as many alternatives come out as lists were made for them
      have hlen : as.length = (scope.arms choice).length := Logged.mapM_length has
      have hfilled := hfills as has
      rw [← hlen] at hfilled
      -- reading the list of the branch now gives the decision with its alternatives
      refine Filled.close hhole hfilled (.inr hnext) fun read hread => ?_
      obtain ⟨hoptions, hdefault⟩ := read_alternatives (scope.guardedArms choice)
        (scope.defaultArm? choice) hread (by rw [hlen, arms, List.length_append])
      rw [List.map_append, Draft.map_action_given, List.map_singleton, Draft.action, hoptions,
        hdefault]

/-- **The simulation.** The work on a branch does what the recursion says: its own actions and those
where it leads go into its list, and at a choice the branches that come onto the stack do the rest. -/
theorem simulates (visited : List Data) (t : Transition) : scope.Simulates visited t := by
  -- the induction is that of `descend`: it knows of the branches where a new choice is entered
  refine descend.induct scope scope.Simulates (fun visited t ih lists out hhole => ?_) visited t
  rcases scope.enter_cases ⟨t, visited, out⟩ with
    ⟨x, henter, harrival⟩ | ⟨target, hfind, hkind, hnew, henter, harrival⟩
  · refine scope.simulatesInto_of_drafts hhole (do
      (t.requireTitle : Except Fault Unit)
      let own ← Fragment.apart (placeOf t) (t.attr? "Action")
      let drafts ← x
      pure (own.map .given ++ drafts)) (fun n stack => ?_) fun read => ?_
    · simp only [work_succ, henter, Logged.bind_assoc, Logged.bind_done]
    · simp only [descend_eq, harrival read, Logged.bind_assoc, Logged.bind_done, List.map_append,
        Draft.map_action_given, placeOf]
  · refine scope.simulatesInto_of_decision hhole
      (scope.unvisited_length_lt (Machine.mem_of_node? hfind) hkind hnew) (ih target hfind hkind hnew) (do
        (t.requireTitle : Except Fault Unit)
        let own ← Fragment.apart (placeOf t) (t.attr? "Action")
        (nameDefault (scope.machine.outgoing target.path (some [.external])) : Except Fault Unit)
        Logged.reports
          (choiceReports target (scope.machine.outgoing target.path (some [.external])))
        pure own) (fun n stack => ?_) ?_
    · simp only [work_succ, henter, decisionAt_eq, Logged.bind_assoc, Logged.bind_done]
    · simp only [descend_eq, harrival, Logged.bind_assoc, Logged.bind_done, placeOf]

/-! ### The whole work -/

/-- With the number of steps that is allowed, and with any greater one, the stack is emptied, and list 0
reads as what the recursion gives. -/
theorem work_start (t : Transition) :
    ∃ filled : List (List Draft),
      (∀ n, scope.work (scope.enoughSteps + n) (.start t)
        = (do let _ ← scope.descend [] t; pure ⟨filled, []⟩)) ∧
      ∀ actions, (scope.descend [] t).result = .ok actions →
        actionsAt filled (scope.choiceCount + 1) 0 = actions := by
  obtain ⟨filled, k, hk, hwork, hfill⟩ := scope.simulates [] t [[]] 0 rfl
  have hall : (scope.unvisited []).length = scope.choiceCount := by simp [unvisited, choiceCount]
  rw [hall] at hk hfill
  -- steps that are left over do nothing
  have hdone : ∀ n, scope.work n ⟨filled, []⟩ = pure ⟨filled, []⟩ := by
    intro n
    cases n <;> rfl
  refine ⟨filled, fun n => ?_, fun actions hactions => ?_⟩
  -- the steps needed are among those allowed
  · obtain ⟨m, hm⟩ : ∃ m, scope.enoughSteps + n = k + m :=
      ⟨scope.enoughSteps + n - k, by rw [enoughSteps]; omega⟩
    have hstart := hwork m []
    rw [hdone] at hstart
    rw [hm, ← hstart]
    rfl
  · have hread := (hfill actions hactions).reads filled (scope.choiceCount + 1)
      ⟨fun _ _ _ => rfl, fun _ _ _ => rfl⟩ (Nat.lt_succ_self _)
    exact List.singleton_inj.mp hread

/-- **Resolving is descending.** -/
theorem resolve_eq (t : Transition) : scope.resolve t = scope.descend [] t := by
  obtain ⟨filled, hwork, hread⟩ := scope.work_start t
  have hwork := hwork 0
  rw [Nat.add_zero] at hwork
  rw [resolve, hwork, Logged.bind_assoc]
  -- list 0 is read only where the work has succeeded, and there it holds what the recursion gives
  refine Eq.trans (Logged.bind_congr_ok fun actions hactions => ?_) (Logged.bind_pure_self _)
  rw [Logged.bind_done]
  exact congrArg pure (hread actions hactions)

/-- **The stack computes the recursion.** The work comes to its end by itself (more steps than allowed
would change nothing, and no branch is left over), and it gives what the recursion gives: the actions or
the fault, and the diagnostics in their order. -/
theorem resolve_eq_descend (t : Transition) :
    (∀ n, scope.work (scope.enoughSteps + n) (.start t)
      = scope.work scope.enoughSteps (.start t)) ∧
    (∀ w, (scope.work scope.enoughSteps (.start t)).result = .ok w → w.pending = []) ∧
    scope.resolve t = scope.descend [] t := by
  obtain ⟨filled, hwork, -⟩ := scope.work_start t
  -- both are read off one computation with any number of steps to spare
  have hwork₀ := hwork 0
  rw [Nat.add_zero] at hwork₀
  refine ⟨fun n => ?_, fun w hw => ?_, scope.resolve_eq t⟩
  · rw [hwork n, hwork₀]
  · rw [hwork₀] at hw
    obtain ⟨actions, -, hw⟩ := Logged.bind_eq_ok.mp hw
    obtain rfl := Except.ok.inj hw
    rfl

end Scope

end HomeAutomaton
