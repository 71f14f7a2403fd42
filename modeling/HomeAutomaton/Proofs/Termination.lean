import HomeAutomaton.Proofs.Origin

/-!
# Resolution ends

A choice can lead back to itself, over other choices or at once, and the same choice can be entered on
many branches; so a step of the work on a stack of branches may put more branches onto it than it takes
off. What gets less is not their number. Every branch can be given the number of steps that it may take,
which depends on the choices it can still enter alone, and a step costs more than all the branches that
come out of it (`Scope.load_lt_of_expand`).

For the same reason decisions inside one another are made at different choices, so they are no deeper
inside one another than there are choices in the machine.

* `Scope.work_finishes` empties every stack.
* `Scope.freshChoices_of_leads` is about the choices on the way to a decision.
* `Scope.listDepth_le` bounds the depth of decisions.
* `Scope.resolution_ends` is the result.
-/

namespace HomeAutomaton

namespace Action

mutual

/-- How deep decisions are inside one another in an action. -/
def depth : Action → Nat
  | given _ | setState _ => 0
  | choose options default? => 1 + max (optionsDepth options) (defaultDepth default?)

/-- How deep they are in a list of actions. -/
def listDepth : List Action → Nat
  | [] => 0
  | a :: rest => max (depth a) (listDepth rest)

/-- How deep they are in alternatives. -/
def optionsDepth : List (String × List Action) → Nat
  | [] => 0
  | (_, actions) :: rest => max (listDepth actions) (optionsDepth rest)

/-- How deep they are in a default, if there is one. -/
def defaultDepth : Option (List Action) → Nat
  | none => 0
  | some actions => listDepth actions

end

theorem listDepth_le {actions : List Action} {n : Nat} (h : ∀ a ∈ actions, a.depth ≤ n) :
    listDepth actions ≤ n := by
  induction actions with
  | nil => exact Nat.zero_le n
  | cons a rest ih =>
    obtain ⟨ha, hrest⟩ := List.forall_mem_cons.mp h
    rw [listDepth]
    exact Nat.max_le.mpr ⟨ha, ih hrest⟩

theorem optionsDepth_le {options : List (String × List Action)} {n : Nat}
    (h : ∀ o ∈ options, listDepth o.2 ≤ n) : optionsDepth options ≤ n := by
  induction options with
  | nil => exact Nat.zero_le n
  | cons o rest ih =>
    obtain ⟨ho, hrest⟩ := List.forall_mem_cons.mp h
    rw [optionsDepth]
    exact Nat.max_le.mpr ⟨ho, ih hrest⟩

end Action

namespace Scope

variable {scope : Scope}

/-! ### The stack -/

/-- The number of steps that branches may take together. -/
def load (scope : Scope) : List Branch → Nat
  | [] => 0
  | b :: stack =>
    stepBound scope.machine.transitions.length (scope.unvisited b.visited).length + load scope stack

/-- Two stacks cost what both cost. -/
theorem load_append (branches stack : List Branch) :
    scope.load (branches ++ stack) = scope.load branches + scope.load stack := by
  induction branches with
  | nil => rw [List.nil_append, load, Nat.zero_add]
  | cons b branches ih => rw [List.cons_append, load, load, ih, Nat.add_assoc]

/-- Branches with the same choices on the way cost the same. -/
theorem load_branchesFrom (visited : List Data) (next : Nat) (ts : List Transition) :
    scope.load (branchesFrom visited next ts)
      = ts.length * stepBound scope.machine.transitions.length (scope.unvisited visited).length := by
  induction ts generalizing next with
  | nil => simp [branchesFrom, load]
  | cons t ts ih =>
    have hcons : branchesFrom visited next (t :: ts)
        = { transition := t, visited, out := next } :: branchesFrom visited (next + 1) ts := by
      simp [branchesFrom, List.zipIdx_cons]
    rw [hcons, load, ih, List.length_cons, Nat.add_mul, Nat.one_mul, Nat.add_comm]

/-- **The step.** The branches that come out of a branch cost less than it. -/
theorem load_lt_of_expand {b : Branch} {next : Nat} {drafts : List Draft} {branches : List Branch}
    (h : (scope.expand b next).result = .ok (drafts, branches)) :
    scope.load branches
      < stepBound scope.machine.transitions.length (scope.unvisited b.visited).length := by
  -- the words for the place are made, and the fragment of the transition is read
  obtain ⟨_, -, h⟩ := Logged.bind_eq_ok.mp h
  obtain ⟨own, -, h⟩ := Logged.bind_eq_ok.mp h
  obtain ⟨⟨there, arms⟩, henter, h⟩ := Logged.bind_eq_ok.mp h
  obtain ⟨-, rfl⟩ := Prod.mk.inj (Except.ok.inj h)
  rcases scope.enter_cases b with ⟨x, hx, -⟩ | ⟨target, hfind, hkind, hnew, hx, -⟩
  -- nothing comes out of a branch that ends here
  · rw [hx] at henter
    obtain ⟨_, -, henter⟩ := Logged.bind_eq_ok.mp henter
    obtain ⟨-, rfl⟩ := Prod.mk.inj (Except.ok.inj henter)
    exact stepBound_pos _ _
  -- the branches out of a choice have one choice less to enter
  · rw [hx, decisionAt_eq] at henter
    obtain ⟨⟨decision, arms'⟩, hdecision, henter⟩ := Logged.bind_eq_ok.mp henter
    obtain ⟨-, rfl⟩ := Prod.mk.inj (Except.ok.inj henter)
    obtain ⟨_, -, hdecision⟩ := Logged.bind_eq_ok.mp hdecision
    obtain ⟨_, -, hdecision⟩ := Logged.bind_eq_ok.mp hdecision
    obtain ⟨-, rfl⟩ := Prod.mk.inj (Except.ok.inj hdecision)
    rw [load_branchesFrom]
    exact scope.succ_steps_le
      (scope.unvisited_length_lt (Machine.mem_of_node? hfind) hkind hnew) (Nat.le_refl _)

/-- With as many steps as its branches may take, the stack of any workspace is emptied, and more steps
change nothing. -/
theorem work_finishes {k : Nat} {w : Workspace} (hload : scope.load w.pending ≤ k) :
    (∀ n, scope.work (k + n) w = scope.work k w) ∧
      ∀ done, (scope.work k w).result = .ok done → done.pending = [] := by
  -- on the number of steps, which is no less than what the branches may take
  induction k generalizing w with
  | zero =>
    obtain ⟨lists, pending⟩ := w
    cases pending with
    | nil =>
      refine ⟨fun n => ?_, fun done hdone => ?_⟩
      · cases n <;> rfl
      · obtain rfl := Except.ok.inj hdone
        rfl
    | cons b stack =>
      -- a branch may always take a step, so some steps are left
      have hpos := stepBound_pos scope.machine.transitions.length (scope.unvisited b.visited).length
      rw [load] at hload
      omega
  | succ k ih =>
    obtain ⟨lists, pending⟩ := w
    cases pending with
    | nil =>
      refine ⟨fun n => ?_, fun done hdone => ?_⟩
      · rw [Nat.add_right_comm]
        rfl
      · obtain rfl := Except.ok.inj hdone
        rfl
    | cons b stack =>
      -- a step that succeeds leaves a stack that fewer steps suffice for
      have hrest : ∀ drafts branches,
          (scope.expand b lists.length).result = .ok (drafts, branches) →
          scope.load (Workspace.fill lists stack b drafts branches).pending ≤ k := by
        intro drafts branches hexpand
        have hlt := load_lt_of_expand hexpand
        rw [load] at hload
        rw [Workspace.fill, load_append]
        omega
      refine ⟨fun n => ?_, fun done hdone => ?_⟩
      · rw [Nat.add_right_comm]
        refine Logged.bind_congr_ok fun expanded hexpand => ?_
        exact (ih (hrest expanded.1 expanded.2 hexpand)).1 n
      · obtain ⟨⟨drafts, branches⟩, hexpand, hdone⟩ := Logged.bind_eq_ok.mp hdone
        exact (ih (hrest drafts branches hexpand)).2 done hdone

/-- The start has the steps that are allowed. -/
theorem load_start (t : Transition) :
    scope.load (Workspace.start t).pending = scope.enoughSteps := by
  have hall : (scope.unvisited []).length = scope.choiceCount := by simp [unvisited, choiceCount]
  simp [Workspace.start, load, enoughSteps, hall]

/-! ### Decisions inside one another -/

/-- The nodes are choices of the machine that are still to be entered, and all different. -/
structure FreshChoices (scope : Scope) (visited : List Data) (choices : List Node) : Prop where
  nodes : ∀ n ∈ choices, n ∈ scope.machine.nodes ∧ n.kind = .choice
  new : ∀ n ∈ choices, ¬ visited.any (fun path => path.same n.path) = true
  distinct : DistinctPaths choices

/-- A choice at which a decision is made, and those that are fresh after it, are fresh before it. -/
theorem FreshChoices.cons {visited : List Data} {choice : Node} {choices : List Node}
    {options : List (String × List Action)} {default? : Option (List Action)}
    (hdecided : scope.DecidedAt visited choice options default?)
    (h : scope.FreshChoices (choice.path :: visited) choices) :
    scope.FreshChoices visited (choice :: choices) where
  nodes := List.forall_mem_cons.mpr ⟨⟨hdecided.node, hdecided.kind⟩, h.nodes⟩
  new := by
    refine List.forall_mem_cons.mpr ⟨hdecided.new, fun n hn hold => h.new n hn ?_⟩
    rw [List.any_cons, hold, Bool.or_true]
  distinct := by
    refine List.pairwise_cons.mpr ⟨fun n hn => ?_, h.distinct⟩
    have hnew := h.new n hn
    rw [List.any_cons, Bool.or_eq_true, not_or, Bool.not_eq_true] at hnew
    exact hnew.1

/-- The choices on the way to a decision, and the one that it is made at, are fresh. -/
theorem freshChoices_of_leads (before : List Data) {visited : List Data} {t last : Transition}
    {resolved inner : List Action} {turns : List Turn} {options : List (String × List Action)}
    {default? : Option (List Action)} {choice : Node}
    (h : (scope.descend visited t).result = .ok resolved)
    (hleads : scope.Leads t (before.map .given ++ resolved) turns last inner)
    (hmem : .choose options default? ∈ inner) (hfind : scope.machine.find? last.dst = some choice) :
    scope.FreshChoices visited (turns.map (·.choice) ++ [choice]) := by
  generalize hactions : before.map .given ++ resolved = actions at hleads
  -- down the tree; at each turn the choice is new, and visited from then on
  induction hleads generalizing visited before resolved with
  | here t actions =>
    obtain ⟨choice', hfind', hdecided⟩ := decidedAt_of_choose before h (hactions ▸ hmem)
    obtain rfl := Option.some.inj (hfind.symm.trans hfind')
    refine FreshChoices.cons hdecided ⟨?_, ?_, List.Pairwise.nil⟩ <;>
      exact fun n hn => absurd hn List.not_mem_nil
  | option hto hdecision hb harm _ ih =>
    obtain ⟨choice', hto', hdecided⟩ := decidedAt_of_choose before h (hactions ▸ hdecision)
    obtain rfl := Option.some.inj (hto.symm.trans hto')
    exact .cons hdecided (ih [] (hdecided.option hb harm).2 hmem hfind rfl)
  | default hto hdecision hb _ ih =>
    obtain ⟨choice', hto', hdecided⟩ := decidedAt_of_choose before h (hactions ▸ hdecision)
    obtain rfl := Option.some.inj (hto.symm.trans hto')
    exact .cons hdecided (ih [] (hdecided.of_default hb) hmem hfind rfl)

/-- Decisions are no deeper inside one another than there are choices left to enter. -/
theorem listDepth_le {visited : List Data} {t : Transition} {resolved : List Action}
    (h : (scope.descend visited t).result = .ok resolved) :
    Action.listDepth resolved ≤ (scope.unvisited visited).length := by
  -- the induction is on the choices that are left
  generalize hn : (scope.unvisited visited).length = n
  induction n using Nat.strong_induction_on generalizing visited t resolved with
  | h n ih =>
    refine Action.listDepth_le fun a ha => ?_
    cases a with
    | given d => exact Nat.zero_le n
    | setState stateId => exact Nat.zero_le n
    | choose options default? =>
      obtain ⟨choice, -, hdecided⟩ := decidedAt_of_choose [] h ha
      have hlt := hdecided.unvisited_lt
      rw [hn] at hlt
      -- an alternative has one choice less to enter
      have hinner : ∀ b arm, (scope.descend (choice.path :: visited) b).result = .ok arm →
          Action.listDepth arm ≤ (scope.unvisited (choice.path :: visited)).length :=
        fun b arm harm => ih _ hlt harm rfl
      have hoptions : Action.optionsDepth options ≤ n - 1 := by
        refine Action.optionsDepth_le fun o ho => ?_
        obtain ⟨i, hi, rfl⟩ := List.mem_iff_getElem.mp ho
        have hi' : i < (scope.guardedArms choice).length := by
          rwa [hdecided.alternatives.length_eq]
        have harm := (hdecided.option (List.getElem?_eq_getElem hi') (List.getElem?_eq_getElem hi)).2
        exact Nat.le_sub_one_of_lt (Nat.lt_of_le_of_lt (hinner _ _ harm) hlt)
      have hdefault : Action.defaultDepth default? ≤ n - 1 := by
        cases default? with
        | none => exact Nat.zero_le _
        | some arm =>
          cases hb : scope.defaultArm? choice with
          | none =>
            have hnone := hdecided.default
            rw [hb] at hnone
            cases hnone
          | some b =>
            exact Nat.le_sub_one_of_lt
              (Nat.lt_of_le_of_lt (hinner _ _ (hdecided.of_default hb)) hlt)
      -- the decision itself is one deeper than its alternatives
      rw [Action.depth]
      omega

/-! ### The result -/

/-- **Resolution ends.** Whatever the choices and the transitions between them, a stack of any branches is
empty after finitely many steps, those of a transition that is resolved among them. In what comes out,
every decision, at any depth, is made at the choice that its transition leads to; the choices of decisions
inside one another are different, so there are no more of these than the machine has choices. -/
theorem resolution_ends (scope : Scope) (t : Transition) :
    (∀ w : Workspace,
      (∀ n, scope.work (scope.load w.pending + n) w = scope.work (scope.load w.pending) w) ∧
      ∀ done, (scope.work (scope.load w.pending) w).result = .ok done → done.pending = []) ∧
    scope.load (Workspace.start t).pending = scope.enoughSteps ∧
    ∀ actions, (scope.resolve t).result = .ok actions →
      (∀ predicates inner options default?, Action.Inside actions predicates inner →
        .choose options default? ∈ inner →
          ∃ turns last choice, scope.Leads t actions turns last inner ∧
            turns.map (·.predicate?) = predicates ∧ scope.machine.find? last.dst = some choice) ∧
      (∀ turns last inner options default? choice, scope.Leads t actions turns last inner →
        .choose options default? ∈ inner → scope.machine.find? last.dst = some choice →
          (∀ n ∈ turns.map (·.choice) ++ [choice], n ∈ scope.machine.nodes ∧ n.kind = .choice) ∧
          DistinctPaths (turns.map (·.choice) ++ [choice])) ∧
      Action.listDepth actions ≤ scope.choiceCount := by
  refine ⟨fun w => work_finishes (Nat.le_refl _), load_start t, fun actions hactions => ?_⟩
  rw [resolve_eq] at hactions
  refine ⟨fun predicates inner options default? hinside hmem => ?_,
    fun turns last inner options default? choice hleads hmem hfind => ?_, ?_⟩
  · obtain ⟨turns, last, hleads, hpredicates⟩ :=
      exists_leads_of_inside [] hactions hinside
    -- the list is what its transition is resolved into, so the decision in it has a choice
    obtain ⟨before, resolved, rfl, hresolved⟩ := leads_of_descend [] hactions hleads
    obtain ⟨choice, hfind, -⟩ := decidedAt_of_choose before hresolved hmem
    exact ⟨turns, last, choice, hleads, hpredicates, hfind⟩
  · have hfresh := freshChoices_of_leads [] hactions hleads hmem hfind
    exact ⟨hfresh.nodes, hfresh.distinct⟩
  · have hall : (scope.unvisited []).length = scope.choiceCount := by simp [unvisited, choiceCount]
    rw [← hall]
    exact listDepth_le hactions

end Scope

end HomeAutomaton
