import HomeAutomaton.Rule.Resolution

/-!
# What a transition does, by recursion

The actions of a transition read off the machine directly: its own, and those at its destination, where
a choice is descended into, the transitions with a guard first. The choices on the way are remembered
and not entered again, so every descent leaves fewer choices to enter.

* `Scope.unvisited` lists the choices that can still be entered.
* `Scope.descend` gives the actions of a transition, given the choices on the way to it.
* `Scope.arrival` gives those at its destination alone; `Scope.descend_eq` says that the transition's own
  come before them, and `Scope.descend_eq_ok` takes a result apart so.
-/

namespace HomeAutomaton.Scope

variable (scope : Scope)

/-- The choices of the machine that are not among those visited. -/
def unvisited (visited : List Data) : List Node :=
  scope.machine.nodes.filter fun n => n.kind == .choice && !visited.any fun path => path.same n.path

/-- One choice more is visited, and one less is left. -/
theorem unvisited_length_lt {visited : List Data} {target : Node}
    (hnode : target ∈ scope.machine.nodes) (hkind : target.kind = .choice)
    (hnew : ¬ visited.any (fun path => path.same target.path) = true) :
    (scope.unvisited (target.path :: visited)).length < (scope.unvisited visited).length := by
  have hmem : target ∈ scope.unvisited visited :=
    List.mem_filter.mpr ⟨hnode, by simp [hkind, hnew]⟩
  -- what is left then is what was left, without the choices at this path
  have hfilter : scope.unvisited (target.path :: visited)
      = (scope.unvisited visited).filter fun n => !target.path.same n.path := by
    simp only [unvisited, List.filter_filter, List.any_cons]
    refine List.filter_congr fun n _ => ?_
    cases n.kind == .choice <;> cases target.path.same n.path <;> simp
  rw [hfilter, List.length_filter_lt_length_iff_exists]
  exact ⟨target, hmem, by simp [Data.same_self]⟩

/-- The first default of a choice with these transitions out of it is named, if there are several. -/
def nameDefault (outgoing : List Transition) : Except Fault Unit :=
  match outgoing.filter fun b => (b.attr? "Guard").isNone with
  | first :: _ :: _ => first.makeTitle
  | _ => .ok ()

/-- What is reported of a choice with these transitions out of it. -/
def choiceReports (choice : Node) (outgoing : List Transition) : List Diagnostic :=
  let unguarded := outgoing.filter fun b => (b.attr? "Guard").isNone
  (if outgoing = [] then [.choiceWithoutExit choice.path] else []) ++
    match unguarded with
    | first :: _ :: _ => [.severalDefaults choice.path unguarded.length first.title]
    | _ => []

/-- The actions of a transition, given the paths of the choices on the way to it. -/
def descend (visited : List Data) (t : Transition) : Logged (List Action) := do
  (t.requireTitle : Except Fault Unit)
  let own ← Fragment.apart (.transition t.title) (t.attr? "Action")
  let there ← (
    match _hfind : scope.machine.node? t.dst with
    | .error e => Logged.fail e
    | .ok none => do
      Logged.report (.destinationMissing t.dst (.transition t.title))
      pure []
    | .ok (some target) =>
      match _hkind : target.kind with
      | .state | .endState => do
        let stateId ← (identifierAt scope.identifiers target.path : Except Fault String)
        let entry ← Fragment.apart (.entryOf target.path) (target.attr? "Entry")
        pure (.setState stateId :: entry.map .given)
      | .choice =>
        if _hnew : visited.any fun path => path.same target.path then do
          Logged.report (.choiceCycle target.path (.transition t.title))
          pure []
        -- arms with a guard in their order, and then the default
        else do
          let outgoing := scope.machine.outgoing target.path (some [.external])
          (nameDefault outgoing : Except Fault Unit)
          Logged.reports (choiceReports target outgoing)
          let options ← (outgoing.filter fun b => (b.attr? "Guard").isSome).mapM fun b => do
            let actions ← descend (target.path :: visited) b
            pure (guardPredicate ((b.attr? "Guard").getD ""), actions)
          let default? ← (outgoing.find? fun b => (b.attr? "Guard").isNone).mapM
            (descend (target.path :: visited))
          pure [.choose options default?]
      | .stateMachine | .initial => do
        Logged.report (.notEnterable target.kind target.path (.transition t.title))
        pure [] : Logged (List Action))
  pure (own.map .given ++ there)
termination_by (scope.unvisited visited).length
decreasing_by
  all_goals exact scope.unvisited_length_lt (Machine.mem_of_node? _hfind) _hkind _hnew

/-- What happens where a transition leads. -/
def arrival (visited : List Data) (t : Transition) : Logged (List Action) := do
  match ← (scope.machine.node? t.dst : Except Fault (Option Node)) with
  | none =>
    Logged.report (.destinationMissing t.dst (.transition t.title))
    pure []
  | some target =>
    match target.kind with
    | .state | .endState =>
      let stateId ← (identifierAt scope.identifiers target.path : Except Fault String)
      let entry ← Fragment.apart (.entryOf target.path) (target.attr? "Entry")
      pure (.setState stateId :: entry.map .given)
    | .choice =>
      if visited.any fun path => path.same target.path then
        Logged.report (.choiceCycle target.path (.transition t.title))
        pure []
      else
        let outgoing := scope.machine.outgoing target.path (some [.external])
        (nameDefault outgoing : Except Fault Unit)
        Logged.reports (choiceReports target outgoing)
        let options ← (outgoing.filter fun b => (b.attr? "Guard").isSome).mapM fun b => do
          let actions ← scope.descend (target.path :: visited) b
          pure (guardPredicate ((b.attr? "Guard").getD ""), actions)
        let default? ← (outgoing.find? fun b => (b.attr? "Guard").isNone).mapM
          (scope.descend (target.path :: visited))
        pure [.choose options default?]
    | .stateMachine | .initial =>
      Logged.report (.notEnterable target.kind target.path (.transition t.title))
      pure []

/-- A transition runs its own action, and then what is done where it leads. -/
theorem descend_eq (visited : List Data) (t : Transition) :
    scope.descend visited t = (do
      (t.requireTitle : Except Fault Unit)
      let own ← Fragment.apart (.transition t.title) (t.attr? "Action")
      let there ← scope.arrival visited t
      pure (own.map .given ++ there)) := by
  rw [descend]
  -- the two differ in the proofs that `descend` needs to end, and nowhere else
  refine bind_congr fun _ => bind_congr fun own => congrArg (· >>= _) ?_
  rw [arrival]
  split
  next e h => rw [h]; rfl
  next h => rw [h]; rfl
  next target h =>
    rw [h, Logged.liftM_ok, Logged.bind_done]
    dsimp only
    split <;> rename_i hkind <;> simp only [hkind]
    split <;> rfl

/-- What is resolved has a title, and the rest goes on from there. -/
theorem descend_of_ok {visited : List Data} {t : Transition} {actions : List Action}
    (h : (scope.descend visited t).result = .ok actions) :
    scope.descend visited t = (do
      let own ← Fragment.apart (.transition t.title) (t.attr? "Action")
      let there ← scope.arrival visited t
      pure (own.map .given ++ there)) := by
  rw [descend_eq] at h ⊢
  obtain ⟨_, htitle, -⟩ := Logged.bind_eq_ok.mp h
  rw [Logged.liftM_result] at htitle
  rw [htitle, Logged.liftM_ok, Logged.bind_done]

/-- What a transition is resolved into are its own actions and those where it leads. -/
theorem descend_eq_ok {visited : List Data} {t : Transition} {actions : List Action}
    (h : (scope.descend visited t).result = .ok actions) :
    ∃ own there, (Fragment.apart (.transition t.title) (t.attr? "Action")).result = .ok own ∧
      (scope.arrival visited t).result = .ok there ∧ actions = own.map .given ++ there := by
  rw [scope.descend_of_ok h] at h
  obtain ⟨own, hown, h⟩ := Logged.bind_eq_ok.mp h
  obtain ⟨there, hthere, h⟩ := Logged.bind_eq_ok.mp h
  exact ⟨own, there, hown, hthere, (Except.ok.inj h).symm⟩

end HomeAutomaton.Scope
