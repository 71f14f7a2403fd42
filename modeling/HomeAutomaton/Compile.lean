import HomeAutomaton.Document
import HomeAutomaton.Model.Machine

/-!
# Compiling a model

From a model to its document: the machine is collected, its states get identifiers, and its transitions
become rules. A model without a machine is refused; everything else that is wrong with it is reported
and compiled around.

* `Compiled` holds the machine with what is made of it.
* `Model.compile` compiles a model.
-/

namespace HomeAutomaton

/-- The identifier of the state in which a machine starts, if the machine says so. -/
def initialState? (m : Machine) (identifiers : Table String) : Logged (Option String) :=
  match m.initialTransition? with
  | none => do
    Logged.report .noInitialTransition
    pure none
  | some t => do
    match ← (m.node? t.dst : Except Fault (Option Node)) with
    | some target =>
      if target.isState then
        let stateId ← (identifierAt identifiers target.path : Except Fault String)
        pure (some stateId)
      else
        (t.makeTitle : Except Fault Unit)
        Logged.report (.initialNotState t.title)
        pure none
    | none =>
      (t.makeTitle : Except Fault Unit)
      Logged.report (.initialNotState t.title)
      pure none

/-- A machine with what is made of it. -/
structure Compiled where
  machine : Machine
  identifiers : Table String
  document : Document

/-- What the transitions of the machine are resolved against. -/
def Compiled.scope (c : Compiled) : Scope := { machine := c.machine, identifiers := c.identifiers }

/-- What does not come from the model: the icon of the selector, and how the automation runs. -/
structure Appearance where
  icon : String := defaultIcon
  mode : String := defaultMode

namespace Model

/-- The machine of a model with what is made of it. -/
def compile (model : Model) (appearance : Appearance := {}) : Logged Compiled := do
  let m ← model.machine
  match m.root? with
  | none => Logged.fail .noStateMachine
  | some root =>
    let machineId := root.machineIdentifier
    let identifiers ← identifiersOf m.states
    let initial ← initialState? m identifiers
    let rules ← ({ machine := m, identifiers } : Scope).rules
    Logged.report (.compiled root.name m.states.length rules.length)
    let options ← (m.states.mapM fun s => identifierAt identifiers s.path : Except Fault _)
    pure
      { machine := m
        identifiers
        document :=
          { name := root.name
            machineId
            options
            initial
            icon := appearance.icon
            mode := appearance.mode
            rules } }

/-- What a compiled model is put together from. -/
theorem compile_eq_ok {model : Model} {appearance : Appearance} {c : Compiled} :
    (model.compile appearance).result = .ok c ↔
      model.machine.result = .ok c.machine ∧
      (identifiersOf c.machine.states).result = .ok c.identifiers ∧
      ∃ root initial rules options, c.machine.root? = some root ∧
        (initialState? c.machine c.identifiers).result = .ok initial ∧
        c.scope.rules.result = .ok rules ∧
        (c.machine.states.mapM fun s => identifierAt c.identifiers s.path) = .ok options ∧
        c.document =
          { name := root.name, machineId := root.machineIdentifier, options, initial
            icon := appearance.icon, mode := appearance.mode, rules } := by
  constructor
  · intro h
    obtain ⟨m, hm, h⟩ := Logged.bind_eq_ok.mp h
    cases hroot : m.root? with
    | none => rw [hroot] at h; cases h
    | some root =>
      rw [hroot] at h
      obtain ⟨identifiers, hidentifiers, h⟩ := Logged.bind_eq_ok.mp h
      obtain ⟨initial, hinitial, h⟩ := Logged.bind_eq_ok.mp h
      obtain ⟨rules, hrules, h⟩ := Logged.bind_eq_ok.mp h
      obtain ⟨_, -, h⟩ := Logged.bind_eq_ok.mp h
      obtain ⟨options, hoptions, h⟩ := Logged.bind_eq_ok.mp h
      obtain rfl := Except.ok.inj h
      exact ⟨hm, hidentifiers, root, initial, rules, options, hroot, hinitial, hrules, hoptions, rfl⟩
  · rintro ⟨hm, hidentifiers, root, initial, rules, options, hroot, hinitial, hrules, hoptions,
      hdocument⟩
    refine Logged.bind_eq_ok.mpr ⟨c.machine, hm, ?_⟩
    rw [hroot]
    refine Logged.bind_eq_ok.mpr ⟨c.identifiers, hidentifiers, ?_⟩
    refine Logged.bind_eq_ok.mpr ⟨initial, hinitial, ?_⟩
    refine Logged.bind_eq_ok.mpr ⟨rules, hrules, ?_⟩
    -- the report of the whole always succeeds
    refine Logged.bind_eq_ok.mpr ⟨(), rfl, ?_⟩
    refine Logged.bind_eq_ok.mpr ⟨options, hoptions, ?_⟩
    rw [← hdocument]
    rfl

end Model

end HomeAutomaton
