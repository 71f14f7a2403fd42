import HomeAutomaton.Data.Text
import HomeAutomaton.Fault

/-!
# Diagnostics

What is reported while a model is compiled: records that are skipped, fragments that cannot be used,
transitions that lead nowhere. A diagnostic holds what it is about; `Diagnostic.level` says how serious
it is and `Diagnostic.message` puts it into words.

A computation of type `Logged α` gives a result or a fault, and the diagnostics up to that point.
-/

namespace HomeAutomaton

/-- How serious a diagnostic is. -/
inductive Level where
  | debug
  | info
  | warning
  deriving DecidableEq, Repr

/-- The word for a level. -/
def Level.name : Level → String
  | debug => "DEBUG"
  | info => "INFO"
  | warning => "WARNING"

/-- Where an action fragment stands. -/
inductive Place where
  /-- The actions on entering the state at a path. -/
  | entryOf (path : Data)
  /-- The actions on leaving the state at a path. -/
  | exitOf (path : Data)
  /-- The action of a transition, which is named by its path or its ends. -/
  | transition (title : Data)
  /-- A place that is described by a text. -/
  | named (description : String)

/-- The words for a place. -/
def Place.text : Place → String
  | entryOf path => "entry of '" ++ path.text ++ "'"
  | exitOf path => "exit of '" ++ path.text ++ "'"
  | transition title => "transition '" ++ title.text ++ "'"
  | named description => description

/-- The words that say where something is, if that is known. -/
def locationText (place : Option Place) : String :=
  match place with
  | none => ""
  | some place => if place.text = "" then "" else " in " ++ place.text

/-- Something that is reported. -/
inductive Diagnostic where
  /-- A node record has no path. -/
  | nodeWithoutPath (kind : NodeKind)
  /-- A record of the table of objects is neither a node nor a transition. -/
  | recordIgnored (key type : Data)
  /-- The model is indexed. -/
  | indexed (nodes transitions : Nat)
  /-- Another state has the identifier that a state would get. -/
  | identifierTaken (base : String) (path : Data) (identifier : String)
  /-- An action fragment is not a text but a value of another type. -/
  | fragmentNotText (place : Option Place) (typeName : String)
  /-- An action fragment is not well formed. -/
  | fragmentMalformed (place : Option Place) (fragment : String)
  /-- An action fragment is well formed and holds neither an action nor a list of actions. -/
  | fragmentNotActions (place : Option Place) (typeName fragment : String)
  /-- A transition leads to a path without a node. -/
  | destinationMissing (destination : Data) (place : Place)
  /-- A transition leads to a choice that it comes from. -/
  | choiceCycle (path : Data) (place : Place)
  /-- A transition leads to a node of a kind that cannot be entered. -/
  | notEnterable (kind : NodeKind) (path : Data) (place : Place)
  /-- Nothing leads out of a choice. -/
  | choiceWithoutExit (path : Data)
  /-- More than one transition out of a choice has no guard. -/
  | severalDefaults (path : Data) (count : Nat) (first : Data)
  /-- A rule would run no actions. -/
  | ruleDropped (state event : String)
  /-- Nothing says where the machine starts. -/
  | noInitialTransition
  /-- What says where the machine starts does not lead to a state. -/
  | initialNotState (title : Data)
  /-- The model is compiled. -/
  | compiled (name : String) (states rules : Nat)
  /-- The model is exported for debugging. -/
  | savingModel (format : String)

namespace Diagnostic

/-- How serious the diagnostic is. -/
def level : Diagnostic → Level
  | recordIgnored .. | indexed .. | ruleDropped .. => .debug
  | compiled .. | savingModel _ => .info
  | _ => .warning

/-- The diagnostic in words. What is wrong with a fragment that is not well formed is said in the words of the
library that reads YAML. They are not modelled: `<yaml error>` stands in their place. -/
def message : Diagnostic → String
  | nodeWithoutPath kind => "Skipping " ++ kind.name ++ " node without a path"
  | recordIgnored key type => "Ignoring record '" ++ key.text ++ "' of type " ++ type.shown
  | indexed nodes transitions =>
    "Indexed " ++ Text.decimal nodes ++ " nodes and " ++ Text.decimal transitions ++ " transitions"
  | identifierTaken base path identifier =>
    "State id '" ++ base ++ "' of '" ++ path.text ++ "' is already taken, using '" ++ identifier ++
      "'"
  | fragmentNotText place typeName =>
    "Action fragment" ++ locationText place ++ " is not text (" ++ typeName ++ "), ignoring it"
  | fragmentMalformed place fragment =>
    "Could not parse action fragment" ++ locationText place ++ ": <yaml error>. Content: " ++
      Text.quoted fragment
  | fragmentNotActions place typeName fragment =>
    "Action fragment" ++ locationText place ++ " parsed to a " ++ typeName ++
      ", not an action or list of actions: " ++ Text.quoted fragment
  | destinationMissing destination place =>
    "Destination '" ++ destination.text ++ "' of " ++ place.text ++
      " not found in model, no state change generated"
  | choiceCycle path place =>
    "Choice cycle detected at '" ++ path.text ++ "' (reached again from " ++ place.text ++
      "), resolution stopped"
  | notEnterable kind path place =>
    kind.name ++ " node '" ++ path.text ++ "' targeted by " ++ place.text ++ " cannot be entered"
  | choiceWithoutExit path => "Choice '" ++ path.text ++ "' has no outgoing transitions"
  | severalDefaults path count first =>
    "Choice '" ++ path.text ++ "' has " ++ Text.decimal count ++
      " unguarded transitions, using '" ++ first.text ++ "' as default"
  | ruleDropped state event => "Dropping rule " ++ state ++ "/" ++ event ++ ": no actions"
  | noInitialTransition =>
    "No initial transition found, the state selector gets no initial value"
  | initialNotState title =>
    "Initial transition '" ++ title.text ++
      "' does not lead to a state, the state selector gets no initial value"
  | compiled name states rules =>
    "Compiled '" ++ name ++ "': " ++ Text.decimal states ++ " states, " ++ Text.decimal rules ++
      " rules"
  | savingModel format => "Saving input model as " ++ format ++ " for debugging"

/-- Level and message. -/
def line (d : Diagnostic) : String := d.level.name ++ " " ++ d.message

end Diagnostic

/-- A result or a fault, and what was reported up to that point. -/
structure Logged (α : Type) where
  result : Except Fault α
  log : List Diagnostic := []

namespace Logged

variable {α β : Type}

/-- A result without a report. -/
def done (a : α) : Logged α := ⟨.ok a, []⟩

/-- One computation after the other. After a fault nothing more happens. -/
def andThen (x : Logged α) (f : α → Logged β) : Logged β :=
  match x.result with
  | .ok a => ⟨(f a).result, x.log ++ (f a).log⟩
  | .error e => ⟨.error e, x.log⟩

instance : Monad Logged where
  pure := done
  bind := andThen

/-- Something is reported. -/
def report (d : Diagnostic) : Logged Unit := ⟨.ok (), [d]⟩

/-- Several things are reported. -/
def reports (ds : List Diagnostic) : Logged Unit := ⟨.ok (), ds⟩

/-- There is no result. -/
def fail (e : Fault) : Logged α := ⟨.error e, []⟩

/-- A result or a fault without a report. -/
def ofExcept (x : Except Fault α) : Logged α := ⟨x, []⟩

instance : MonadLift (Except Fault) Logged where
  monadLift := ofExcept

/-- The computation, with more reported before it. -/
def after (log : List Diagnostic) (x : Logged α) : Logged α := ⟨x.result, log ++ x.log⟩

@[ext] theorem ext {x y : Logged α} (hresult : x.result = y.result) (hlog : x.log = y.log) :
    x = y := by
  cases x
  cases y
  cases hresult
  cases hlog
  rfl

@[simp] theorem pure_result (a : α) : (pure a : Logged α).result = .ok a := rfl

@[simp] theorem pure_log (a : α) : (pure a : Logged α).log = [] := rfl

@[simp] theorem after_result (log : List Diagnostic) (x : Logged α) :
    (after log x).result = x.result := rfl

@[simp] theorem after_log (log : List Diagnostic) (x : Logged α) :
    (after log x).log = log ++ x.log := rfl

/-- What follows a computation with a result starts from the result. -/
theorem bind_of_ok {x : Logged α} {a : α} (h : x.result = .ok a) (f : α → Logged β) :
    (x >>= f) = after x.log (f a) := by
  change andThen x f = _
  rw [andThen, h]
  rfl

/-- Nothing follows a fault. -/
theorem bind_of_error {x : Logged α} {e : Fault} (h : x.result = .error e) (f : α → Logged β) :
    (x >>= f) = ⟨.error e, x.log⟩ := by
  change andThen x f = _
  rw [andThen, h]

@[simp] theorem bind_done (a : α) (f : α → Logged β) : (pure a >>= f) = f a := by
  change andThen (done a) f = f a
  simp [andThen, done]

@[simp] theorem bind_assoc {γ : Type} (x : Logged α) (f : α → Logged β) (g : β → Logged γ) :
    (x >>= f >>= g) = (x >>= fun a => f a >>= g) := by
  -- a fault in the first or in the second ends both sides with the same log
  change andThen (andThen x f) g = andThen x fun a => andThen (f a) g
  unfold andThen
  cases hx : x.result with
  | error e => simp
  | ok a => cases hf : (f a).result <;> simp [hf, List.append_assoc]

@[simp] theorem bind_pure_self (x : Logged α) : (x >>= pure) = x := by
  cases hx : x.result with
  | error e => exact Logged.ext (by rw [bind_of_error hx, hx]) (by rw [bind_of_error hx])
  | ok a => exact Logged.ext (by rw [bind_of_ok hx, hx]; rfl) (by rw [bind_of_ok hx]; simp)

instance : LawfulMonad Logged :=
  LawfulMonad.mk' Logged bind_pure_self bind_done bind_assoc

/-- A computation with a result has one at every step. -/
theorem bind_eq_ok {x : Logged α} {f : α → Logged β} {b : β} :
    (x >>= f).result = .ok b ↔ ∃ a, x.result = .ok a ∧ (f a).result = .ok b := by
  cases hx : x.result with
  | error e => simp [bind_of_error hx]
  | ok a => simp [bind_of_ok hx]

/-- Two computations that start in the same way are the same if they go on in the same way from every
result that is reached. -/
theorem bind_congr_ok {x : Logged α} {f g : α → Logged β}
    (h : ∀ a, x.result = .ok a → f a = g a) : (x >>= f) = (x >>= g) := by
  cases hx : x.result with
  | error e => rw [bind_of_error hx, bind_of_error hx]
  | ok a => rw [bind_of_ok hx, bind_of_ok hx, h a hx]

/-- A computation for every item gives as many results as there are items. -/
theorem mapM_length {f : α → Logged β} {as : List α} {bs : List β}
    (h : (as.mapM f).result = .ok bs) : bs.length = as.length := by
  induction as generalizing bs with
  | nil =>
    obtain rfl : [] = bs := by simpa using h
    rfl
  | cons a as ih =>
    rw [List.mapM_cons] at h
    obtain ⟨b, _, h⟩ := bind_eq_ok.mp h
    obtain ⟨rest, hrest, h⟩ := bind_eq_ok.mp h
    obtain rfl : b :: rest = bs := Except.ok.inj h
    rw [List.length_cons, List.length_cons, ih hrest]

/-- Every result comes from an item, and every item has a result. -/
theorem mapM_mem {f : α → Logged β} {as : List α} {bs : List β} (h : (as.mapM f).result = .ok bs) :
    (∀ b ∈ bs, ∃ a ∈ as, (f a).result = .ok b) ∧ ∀ a ∈ as, ∃ b ∈ bs, (f a).result = .ok b := by
  induction as generalizing bs with
  | nil =>
    obtain rfl : [] = bs := by simpa using h
    exact ⟨fun _ hb => absurd hb List.not_mem_nil, fun _ ha => absurd ha List.not_mem_nil⟩
  | cons a as ih =>
    rw [List.mapM_cons] at h
    obtain ⟨b, hb, h⟩ := bind_eq_ok.mp h
    obtain ⟨rest, hrest, h⟩ := bind_eq_ok.mp h
    obtain rfl : b :: rest = bs := Except.ok.inj h
    obtain ⟨hfrom, hto⟩ := ih hrest
    refine ⟨fun b' hb' => ?_, fun a' ha' => ?_⟩
    · rcases List.mem_cons.mp hb' with rfl | hb'
      · exact ⟨a, List.mem_cons_self, hb⟩
      · obtain ⟨a', ha', hresult⟩ := hfrom b' hb'
        exact ⟨a', List.mem_cons_of_mem a ha', hresult⟩
    · rcases List.mem_cons.mp ha' with rfl | ha'
      · exact ⟨b, List.mem_cons_self, hb⟩
      · obtain ⟨b', hb', hresult⟩ := hto a' ha'
        exact ⟨b', List.mem_cons_of_mem b hb', hresult⟩

@[simp] theorem liftM_result (x : Except Fault α) : (liftM x : Logged α).result = x := rfl

@[simp] theorem liftM_log (x : Except Fault α) : (liftM x : Logged α).log = [] := rfl

@[simp] theorem liftM_ok (a : α) : (liftM (.ok a : Except Fault α) : Logged α) = pure a := rfl

@[simp] theorem liftM_error (e : Fault) :
    (liftM (.error e : Except Fault α) : Logged α) = fail e := rfl

@[simp] theorem fail_bind (e : Fault) (f : α → Logged β) : (fail e >>= f) = fail e := rfl

@[simp] theorem report_result (d : Diagnostic) : (report d).result = .ok () := rfl

@[simp] theorem report_log (d : Diagnostic) : (report d).log = [d] := rfl

@[simp] theorem reports_result (ds : List Diagnostic) : (reports ds).result = .ok () := rfl

@[simp] theorem reports_log (ds : List Diagnostic) : (reports ds).log = ds := rfl

@[simp] theorem fail_result (e : Fault) : (fail e : Logged α).result = .error e := rfl

@[simp] theorem fail_log (e : Fault) : (fail e : Logged α).log = [] := rfl

end Logged

end HomeAutomaton
