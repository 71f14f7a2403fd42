import HomeAutomaton.Fragment
import HomeAutomaton.Proofs.ScalarFaults

/-!
# How reading a fragment ends

A fragment that is not well formed is reported, and there are no actions. But a text can be well formed and
have no value all the same, since a scalar in it looks like a date, or is to be a number, that there is not, or
since a mapping that is meant as a scalar leads round in a circle. Such a fragment is not reported, and reading
it fails. The depth to which calls can be nested is taken as unlimited: brackets in brackets are read however
many there are.

* `Fragment.Breaks` says that reading a fragment fails, and why.
* `Fragment.read_returns_iff` is the result. `Fragment.date_breaks` is a fragment with a date that does not exist.
-/

namespace HomeAutomaton.Fragment

open Yaml

variable {place : Option Place} {text : String} {cause : LoadError}

/-- The fragment is a text that is not blank and not malformed, and has no value for this reason. -/
def Breaks (d : Data) (cause : LoadError) : Prop :=
  ∃ text, d = .str text ∧ Text.isBlankText text = false ∧ Model.ofYaml text = .error cause ∧
    cause ≠ .malformed

/-- The fragment is reported as one that cannot be parsed, and its text is quoted. -/
def Quotes (text : String) (log : List Diagnostic) : Prop :=
  ∃ report, log = [report] ∧ report.level = .warning ∧ ∃ start, report.message = start ++ Text.quoted text

/-- A blank text has no actions. -/
theorem read_of_blank (h : Text.isBlankText text = true) : read place (.str text) = pure {} := by
  rw [read, ofText, if_pos h]

/-- A text with a value is taken for its value. -/
theorem read_of_ok {m : Model} (hblank : Text.isBlankText text = false) (h : Model.ofYaml text = .ok m) :
    read place (.str text) = ofModel place text m := by
  rw [read, ofText, hblank, h]
  rfl

/-- A malformed text is reported. -/
theorem read_of_malformed (hblank : Text.isBlankText text = false)
    (h : Model.ofYaml text = .error .malformed) :
    read place (.str text) = ⟨.ok {}, [.fragmentMalformed place text]⟩ := by
  rw [read, ofText, hblank, h]
  rfl

/-- A text without a value that is not malformed is not. -/
theorem read_of_breaks {d : Data} (h : Breaks d cause) : read place d = ⟨.error (.fragment cause), []⟩ := by
  obtain ⟨text, rfl, hblank, hcause, hne⟩ := h
  rw [read, ofText, hblank, hcause]
  cases cause with
  | malformed => exact absurd rfl hne
  | _ => rfl

/-- Every value is used for actions, or reported. -/
theorem exists_ofModel (place : Option Place) (text : String) (m : Model) :
    ∃ actions, (ofModel place text m).result = .ok actions := by
  rw [ofModel]
  split
  all_goals exact ⟨_, rfl⟩

/-- The report ends with the text between quotes. -/
theorem quotes_malformed (place : Option Place) (text : String) :
    Quotes text [.fragmentMalformed place text] :=
  ⟨_, rfl, rfl, _, rfl⟩

/-- **Nothing else breaks the reading.** -/
theorem exists_result_of_not_breaks {d : Data} (hnone : ∀ cause, ¬ Breaks d cause) :
    ∃ actions, (read place d).result = .ok actions := by
  cases d with
  -- anything but a text is reported by its type
  | str text =>
    cases hblank : Text.isBlankText text with
    | true =>
      rw [read_of_blank hblank]
      exact ⟨_, rfl⟩
    | false =>
      cases hvalue : Model.ofYaml text with
      | ok m =>
        rw [read_of_ok hblank hvalue]
        exact exists_ofModel place text m
      | error cause =>
        obtain rfl : cause = .malformed :=
          Decidable.of_not_not fun hne => hnone cause ⟨text, rfl, hblank, hvalue, hne⟩
        rw [read_of_malformed hblank hvalue]
        exact ⟨_, rfl⟩
  | _ => exact ⟨_, rfl⟩

/-- If there are actions for a text without a value, the text is blank or malformed. -/
theorem quotes_of_no_value {actions : Actions} (hnone : ∀ m, Model.ofYaml text ≠ .ok m)
    (hactions : (read place (.str text)).result = .ok actions) :
    actions = {} ∧ (Text.isBlankText text = true ∧ (read place (.str text)).log = [] ∨
      Quotes text (read place (.str text)).log) := by
  cases hblank : Text.isBlankText text with
  | true =>
    rw [read_of_blank hblank] at hactions ⊢
    exact ⟨(Except.ok.inj hactions).symm, .inl ⟨rfl, rfl⟩⟩
  | false =>
    cases hvalue : Model.ofYaml text with
    | ok m => exact absurd hvalue (hnone m)
    | error cause =>
      by_cases hmalformed : cause = .malformed
      · subst hmalformed
        rw [read_of_malformed hblank hvalue] at hactions ⊢
        exact ⟨(Except.ok.inj hactions).symm, .inr (quotes_malformed place text)⟩
      -- any other cause breaks the reading
      · rw [read_of_breaks ⟨text, rfl, hblank, hvalue, hmalformed⟩] at hactions
        cases hactions

/-- What is behind a text without a value that is not malformed. -/
theorem Breaks.exists_cause {d : Data} (h : Breaks d cause) : ∃ text, d = .str text ∧
    ((Token.ofText text).2 = some cause ∧ cause.OfForm ∨
      ∃ root nodes, Composes text root nodes ∧ Refused nodes cause) := by
  obtain ⟨text, hd, -, hcause, hne⟩ := h
  exact ⟨text, hd, (Model.refused_of_error hcause).resolve_left hne⟩

/-- **How reading a fragment ends.** There are actions, none of them if the fragment has no value; a text
that is not blank is then reported with one warning that quotes it. Or the fragment is a text without a value
that is not malformed, and only then reading fails. In this case a number or a code is out of bounds where the
tokens of the text end, or the text is well formed and one of its nodes is refused: its text is none of its type,
or it has none since it leads round in a circle. -/
theorem read_returns_iff (place : Option Place) (d : Data) :
    ((∃ actions, (read place d).result = .ok actions) ↔ ∀ cause, ¬ Breaks d cause) ∧
    (∀ text actions, d = .str text → (∀ m, Model.ofYaml text ≠ .ok m) →
      (read place d).result = .ok actions → actions = {} ∧
        (Text.isBlankText text = true ∧ (read place d).log = [] ∨ Quotes text (read place d).log)) ∧
    ∀ cause, Breaks d cause → (read place d).result = .error (.fragment cause) ∧
      ∃ text, d = .str text ∧
        ((Token.ofText text).2 = some cause ∧ cause.OfForm ∨
          ∃ root nodes, Composes text root nodes ∧ Refused nodes cause) := by
  refine ⟨⟨?_, exists_result_of_not_breaks⟩, ?_, fun cause hbreaks => ?_⟩
  -- where reading fails there are no actions
  · rintro ⟨actions, hactions⟩ cause hbreaks
    rw [read_of_breaks hbreaks] at hactions
    cases hactions
  · rintro text actions rfl hnone hactions
    exact quotes_of_no_value hnone hactions
  · exact ⟨by rw [read_of_breaks hbreaks], hbreaks.exists_cause⟩

/-- **Reading fails for a date that does not exist.** The fragment is one mapping in one line. -/
theorem date_breaks : (read none (.str "when: 2024-13-45")).result = .error (.fragment .badDate) ∧
    (read none (.str "when: 2024-13-45")).log = [] := by
  have hvalue : Model.ofYaml "when: 2024-13-45" = .error .badDate := eq_error_of_fault? (by decide +kernel)
  rw [read_of_breaks ⟨_, rfl, by decide +kernel, hvalue, nofun⟩]
  exact ⟨rfl, rfl⟩

end HomeAutomaton.Fragment
