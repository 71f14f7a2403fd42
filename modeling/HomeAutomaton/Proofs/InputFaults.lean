import HomeAutomaton.Proofs.LongNumbers
import HomeAutomaton.Proofs.Runs
import HomeAutomaton.Proofs.ScalarFaults
import HomeAutomaton.Proofs.Utf8

/-!
# How reading a model file ends

Where there is nothing at a path, where the text of a file is not well formed and where its value is no
mapping, the run ends with a message. These are the cases that something is prepared for. There are others: a
directory stands at the path, the bytes of the file are no text in UTF-8, a JSON text holds an integer with
too many digits, and a YAML text is not malformed but has no value. Nothing is said about them; the run breaks
down.

A YAML file is parsed while it is read. So its text may be refused before a place is reached where the bytes
are no text, and it is the reader that decides; what is said here is said of every reader. The depth to which
calls can be nested is taken as unlimited.

* `CommandLine.Answers` are the ends with a model or a message, `CommandLine.Unprepared` the breakdowns.
* `Answers.run` and `Unprepared.run` say that a file is read so, and `answers_or_unprepared` that it is always
  one or the other.
* `loadModel_ends` is the result, and `loadModel_latin1` a file in another encoding.
-/

namespace HomeAutomaton.CommandLine

open Yaml

variable {reader : YamlReader} {t : FileTree} {path text : String} {content : List UInt8}
  {answer : Except Ending Model} {cause : Breakdown}

/-! ### What is at a path -/

/-- The file at the path has the content. -/
def Contains (t : FileTree) (path : String) (content : List UInt8) : Prop :=
  t.find? path = some (.file content)

/-- The file at the path holds the text. -/
def Holds (t : FileTree) (path text : String) : Prop := Contains t path (Text.utf8 text)

/-- The content can be read to its end as YAML: it is a text without any character that YAML does not have. -/
def ReadsToEnd (content : List UInt8) : Prop :=
  ∃ text, content = Text.utf8 text ∧ (textRead text).toList.all isAllowed = true

/-- Reading the file at the path ends with an answer: its model, which is a mapping, or a message. -/
inductive Answers (reader : YamlReader) (t : FileTree) (path : String) : Except Ending Model → Prop
  | missing : t.find? path = none →
      Answers reader t path (.error (.refused ("Error: File '" ++ path ++ "' not found.")))
  | malformed {content : List UInt8} : Contains t path content →
      valueOfFile reader path content = .error .malformed →
      Answers reader t path (.error (.refused ("Syntax Error in '" ++ path ++ "'")))
  | notMapping {content : List UInt8} {model : Model} : Contains t path content →
      valueOfFile reader path content = .ok model →
      (model.graph.entries? model.root).isSome = false →
      Answers reader t path (.error (.refused ("Error: '" ++ path ++ "' does not contain a model object.")))
  | mapping {content : List UInt8} {model : Model} : Contains t path content →
      valueOfFile reader path content = .ok model →
      (model.graph.entries? model.root).isSome = true → Answers reader t path (.ok model)

/-- Nothing is prepared for what is at the path. -/
inductive Unprepared (reader : YamlReader) (t : FileTree) (path : String) : Breakdown → Prop
  | directory : t.find? path = some .directory → Unprepared reader t path (.files .isDirectory)
  /-- The bytes of the file are those of no text, and nothing was wrong with it before. -/
  | notText {content : List UInt8} : Contains t path content → (∀ text, content ≠ Text.utf8 text) →
      isJsonName path = true ∨ reader.early? content = none → Unprepared reader t path (.input .notText)
  | tooManyDigits {text : String} : Holds t path text → isJsonName path = true →
      Json.read (textRead text) = .error .tooManyDigits →
      Unprepared reader t path (.input .tooManyDigits)
  /-- The text is YAML and has no value, though it is not malformed. -/
  | noValue {text : String} {cause : LoadError} : Holds t path text → isJsonName path = false →
      (textRead text).toList.all isAllowed = true → Model.ofYaml (textRead text) = .error cause →
      cause ≠ .malformed → Unprepared reader t path (.input (.noValue cause))
  /-- The file cannot be read to its end, and its text is refused before that is noticed, though it is not
  malformed. -/
  | early {content : List UInt8} {cause : LoadError} : Contains t path content → isJsonName path = false →
      ¬ ReadsToEnd content → reader.early? content = some cause → cause ≠ .malformed →
      Unprepared reader t path (.input (.noValue cause))

/-! ### The value of a file -/

/-- The text of a JSON file is read back. -/
theorem jsonFile_utf8 (text : String) : jsonFile (Text.utf8 text) = valueOfJson (textRead text) := by
  rw [jsonFile, Text.ofUtf8?_eq_some_iff.mpr rfl]

/-- And so is that of a YAML file, if it can be read to its end. -/
theorem yamlFile_utf8 (h : (textRead text).toList.all isAllowed = true) :
    yamlFile reader (Text.utf8 text) = valueOfYaml (textRead text) := by
  rw [yamlFile, Text.ofUtf8?_eq_some_iff.mpr rfl]
  dsimp only
  rw [if_pos h]

/-- A file that cannot be read to its end has the fault that is found first. -/
theorem yamlFile_of_early {cause : LoadError} (h : ¬ ReadsToEnd content)
    (hearly : reader.early? content = some cause) : yamlFile reader content = .error (.ofYaml cause) := by
  rw [yamlFile, hearly]
  dsimp only
  split
  next => rfl
  next text htext =>
    rw [if_neg fun hall => h ⟨text, Text.ofUtf8?_eq_some_iff.mp htext, hall⟩]
    rfl

/-- Without one it is no text, or there is a character in it that YAML does not have. -/
theorem yamlFile_of_not_early (h : ¬ ReadsToEnd content) (hearly : reader.early? content = none) :
    ((∀ text, content ≠ Text.utf8 text) ∧ yamlFile reader content = .error .notText) ∨
      yamlFile reader content = .error .malformed := by
  rw [yamlFile, hearly]
  dsimp only
  split
  next hnone => exact .inl ⟨Text.ofUtf8?_eq_none_iff.mp hnone, rfl⟩
  next text htext =>
    rw [if_neg fun hall => h ⟨text, Text.ofUtf8?_eq_some_iff.mp htext, hall⟩]
    exact .inr rfl

/-- Only malformed texts are called so. -/
theorem ofYaml_of_ne {cause : LoadError} (h : cause ≠ .malformed) : InputFault.ofYaml cause = .noValue cause := by
  cases cause <;> first | rfl | exact absurd rfl h

/-- A text of so many characters is not in fewer bytes. -/
theorem early?_of_short (h : content.length < firstPiece) : reader.early? content = none := by
  rw [Option.eq_none_iff_forall_ne_some]
  intro cause hearly
  obtain ⟨start, hstart⟩ := reader.sound hearly
  have hlength := hstart.isStart.length_le
  have hchars := Text.length_le_length_utf8 start
  have hlong := hstart.long
  omega

/-! ### What is read -/

/-- A file is read as its model, and a fault with a message is a refusal. -/
theorem loadModel_run_file (h : Contains t path content) :
    (loadModel treeDisk reader path).run t =
      (match modelOfFile reader path content with
        | .ok model => .ok model
        | .error e =>
          match e.message? path with
          | some message => .error (.refused message)
          | none => .error (.broken (.input e)), t) := by
  rw [loadModel, run_bind, run_find?, h]
  dsimp only
  cases modelOfFile reader path content with
  | ok model => rfl
  | error e => cases e <;> rfl

/-- **What is answered is read**, whatever the answer. -/
theorem Answers.run (h : Answers reader t path answer) :
    (loadModel treeDisk reader path).run t = (answer, t) := by
  cases h with
  | missing hmissing =>
    rw [loadModel, run_bind, run_find?, hmissing]
    rfl
  | malformed hcontains hvalue =>
    rw [loadModel_run_file hcontains, modelOfFile, hvalue]
    rfl
  | notMapping hcontains hvalue hmapping =>
    rw [loadModel_run_file hcontains, modelOfFile, hvalue, ok_bind, hmapping]
    rfl
  | mapping hcontains hvalue hmapping =>
    rw [loadModel_run_file hcontains, modelOfFile, hvalue, ok_bind, hmapping]
    rfl

/-- What nothing is said about breaks the run. -/
theorem loadModel_run_of_error {e : InputFault} (h : Contains t path content)
    (hvalue : valueOfFile reader path content = .error e) (hnone : e.message? path = none) :
    (loadModel treeDisk reader path).run t = (.error (.broken (.input e)), t) := by
  rw [loadModel_run_file h, modelOfFile, hvalue, error_bind]
  dsimp only
  rw [hnone]

/-- **What nothing is prepared for breaks the run.** -/
theorem Unprepared.run (h : Unprepared reader t path cause) :
    (loadModel treeDisk reader path).run t = (.error (.broken cause), t) := by
  cases h with
  | directory hdirectory =>
    rw [loadModel, run_bind, run_find?, hdirectory]
    rfl
  | @notText content hcontains hnone hreader =>
    refine loadModel_run_of_error hcontains ?_ rfl
    have htext := Text.ofUtf8?_eq_none_iff.mpr hnone
    cases hname : isJsonName path with
    | true => rw [valueOfFile, if_pos hname, jsonFile, htext]
    | false =>
      -- a YAML file without an early fault is found to be no text
      have hearly := hreader.resolve_left (by rw [hname]; exact Bool.false_ne_true)
      rw [valueOfFile, hname, if_neg Bool.false_ne_true, yamlFile, htext, hearly]
      rfl
  | tooManyDigits hholds hname hread =>
    refine loadModel_run_of_error hholds ?_ rfl
    rw [valueOfFile, if_pos hname, jsonFile_utf8, valueOfJson, hread]
  | noValue hholds hname hall hread hne =>
    refine loadModel_run_of_error hholds ?_ rfl
    rw [valueOfFile, hname, if_neg Bool.false_ne_true, yamlFile_utf8 hall, valueOfYaml, hread]
    exact congrArg _ (ofYaml_of_ne hne)
  | early hcontains hname hstuck hearly hne =>
    refine loadModel_run_of_error hcontains ?_ rfl
    rw [valueOfFile, hname, if_neg Bool.false_ne_true, yamlFile_of_early hstuck hearly]
    exact congrArg _ (ofYaml_of_ne hne)

/-- The value of a JSON file, or why there is none. -/
theorem json_or_unprepared (hcontains : Contains t path content) (hname : isJsonName path = true) :
    (∃ model, jsonFile content = .ok model) ∨ jsonFile content = .error .malformed ∨
      ∃ cause, Unprepared reader t path cause := by
  by_cases htext : ∃ text, content = Text.utf8 text
  · obtain ⟨text, rfl⟩ := htext
    rw [jsonFile_utf8, valueOfJson]
    cases hread : Json.read (textRead text) with
    | ok d => exact .inl ⟨_, rfl⟩
    | error e =>
      cases e with
      | malformed => exact .inr (.inl rfl)
      | tooManyDigits => exact .inr (.inr ⟨_, .tooManyDigits hcontains hname hread⟩)
  · exact .inr (.inr ⟨_, .notText hcontains (not_exists.mp htext) (.inl hname)⟩)

/-- The value of a YAML file, or why there is none. -/
theorem yaml_or_unprepared (hcontains : Contains t path content) (hname : isJsonName path = false) :
    (∃ model, yamlFile reader content = .ok model) ∨ yamlFile reader content = .error .malformed ∨
      ∃ cause, Unprepared reader t path cause := by
  by_cases hend : ReadsToEnd content
  · obtain ⟨text, rfl, hall⟩ := hend
    rw [yamlFile_utf8 hall, valueOfYaml]
    cases hread : Model.ofYaml (textRead text) with
    | ok model => exact .inl ⟨_, rfl⟩
    | error e =>
      by_cases hmalformed : e = .malformed
      · subst hmalformed
        exact .inr (.inl rfl)
      · exact .inr (.inr ⟨_, .noValue hcontains hname hall hread hmalformed⟩)
  -- the file cannot be read to its end, so the reader decides what is found first
  · cases hearly : reader.early? content with
    | none =>
      rcases yamlFile_of_not_early hend hearly with ⟨hnone, -⟩ | hmalformed
      · exact .inr (.inr ⟨_, .notText hcontains hnone (.inr hearly)⟩)
      · exact .inr (.inl hmalformed)
    | some e =>
      by_cases hmalformed : e = .malformed
      · subst hmalformed
        exact .inr (.inl (yamlFile_of_early hend hearly))
      · exact .inr (.inr ⟨_, .early hcontains hname hend hearly hmalformed⟩)

/-- Whatever is at a path, there is an answer, or nothing is prepared for it. -/
theorem answers_or_unprepared (reader : YamlReader) (t : FileTree) (path : String) :
    (∃ answer, Answers reader t path answer) ∨ ∃ cause, Unprepared reader t path cause := by
  cases hfind : t.find? path with
  | none => exact .inl ⟨_, .missing hfind⟩
  | some entry =>
    cases entry with
    | directory => exact .inr ⟨_, .directory hfind⟩
    | file content =>
      have hvalue : (∃ model, valueOfFile reader path content = .ok model) ∨
          valueOfFile reader path content = .error .malformed ∨ ∃ cause, Unprepared reader t path cause := by
        rw [valueOfFile]
        cases hname : isJsonName path with
        | true => exact json_or_unprepared hfind hname
        | false => exact yaml_or_unprepared hfind hname
      -- a value may still be no mapping
      rcases hvalue with ⟨model, hvalue⟩ | hmalformed | hunprepared
      · cases hmapping : (model.graph.entries? model.root).isSome with
        | true => exact .inl ⟨_, .mapping hfind hvalue hmapping⟩
        | false => exact .inl ⟨_, .notMapping hfind hvalue hmapping⟩
      · exact .inl ⟨_, .malformed hfind hmalformed⟩
      · exact .inr hunprepared

/-! ### The result -/

/-- The text is that of the file at the path, or what is read of it before it cannot be read on. -/
def IsReadOf (t : FileTree) (path text : String) : Prop :=
  Holds t path text ∨ ∃ content, Contains t path content ∧ ¬ ReadsToEnd content ∧
    Text.utf8 text <+: content ∧ firstPiece ≤ text.length

/-- How reading the file at a path ends. -/
structure LoadEnds (reader : YamlReader) (t : FileTree) (path : String) (answer : Except Ending Model) :
    Prop where
  /-- There is a mapping or a message, unless nothing is prepared. -/
  answered_iff : ((∃ model, answer = .ok model ∧ (model.graph.entries? model.root).isSome = true) ∨
    ∃ ending message, answer = .error ending ∧ ending = .refused message ∧ ending.status = 1) ↔
      ∀ cause, ¬ Unprepared reader t path cause
  answers : (∀ cause, ¬ Unprepared reader t path cause) → Answers reader t path answer
  breaks : ∀ cause, Unprepared reader t path cause → answer = .error (.broken cause)
  /-- Then the run that the file is read for breaks down, and nothing has been said or written. -/
  run : ∀ cause, Unprepared reader t path cause → ∀ (time : DateTime) (job : Job), job.input = path →
    (runJob treeDisk reader time job).run t = ({ ending := .broken cause }, t)
  /-- Bytes that are no text break the run of a JSON file, and of any file that is read in one piece. -/
  notText : ∀ content, Contains t path content → (∀ text, content ≠ Text.utf8 text) →
    isJsonName path = true ∨ content.length < firstPiece → answer = .error (.broken (.input .notText))
  long : Unprepared reader t path (.input .tooManyDigits) →
    ∃ text, Holds t path text ∧ Json.HasLongNumber (textRead text).toList
  refused : ∀ cause, Unprepared reader t path (.input (.noValue cause)) → ∃ text, IsReadOf t path text ∧
    ((Token.ofText (textRead text)).2 = some cause ∧ cause.OfForm ∨
      ∃ root nodes, Composes (textRead text) root nodes ∧ Refused nodes cause)

/-- What is refused early is refused for its own sake. -/
theorem StartsRefused.ofYaml {start : String} {e : LoadError} (h : StartsRefused content start e) :
    Model.ofYaml (textRead start) = .error e := by
  have hstart := h.refused "" rfl
  rwa [String.append_empty] at hstart

/-- A text without a value has something in it that is to blame, also where it was read only in part. -/
theorem Unprepared.exists_text {e : LoadError} (h : Unprepared reader t path (.input (.noValue e))) :
    ∃ text, IsReadOf t path text ∧
      ((Token.ofText (textRead text)).2 = some e ∧ e.OfForm ∨
        ∃ root nodes, Composes (textRead text) root nodes ∧ Refused nodes e) := by
  cases h with
  | noValue hholds hname hall hread hne =>
    exact ⟨_, .inl hholds, (Model.refused_of_error hread).resolve_left hne⟩
  | early hcontains hname hstuck hearly hne =>
    obtain ⟨start, hstart⟩ := reader.sound hearly
    exact ⟨start, .inr ⟨_, hcontains, hstuck, hstart.isStart, hstart.long⟩,
      (Model.refused_of_error hstart.ofYaml).resolve_left hne⟩

/-- **How reading a model file ends.** Whatever the path, the files and the reader, there is a mapping, or the
run is ended with a message, or nothing is prepared for what is at the path: a directory, bytes that are no
text, a text with more digits in a row than an integer may have, or a text that is not malformed and has no
value, since a scalar in it is refused by its type or has a text that never ends. -/
theorem loadModel_ends (reader : YamlReader) (path : String) (t : FileTree) :
    ∃ answer, (loadModel treeDisk reader path).run t = (answer, t) ∧ LoadEnds reader t path answer := by
  -- either something unprepared for ends the reading, or there is an answer
  obtain ⟨answer, hrun, hcases⟩ : ∃ answer, (loadModel treeDisk reader path).run t = (answer, t) ∧
      ((∀ cause, Unprepared reader t path cause → answer = .error (.broken cause)) ∧
        ((∃ cause, Unprepared reader t path cause) ∨ Answers reader t path answer)) := by
    rcases answers_or_unprepared reader t path with ⟨answer, hanswers⟩ | ⟨cause, hcause⟩
    · refine ⟨answer, hanswers.run, fun cause hcause => ?_, .inr hanswers⟩
      exact (Prod.mk.inj (hanswers.run.symm.trans hcause.run)).1
    · refine ⟨_, hcause.run, fun other hother => ?_, .inl ⟨cause, hcause⟩⟩
      exact (Prod.mk.inj (hcause.run.symm.trans hother.run)).1
  obtain ⟨hbreaks, hcases⟩ := hcases
  have hanswers : (∀ cause, ¬ Unprepared reader t path cause) → Answers reader t path answer :=
    fun hnone => hcases.resolve_left fun ⟨cause, hcause⟩ => hnone cause hcause
  refine ⟨answer, hrun, ⟨?_, ?_⟩, hanswers, hbreaks, ?_, ?_, ?_, fun _ => Unprepared.exists_text⟩
  -- a breakdown is neither a mapping nor a message
  · rintro (⟨model, rfl, -⟩ | ⟨ending, message, rfl, rfl, -⟩) cause hcause
    · cases hbreaks cause hcause
    · cases hbreaks cause hcause
  · intro hnone
    cases hanswers hnone with
    | mapping hcontains hvalue hmapping => exact .inl ⟨_, rfl, hmapping⟩
    | missing => exact .inr ⟨_, _, rfl, rfl, rfl⟩
    | malformed => exact .inr ⟨_, _, rfl, rfl, rfl⟩
    | notMapping => exact .inr ⟨_, _, rfl, rfl, rfl⟩
  · rintro cause hcause time job rfl
    rw [runJob, run_bind, hcause.run]
    rfl
  · exact fun content hcontains hnone hwhole =>
      hbreaks _ (.notText hcontains hnone (hwhole.imp_right early?_of_short))
  · rintro (_ | _ | ⟨hholds, -, hread⟩)
    exact ⟨_, hholds, Json.hasLongNumber_of_read hread⟩

/-- A model in another encoding: the name of the machine has a letter that is one byte there. -/
def latin1Tree : FileTree :=
  { entries := [(["lamp.json"], .file ((Text.utf8 "\x7b\"name\": \"Caf") ++ 0xE9 :: Text.utf8 "\"\x7d"))] }

/-- **A file that is no text breaks the run.** There is no message about it. -/
theorem loadModel_latin1 :
    (loadModel treeDisk .whole "lamp.json").run latin1Tree = (.error (.broken (.input .notText)), latin1Tree) := by
  have hfind : latin1Tree.find? "lamp.json"
      = some (.file ((Text.utf8 "\x7b\"name\": \"Caf") ++ 0xE9 :: Text.utf8 "\"\x7d")) := by
    decide +kernel
  have hnone : Text.ofUtf8? ((Text.utf8 "\x7b\"name\": \"Caf") ++ 0xE9 :: Text.utf8 "\"\x7d") = none := by
    decide +kernel
  exact (Unprepared.notText hfind (Text.ofUtf8?_eq_none_iff.mp hnone) (.inl (by decide +kernel))).run

end HomeAutomaton.CommandLine
