import HomeAutomaton.Package
import HomeAutomaton.Text.Utf8
import HomeAutomaton.Proofs.Preamble

/-!
# What a configuration is read as

A configuration is the document behind a header of comment lines. The header names the machine as it is,
so it is a comment only if the name fits into a line: a line end in the name ends the comment, and what
stands behind it is read as a part of the document.

* `headerLines` are the lines of the header, `headerLines_ignored` says when they are comments.
* `Document.file_of_yaml` gives the characters of a configuration; `Document.ofChars_file` says that
  the header is not read.
* `Compiled.get?_configuration` finds the configuration among the files of a package.
* `Model.configuration_loads` is the result. `Document.file_unreadable` and
  `Model.name_leaves_header` say what other names do.
-/

namespace HomeAutomaton

open Yaml

/-! ### The characters of the header -/

instance : DecidablePred FitsLine := fun _ => inferInstanceAs (Decidable (_ ∧ _))

/-- Characters can be checked one after the other. -/
theorem fit_of_all {text : List Char} (h : text.all (FitsLine ·) = true) :
    ∀ ch ∈ text, FitsLine ch :=
  fun ch hch => of_decide_eq_true (List.all_eq_true.mp h ch hch)

/-- What is printed in ASCII fits into a line. -/
theorem fitsLine_of_printable {ch : Char} (h : 0x20 ≤ ch.toNat) (h' : ch.toNat ≤ 0x7E) :
    FitsLine ch := by
  refine ⟨by simp [isAllowed, h, h'], ?_⟩
  have hne (x : Char) (hx : x.toNat < 0x20 ∨ 0x7E < x.toNat) : ch ≠ x := by
    rintro rfl
    omega
  simp [isBreak, hne '\n' (by decide), hne '\r' (by decide), hne '\x85' (by decide),
    hne '\u2028' (by decide), hne '\u2029' (by decide)]

theorem padded_fits {width n : Nat} : ∀ ch ∈ Text.padded width n, FitsLine ch := by
  intro ch hch
  rcases List.mem_append.mp hch with hch | hch
  · obtain rfl := List.eq_of_mem_replicate hch
    decide
  · have hdigit := Nat.isDigit_of_mem_toDigits (by decide) (by decide) hch
    obtain ⟨hlow, hhigh⟩ := Char.isDigit_iff_toNat.mp hdigit
    exact fitsLine_of_printable (Nat.le_trans (by decide) hlow) (Nat.le_trans hhigh (by decide))

theorem offsetChars_fit (offset : Int) : ∀ ch ∈ DateTime.offsetChars offset, FitsLine ch := by
  have hsign : FitsLine (if offset < 0 then '-' else '+') := by split <;> decide
  have hcolon : FitsLine ':' := by decide
  have hpoint : FitsLine '.' := by decide
  simp only [DateTime.offsetChars, List.forall_mem_append, List.forall_mem_cons]
  refine ⟨⟨⟨hsign, padded_fits⟩, hcolon, padded_fits⟩, ?_⟩
  split
  · simp only [List.forall_mem_append, List.forall_mem_cons]
    exact ⟨⟨hcolon, padded_fits⟩, hpoint, padded_fits⟩
  · split
    · exact List.forall_mem_cons.mpr ⟨hcolon, padded_fits⟩
    · exact List.forall_mem_nil _

/-- A point in time is written with characters that fit into a line. -/
theorem DateTime.text_fits (t : DateTime) : ∀ ch ∈ t.text.toList, FitsLine ch := by
  have hhyphen : FitsLine '-' := by decide
  have hcolon : FitsLine ':' := by decide
  have hdate : ∀ ch ∈ t.date.chars, FitsLine ch := by
    simp only [Date.chars, List.forall_mem_append, List.forall_mem_cons]
    exact ⟨⟨padded_fits, hhyphen, padded_fits⟩, hhyphen, padded_fits⟩
  -- the parts that may be missing
  have hfraction : ∀ ch ∈ (if t.microsecond = 0 then [] else '.' :: Text.padded 6 t.microsecond),
      FitsLine ch := by
    split
    · exact List.forall_mem_nil _
    · exact List.forall_mem_cons.mpr ⟨by decide, padded_fits⟩
  have hoffset : ∀ ch ∈ (t.offset.map DateTime.offsetChars).getD [], FitsLine ch := by
    cases t.offset with
    | none => exact List.forall_mem_nil _
    | some offset => exact offsetChars_fit offset
  simp only [DateTime.text, String.toList_ofList, DateTime.chars, List.forall_mem_append,
    List.forall_mem_cons]
  exact ⟨⟨⟨⟨⟨hdate, by decide, padded_fits⟩, hcolon, padded_fits⟩, hcolon, padded_fits⟩, hfraction⟩,
    hoffset⟩

/-! ### The lines of the header -/

/-- The lines at the start of a configuration, without their ends. -/
def headerLines (name : String) (time : DateTime) : List (List Char) :=
  [['#'],
    '#' :: (" Auto-generated Home Assistant configuration for \"".toList ++ name.toList ++
      "\" state machine.".toList),
    '#' :: (" Generated by sm-compiler on ".toList ++ time.text.toList),
    ['#'],
    []]

/-- Texts put together are lines if line ends stand where they should. -/
theorem toList_eq_ofLines {before between behind name time : String} {first second third : List Char}
    (hbefore : before.toList = '#' :: '\n' :: '#' :: first)
    (hbetween : between.toList = second ++ '\n' :: '#' :: third)
    (hbehind : behind.toList = ['\n', '#', '\n', '\n']) :
    (before ++ name ++ between ++ time ++ behind).toList =
      ofLines [['#'], '#' :: (first ++ name.toList ++ second), '#' :: (third ++ time.toList),
        ['#'], []] := by
  simp only [String.toList_append, hbefore, hbetween, hbehind, ofLines, List.flatMap_cons,
    List.flatMap_nil, List.append_assoc, List.cons_append, List.nil_append]

/-- The header is these lines. -/
theorem toList_configurationHeader {name : String} {time : DateTime} :
    (configurationHeader name time).toList = ofLines (headerLines name time) :=
  toList_eq_ofLines (by decide +kernel) (by decide +kernel) (by decide +kernel)

/-- The header holds nothing but comments, if the name fits into a line. -/
theorem headerLines_ignored {name : String} {time : DateTime} (h : ∀ ch ∈ name.toList, FitsLine ch) :
    ∀ line ∈ headerLines name time, IsIgnored line := by
  -- every line but the last, which is blank, starts with a hash
  have hcomment {text : List Char} (htext : ∀ ch ∈ text, FitsLine ch) : IsIgnored ('#' :: text) :=
    ⟨List.forall_mem_cons.mpr ⟨by decide, htext⟩, 0, .inr ⟨text, rfl⟩⟩
  have hbefore : ∀ ch ∈ " Auto-generated Home Assistant configuration for \"".toList,
      FitsLine ch := fit_of_all (by decide +kernel)
  have hbehind : ∀ ch ∈ "\" state machine.".toList, FitsLine ch := fit_of_all (by decide +kernel)
  have hgenerated : ∀ ch ∈ " Generated by sm-compiler on ".toList, FitsLine ch :=
    fit_of_all (by decide +kernel)
  simp only [headerLines, List.forall_mem_cons]
  refine ⟨hcomment (List.forall_mem_nil _), hcomment ?_, hcomment ?_,
    hcomment (List.forall_mem_nil _), ⟨List.forall_mem_nil _, 0, .inl rfl⟩, List.forall_mem_nil _⟩
  · simp only [List.forall_mem_append]
    exact ⟨⟨hbefore, h⟩, hbehind⟩
  · exact List.forall_mem_append.mpr ⟨hgenerated, time.text_fits⟩

/-! ### The lines of the document -/

/-- What is put in front stands in the first line. -/
theorem inFront_eq_cons (before : List Char) (lines : List (List Char)) :
    ∃ line rest, inFront before lines = (before ++ line) :: rest := by
  cases lines with
  | nil => exact ⟨[], [], by rw [List.append_nil]; rfl⟩
  | cons first rest => exact ⟨first, rest, rfl⟩

/-- A mapping starts with its first key. -/
theorem documentLines_map {key value : Data} {entries : List (Data × Data)} {line : List Char}
    (hsimple : isSimpleKey key = true) (hkey : leafLines key 2 true = [line]) :
    ∃ more lines, documentLines (.map ((key, value) :: entries)) = (line ++ more) :: lines := by
  obtain ⟨more, lines, hfirst⟩ := inFront_eq_cons (line ++ [':']) (valueLines 0 value)
  refine ⟨':' :: more, lines ++ (entryLines 0 entries).flatMap (inFront (pad 0)), ?_⟩
  show inlineLines 0 (.map ((key, value) :: entries)) = _
  simp only [inlineLines, entryLines, hsimple, if_true, Nat.zero_add, hkey, hfirst, stacked,
    List.append_assoc, List.cons_append, List.nil_append]

/-- A document starts with the key of its first entry. -/
theorem Document.head_documentLines {d : Document} :
    (ofLines (documentLines d.data)).head? = some 'i' := by
  have hkey : leafLines (.str "input_select") 2 true = ['i' :: "nput_select".toList] := by
    decide +kernel
  obtain ⟨more, lines, hlines⟩ := documentLines_map (by decide +kernel) hkey
  show (ofLines (documentLines (.map ((.str "input_select", _) :: _)))).head? = _
  rw [hlines]
  rfl

/-- The text of a value that is written. -/
theorem Data.eq_of_yaml {d : Data} {content : String} (h : d.yaml = .ok content) :
    content = String.ofList (ofLines (documentLines d)) := by
  rw [Data.yaml] at h
  split at h
  · cases h
  · cases h
    rw [← String.toList_inj, String.toList_join, String.toList_ofList, ofLines, List.flatMap_map]
    simp only [String.toList_ofList]

/-! ### The configuration -/

/-- The text of a configuration. -/
theorem Document.file_of_yaml {d : Document} {time : DateTime} {content : String}
    (h : d.data.yaml = .ok content) : d.file time =
      .ok (String.ofList (ofLines (headerLines d.name time) ++ ofLines (documentLines d.data))) := by
  rw [Document.file, h, Data.eq_of_yaml h]
  refine congrArg Except.ok (String.toList_inj.mp ?_)
  rw [String.toList_append, toList_configurationHeader, String.toList_ofList, String.toList_ofList]

/-- The first byte of a configuration is a hash. -/
theorem Document.head_file {d : Document} {time : DateTime} {text : String} (h : d.file time = .ok text) :
    (Text.utf8 text).head? = some 35 := by
  obtain ⟨content, hcontent, -⟩ := bind_eq_ok.mp h
  obtain rfl := Except.ok.inj ((Document.file_of_yaml hcontent).symm.trans h)
  rw [Text.utf8, String.toList_ofList]
  rfl

/-- Nothing of the header is read, if the name of the machine fits into a line. -/
theorem Document.ofChars_file {d : Document} {time : DateTime}
    (hname : ∀ ch ∈ d.name.toList, FitsLine ch) :
    Model.ofChars (ofLines (headerLines d.name time) ++ ofLines (documentLines d.data)) =
      Model.ofChars (ofLines (documentLines d.data)) := by
  refine Model.ofChars_lines (headerLines_ignored hname) ?_
  rw [Document.head_documentLines]
  decide

/-- A character in the name that may not occur in a text makes the whole configuration unreadable. -/
theorem Document.file_unreadable {d : Document} {time : DateTime} {text : String} {ch : Char}
    (hch : ch ∈ d.name.toList) (hallowed : isAllowed ch = false) (h : d.file time = .ok text) :
    Model.ofYaml text = .error .malformed := by
  obtain ⟨content, hcontent, -⟩ := bind_eq_ok.mp h
  rw [Document.file_of_yaml hcontent] at h
  obtain rfl := Except.ok.inj h
  rw [Model.ofYaml_ofList]
  refine Model.ofChars_of_not_allowed (List.all_eq_false.mpr ⟨ch, ?_, by simp [hallowed]⟩)
  simp [headerLines, ofLines, hch]

/-- What is written of a value reads back as a value that equals it. -/
def Data.ReadsBack (d : Data) : Prop :=
  ∃ content value, d.yaml = .ok content ∧ Model.ofYaml content = .ok value ∧
    value.data.equal d = true

/-- Reading back what is written can be carried out on characters. -/
theorem Data.readsBack_of_chars {d : Data} (hwritten : d.unrenderable? = none)
    (h : (Model.ofChars (ofLines (documentLines d))).toOption.map (·.data.equal d) = some true) :
    d.ReadsBack := by
  obtain ⟨value, hvalue, hequal⟩ := exists_of_check h
  obtain ⟨content, hcontent⟩ : ∃ content, d.yaml = .ok content := by
    rw [Data.yaml, hwritten]
    exact ⟨_, rfl⟩
  refine ⟨content, value, hcontent, ?_, hequal⟩
  rw [Data.eq_of_yaml hcontent, Model.ofYaml_ofList, hvalue]

/-! ### The configuration in a package -/

namespace Package

variable {p : Package} {name other content : String}

/-- A file that is put into a package is there. -/
theorem get?_put_self : (p.put name content).get? name = some content := by
  obtain ⟨files⟩ := p
  show (putFile files name content).lookup name = _
  induction files with
  | nil => rw [putFile, List.lookup_cons_self]
  | cons file files ih =>
    rw [putFile]
    split
    · rw [List.lookup_cons_self]
    · rename_i hfile
      rw [List.lookup_cons, beq_false_of_ne (Ne.symm hfile), ih]

/-- The other files stay as they are. -/
theorem get?_put_of_ne (h : other ≠ name) : (p.put name content).get? other = p.get? other := by
  obtain ⟨files⟩ := p
  show (putFile files name content).lookup other = files.lookup other
  have hother : (other == name) = false := beq_false_of_ne h
  induction files with
  | nil => rw [putFile, List.lookup_cons, hother]
  | cons file files ih =>
    rw [putFile]
    split
    · rename_i hfile
      rw [List.lookup_cons, List.lookup_cons, hfile, hother]
    · rw [List.lookup_cons, List.lookup_cons, ih]

end Package

namespace PackageOptions

variable {options : PackageOptions} {machineId : String}

/-- What the configuration of a machine is called. -/
def documentName (options : PackageOptions) (machineId : String) : String :=
  options.start ++ machineId ++ "." ++ options.documentExtension

/-- The export has another name than the configuration. -/
theorem documentName_ne_export : options.documentName machineId ≠
    options.start ++ machineId ++ "_model." ++ options.exportExtension := by
  intro h
  have hlist := congrArg String.toList h
  simp only [documentName, String.toList_append, List.append_assoc] at hlist
  have hbehind := List.append_cancel_left (List.append_cancel_left hlist)
  exact absurd (List.cons.inj hbehind).1 (by decide)

/-- The diagram has another name than the configuration, unless the extension is its own. -/
theorem documentName_ne_diagram (h : options.documentExtension ≠ "dot") :
    options.documentName machineId ≠ options.start ++ machineId ++ ".dot" := by
  intro hname
  have hlist := congrArg String.toList hname
  simp only [documentName, String.toList_append, List.append_assoc] at hlist
  have hbehind := List.append_cancel_left (List.append_cancel_left hlist)
  exact h (String.toList_inj.mp (List.cons.inj hbehind).2)

end PackageOptions

/-- The configuration stays in a package when the other files are put into it. -/
theorem Compiled.get?_configuration {c : Compiled} {model : Model} {options : PackageOptions}
    {time : DateTime} {text : String} {p : Package} (hfile : c.document.file time = .ok text)
    (hextension : options.documentExtension ≠ "dot")
    (h : (c.package model options time).result = .ok p) :
    p.get? (options.documentName c.document.machineId) = some text := by
  obtain ⟨configuration, hconfiguration, h⟩ := Logged.bind_eq_ok.mp h
  rw [Logged.liftM_result, hfile] at hconfiguration
  obtain rfl := Except.ok.inj hconfiguration
  -- the diagram comes last, whatever was put into the package before
  have hdiagram (q : Package) (hq : q.get? (options.documentName c.document.machineId) = some text)
      (h : (if options.withDiagram = true then do
          let diagram ← (Diagram.ofMachine c.machine c.identifiers : Except Fault Diagram)
          pure (q.put (options.start ++ c.document.machineId ++ ".dot") diagram.text)
        else pure q : Logged Package).result = .ok p) :
      p.get? (options.documentName c.document.machineId) = some text := by
    split at h
    · obtain ⟨diagram, -, h⟩ := Logged.bind_eq_ok.mp h
      obtain rfl := Except.ok.inj h
      rw [Package.get?_put_of_ne (PackageOptions.documentName_ne_diagram hextension), hq]
    · obtain rfl := Except.ok.inj h
      exact hq
  dsimp only at h
  split at h
  -- with an export between the two, which has another name
  · obtain ⟨-, -, h⟩ := Logged.bind_eq_ok.mp h
    obtain ⟨exported, -, h⟩ := Logged.bind_eq_ok.mp h
    refine hdiagram _ ?_ h
    rw [Package.get?_put_of_ne PackageOptions.documentName_ne_export]
    exact Package.get?_put_self
  · exact hdiagram _ Package.get?_put_self h

/-! ### Models -/

/-- **A configuration is read as its document**, if the name of the machine fits into a line and the
document reads back as it was written. It is the file of that name in every package of the model, unless
its extension is that of the diagram. -/
theorem Model.configuration_loads {model : Model} {options : PackageOptions} {c : Compiled}
    (time : DateTime) (hc : (model.compile options.appearance).result = .ok c)
    (hname : ∀ ch ∈ c.document.name.toList, FitsLine ch)
    (hextension : options.documentExtension ≠ "dot") (hback : c.document.data.ReadsBack) :
    ∃ text value, c.document.file time = .ok text ∧ Model.ofYaml text = .ok value ∧
      value.data.equal c.document.data = true ∧
      ∀ p, (model.package options time).result = .ok p →
        p.get? (options.documentName c.document.machineId) = some text := by
  obtain ⟨content, value, hcontent, hvalue, hequal⟩ := hback
  rw [Data.eq_of_yaml hcontent, Model.ofYaml_ofList] at hvalue
  refine ⟨_, value, Document.file_of_yaml hcontent, ?_, hequal, fun p hp => ?_⟩
  -- behind its header the file is the text of the document
  · rw [Model.ofYaml_ofList, Document.ofChars_file hname, hvalue]
  · rw [Model.package, Logged.bind_of_ok hc] at hp
    exact Compiled.get?_configuration (Document.file_of_yaml hcontent) hextension hp

/-- A machine with this name and without states. -/
def hallNamed (name : String) : Model where
  root := .ref 0
  graph :=
    { cells := #[
        .map [(.str "objects", .ref 1)],
        .map [(.str "/hall", .ref 2)],
        .map [(.str "type", .str "State Machine"), (.str "name", .str name)]] }

/-- The configuration of a machine with a plain name. -/
theorem Model.configuration_loads_hall :
    ∃ c, (hallNamed "Hall").compile.result = .ok c ∧ (∀ ch ∈ c.document.name.toList, FitsLine ch) ∧
      c.document.data.ReadsBack ∧ ∃ text value,
        c.document.file (DateTime.ofSeconds 0 0) = .ok text ∧ Model.ofYaml text = .ok value ∧
        value.data.equal c.document.data = true ∧
        ∀ p, ((hallNamed "Hall").package {} (DateTime.ofSeconds 0 0)).result = .ok p →
          p.get? (({} : PackageOptions).documentName c.document.machineId) = some text := by
  -- name, written form and what is read back are computed together
  have hchecked : ((hallNamed "Hall").compile.result.toOption.map fun c =>
      c.document.name == "Hall" && c.document.data.unrenderable?.isNone &&
        (Model.ofChars (ofLines (documentLines c.document.data))).toOption.map
          (·.data.equal c.document.data) == some true) = some true := by
    decide +kernel
  obtain ⟨c, hc, hall⟩ := exists_of_check hchecked
  simp only [Bool.and_eq_true, beq_iff_eq, Option.isNone_iff_eq_none] at hall
  obtain ⟨⟨hname, hwritten⟩, hread⟩ := hall
  have hfits : ∀ ch ∈ c.document.name.toList, FitsLine ch := by
    rw [hname]
    exact fit_of_all (by decide +kernel)
  have hback := Data.readsBack_of_chars hwritten hread
  exact ⟨c, hc, hfits, hback,
    @configuration_loads _ {} c (DateTime.ofSeconds 0 0) hc hfits (by decide) hback⟩

/-- A line end in the name ends the comment, and what stands behind it is read. -/
theorem Model.name_leaves_header :
    ∃ c, (hallNamed "Hall\nlights: all").compile.result = .ok c ∧ c.document.data.ReadsBack ∧
      ∃ text value, c.document.file (DateTime.ofSeconds 0 0) = .ok text ∧
        Model.ofYaml text = .ok value ∧ value.data.equal c.document.data = false := by
  -- the same here, with what is read back behind the header
  have hchecked : ((hallNamed "Hall\nlights: all").compile.result.toOption.map fun c =>
      c.document.data.unrenderable?.isNone &&
        (Model.ofChars (ofLines (documentLines c.document.data))).toOption.map
          (·.data.equal c.document.data) == some true &&
        (Model.ofChars (ofLines (headerLines c.document.name (DateTime.ofSeconds 0 0)) ++
          ofLines (documentLines c.document.data))).toOption.map
            (!·.data.equal c.document.data) == some true) = some true := by
    decide +kernel
  obtain ⟨c, hc, hall⟩ := exists_of_check hchecked
  simp only [Bool.and_eq_true, beq_iff_eq, Option.isNone_iff_eq_none] at hall
  obtain ⟨⟨hwritten, hread⟩, hheader⟩ := hall
  obtain ⟨content, -, hcontent, -⟩ := Data.readsBack_of_chars hwritten hread
  obtain ⟨value, hvalue, hequal⟩ := exists_of_check hheader
  refine ⟨c, hc, Data.readsBack_of_chars hwritten hread, _, value, Document.file_of_yaml hcontent,
    ?_, by simpa using hequal⟩
  rw [ofYaml_ofList, hvalue]

end HomeAutomaton
