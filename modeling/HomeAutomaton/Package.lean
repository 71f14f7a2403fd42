import HomeAutomaton.Compile
import HomeAutomaton.Diagram
import HomeAutomaton.Graph.Once
import HomeAutomaton.Json.Printer
import HomeAutomaton.Text.Uppercase
import HomeAutomaton.Yaml.Printer

/-!
# Packages

The files that are made from a model, all named after the machine: the configuration, which is the
document behind a header of comment lines; on request an export of the model for debugging; and on
request the diagram of the machine.

* `Document.file` is the text of the configuration.
* `Compiled.package` makes the files of a compiled model, `Model.package` those of a model.
-/

namespace HomeAutomaton

/-- What a package holds besides the document, and what its files are called. -/
structure PackageOptions where
  appearance : Appearance := {}
  /-- What the names of all files start with. -/
  start : String := ""
  /-- What stands behind the point in the name of the configuration. -/
  documentExtension : String := "yaml"
  /-- What stands behind the point in the name of the export. -/
  exportExtension : String := "json"
  withExport : Bool := true
  withDiagram : Bool := false

/-- Named files in the order in which they were made. -/
structure Package where
  files : List (String × String) := []

namespace Package

/-- The list with one more named text. A name that is there already keeps its place. -/
def putFile : List (String × String) → String → String → List (String × String)
  | [], name, content => [(name, content)]
  | file :: rest, name, content =>
    if file.1 = name then (name, content) :: rest else file :: putFile rest name content

/-- The package with one more file. Of two files with one name the later one counts. -/
def put (p : Package) (name content : String) : Package := ⟨putFile p.files name content⟩

/-- The text of a file. -/
def get? (p : Package) (name : String) : Option String := p.files.lookup name

end Package

/-- The comment lines at the start of a configuration. -/
def configurationHeader (name : String) (time : DateTime) : String :=
  "#\n# Auto-generated Home Assistant configuration for \"" ++ name ++
    "\" state machine.\n# Generated by sm-compiler on " ++ time.text ++ "\n#\n\n"

/-- The text of the configuration that holds a document. -/
def Document.file (d : Document) (time : DateTime) : Except Fault String := do
  let content ← d.data.yaml
  .ok (configurationHeader d.name time ++ content)

/-- The export of a model, in which every object is written out once. -/
def Model.exported (model : Model) (indent : Option Nat := some 2) : Except Fault String :=
  let copy := model.once
  if copy.hasLongNumber then .error .numberTooLong else .ok (Json.print indent copy)

/-- The files of a compiled model. -/
def Compiled.package (compiled : Compiled) (model : Model) (options : PackageOptions)
    (time : DateTime) : Logged Package := do
  let base := options.start ++ compiled.document.machineId
  let configuration ← (compiled.document.file time : Except Fault String)
  let package := ({} : Package).put (base ++ "." ++ options.documentExtension) configuration
  let package ←
    if options.withExport then do
      Logged.report (.savingModel (Text.uppercase options.exportExtension))
      let exported ← (model.exported : Except Fault String)
      pure (package.put (base ++ "_model." ++ options.exportExtension) exported)
    else pure package
  if options.withDiagram then do
    let diagram ← (Diagram.ofMachine compiled.machine compiled.identifiers : Except Fault Diagram)
    pure (package.put (base ++ ".dot") diagram.text)
  else pure package

/-- The files of a model, made at a point in time. -/
def Model.package (model : Model) (options : PackageOptions) (time : DateTime) : Logged Package := do
  let compiled ← model.compile options.appearance
  compiled.package model options time

end HomeAutomaton
