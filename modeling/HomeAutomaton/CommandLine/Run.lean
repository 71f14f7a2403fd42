import HomeAutomaton.CommandLine.Arguments
import HomeAutomaton.CommandLine.Input
import HomeAutomaton.FileTree

/-!
# Running a command

A command reads one model file, makes its package and writes the files of the package into a
directory. What it needs of the files around it are the operations of a `Disk`; a `FileTree` is one,
and so are the files of a computer. A `YamlReader` says how YAML files are read.

* `run` carries out the command that the arguments ask for.
* `Outcome` is what is left of a run besides the files: how it ended, and what it has said.
-/

namespace HomeAutomaton.CommandLine

/-- Operations on files, in some monad. -/
structure Disk (m : Type → Type) where
  /-- What is at a path. -/
  find? : String → m (Option Entry)
  /-- Makes a directory, with those on the way to it. -/
  makeDirectories : String → m (Except FileFault Unit)
  /-- Gives the file at a path a new content. -/
  write : String → List UInt8 → m (Except FileFault Unit)

/-- A file tree as a disk. -/
def treeDisk : Disk (StateM FileTree) where
  find? path := do pure ((← get).find? path)
  makeDirectories path := fun t => t.makeDirectories path
  write path content := fun t =>
    match t.write path content with
    | .ok t => (.ok (), t)
    | .error fault => (.error fault, t)

/-! ### Outcomes -/

/-- What ends a run for which nothing is prepared. -/
inductive Breakdown where
  /-- The input cannot be used. -/
  | input (e : InputFault)
  /-- A file cannot be read or written. -/
  | files (e : FileFault)
  deriving DecidableEq, Repr

/-- How a run ends. -/
inductive Ending where
  | finished
  /-- The arguments are wrong. -/
  | wrongArguments
  /-- There is nothing to be done, for the reason that the message gives. -/
  | refused (message : String)
  /-- A fault has come up while the package was made. -/
  | failed (e : Fault)
  /-- The run has broken down. -/
  | broken (e : Breakdown)
  deriving DecidableEq, Repr

/-- The exit status of a program that ends so. -/
def Ending.status : Ending → Nat
  | finished => 0
  | wrongArguments => 2
  | _ => 1

/-- How a run has ended, and what it has said. -/
structure Outcome where
  ending : Ending
  output : String := ""
  errors : String := ""
  deriving Repr

/-! ### What a run says -/

/-- The version of the program. -/
def version : String := "0.4.0"

/-- How the program is called. -/
def usage : String :=
  "usage: sm-compiler [-v] [-o DIR] [--prefix TEXT] [--dot] [--no-debug-model] [--icon ICON] " ++
    "[--mode MODE] [--verbose | -q] file"

/-- Is a diagnostic of this level reported? -/
def Verbosity.reports : Verbosity → Level → Bool
  | quiet, _ => false
  | normal, level => level != .debug
  | verbose, _ => true

/-- A line of the log. -/
def logLine (level : Level) (source message : String) : String :=
  level.name ++ " " ++ source ++ ": " ++ message ++ "\n"

/-- The log of the diagnostics of a package. -/
def logOf (verbosity : Verbosity) (log : List Diagnostic) : String :=
  String.join ((log.filter fun d => verbosity.reports d.level).map fun d =>
    logLine d.level "hacodegen.generator" d.message)

/-- The log of a written file. -/
def logOfWritten (verbosity : Verbosity) (path : String) : String :=
  if verbosity.reports .info then logLine .info "sm_compiler" ("Wrote " ++ path) else ""

/-- What is said about a fault that has come up while the package was made. -/
def failureText (e : Fault) : String := "\nCRITICAL ERROR during generation: " ++ e.text ++ "\n"

/-- What is said about a breakdown. -/
def Breakdown.text : Breakdown → String
  | input .notText => "the input is not a text in UTF-8"
  | input .tooManyDigits => "the input holds an integer with too many digits"
  | input _ => "a scalar in the input has no value"
  | files e => e.text

/-- What is said at the end of a run that has not finished. -/
def Ending.text? : Ending → Option String
  | finished | failed _ => none
  | wrongArguments => some usage
  | refused message => some message
  | broken e => some e.text

/-! ### Running -/

section

variable {m : Type → Type} [Monad m] (disk : Disk m) (reader : YamlReader)

/-- The model of the file at a path. -/
def loadModel (path : String) : m (Except Ending Model) := do
  match ← disk.find? path with
  | none => pure (.error (.refused ("Error: File '" ++ path ++ "' not found.")))
  | some .directory => pure (.error (.broken (.files .isDirectory)))
  | some (.file content) =>
    match modelOfFile reader path content with
    | .ok model => pure (.ok model)
    | .error e =>
      match e.message? path with
      | some message => pure (.error (.refused message))
      | none => pure (.error (.broken (.input e)))

/-- The directory for the files is made, unless it is there. -/
def prepareDirectory (directory : String) : m (Except FileFault Unit) := do
  if directory = "" then pure (.ok ())
  else
    match ← disk.find? directory with
    | some .directory => pure (.ok ())
    | _ => disk.makeDirectories directory

/-- Files are written into a directory, one after the other until one cannot be written. -/
def writeFiles (job : Job) : List (String × String) → Outcome → m Outcome
  | [], outcome => pure outcome
  | (name, content) :: rest, outcome => do
    let path := joinPath job.output name
    match ← disk.write path (Text.utf8 content) with
    | .error fault => pure { outcome with ending := .broken (.files fault) }
    | .ok () =>
      writeFiles job rest
        { outcome with
          output := outcome.output ++ " -> " ++ path ++ " created.\n"
          errors := outcome.errors ++ logOfWritten job.verbosity path }

/-- The files of a package are written. -/
def writePackage (job : Job) (package : Package) (outcome : Outcome) : m Outcome := do
  match ← prepareDirectory disk job.output with
  | .error fault => pure { outcome with ending := .broken (.files fault) }
  | .ok () => writeFiles disk job package.files outcome

/-- A job is done, at a point in time. -/
def runJob (time : DateTime) (job : Job) : m Outcome := do
  match ← loadModel disk reader job.input with
  | .error ending => pure { ending }
  | .ok model =>
    let package := model.package job.options time
    let errors := logOf job.verbosity package.log
    match package.result with
    | .ok package => writePackage disk job package { ending := .finished, errors }
    | .error e =>
      match e.message? with
      | some message => pure { ending := .refused ("Error: " ++ message), errors }
      | none => pure { ending := .failed e, errors := errors ++ failureText e }

/-- What the arguments ask for is done, at a point in time. -/
def run (time : DateTime) (arguments : List String) : m Outcome :=
  match Request.ofArguments? arguments with
  | none => pure { ending := .wrongArguments }
  | some .help => pure { ending := .finished, output := usage ++ "\n" }
  | some .version => pure { ending := .finished, output := version ++ "\n" }
  | some (.compile job) => runJob disk reader time job

end

/-- A run on a file tree, and the tree after it. -/
def runOnTree (reader : YamlReader) (time : DateTime) (arguments : List String) (tree : FileTree) :
    Outcome × FileTree :=
  (run treeDisk reader time arguments).run tree

end HomeAutomaton.CommandLine
