import HomeAutomaton.Package
import HomeAutomaton.Text.Digits

/-!
# Command-line arguments

A command names one file and any number of options, in any order. Options have long names, which may
be abbreviated as long as one option is meant, and some have a short one; short ones may be written
together behind one dash. The value of an option stands behind an equals sign or in the next argument,
that of a short option also directly behind it. After a `--` nothing is an option any more; it stands
before the file or right behind it.

Each argument is read as an `Item`; the items are then taken one after the other. The help is given as
soon as it is asked for, so what is wrong behind that does no harm. An argument that is not understood
does harm at the end only, and a name that could mean several options before anything else.

* `Item.ofWord` reads one argument, `Item.ofArguments` all of them.
* `Choices.takeAll` takes the items.
* `Request.ofArguments?` says what is asked for; it is `none` if the arguments are wrong.
-/

namespace HomeAutomaton.CommandLine

open Text

/-- An option that stands alone. -/
inductive Flag where
  | help
  | version
  | diagram
  | noExport
  | verbose
  | quiet
  deriving DecidableEq, Repr

/-- An option with a value. -/
inductive Setting where
  | output
  | start
  | icon
  | mode
  deriving DecidableEq, Repr

/-- An option. -/
inductive Switch where
  | flag (f : Flag)
  | setting (s : Setting)
  deriving DecidableEq, Repr

/-- The long names of the options, without their dashes. -/
def longNames : List (String × Switch) :=
  [("help", .flag .help), ("version", .flag .version), ("output", .setting .output),
    ("prefix", .setting .start), ("dot", .flag .diagram), ("no-debug-model", .flag .noExport),
    ("icon", .setting .icon), ("mode", .setting .mode), ("verbose", .flag .verbose),
    ("quiet", .flag .quiet)]

/-- The short names of the options. -/
def shortNames : List (Char × Switch) :=
  [('h', .flag .help), ('v', .flag .version), ('o', .setting .output), ('q', .flag .quiet)]

/-! ### Items -/

/-- What an argument stands for. Short options that stand alone may be written behind one dash with
others. -/
inductive Item where
  /-- Options that stand alone; if not `known`, with something behind them that is no option. -/
  | flags (fs : List Flag) (known : Bool)
  /-- An option with a value, which may still be to come, behind options that stand alone. -/
  | setting (fs : List Flag) (s : Setting) (value : Option String)
  /-- Anything that is not an option. -/
  | operand (text : String)
  /-- The mark behind which there are no options. -/
  | separator
  /-- An option that stands alone, with a value. -/
  | misused
  deriving DecidableEq, Repr

namespace Item

/-- The item of an option with the value that stands behind its equals sign, if there is one. -/
def ofSwitch : Switch → Option (List Char) → Item
  | .flag f, none => flags [f] true
  | .flag _, some _ => misused
  | .setting s, value => setting [] s (value.map String.ofList)

/-- The item with one more option that stands alone in front. -/
def behind (f : Flag) : Item → Item
  | flags fs known => flags (f :: fs) known
  | setting fs s value => setting (f :: fs) s value
  | item => item

/-- The options whose long name starts with these characters; a whole name means that option alone. -/
def longMatches (name : List Char) : List Switch :=
  match longNames.find? fun e => e.1.toList == name with
  | some e => [e.2]
  | none => (longNames.filter fun e => name.isPrefixOf e.1.toList).map (·.2)

/-- The item of short options behind one dash. -/
def ofShort : List Char → Item
  | [] => flags [] true
  | c :: rest =>
    match shortNames.lookup c with
    | none => flags [] false
    | some (.setting s) =>
      match rest with
      | [] => setting [] s none
      | '=' :: value => setting [] s (some (String.ofList value))
      | value => setting [] s (some (String.ofList value))
    | some (.flag f) =>
      match rest with
      | '-' :: _ | '=' :: _ => misused
      | rest => (ofShort rest).behind f

/-- Is this a number behind a minus sign, and so no option? -/
def isNegativeNumber (cs : List Char) : Bool :=
  let isDecimalDigit (c : Char) : Bool := (unicodeDigitValue? c).isSome
  let cs := if cs.getLast? = some '\n' then cs.dropLast else cs
  match cs.dropWhile isDecimalDigit with
  | [] => !cs.isEmpty
  | '.' :: fraction => !fraction.isEmpty && fraction.all isDecimalDigit
  | _ => false

/-- The item of an argument that starts with a dash and is no option by name: numbers and texts of
several words are operands, anything else is not understood. -/
def ofDashed (word : List Char) : Item :=
  if isNegativeNumber (word.drop 1) || word.contains ' ' then operand (String.ofList word)
  else flags [] false

/-- The long name in an argument that starts with two dashes. -/
def longName (long : List Char) : List Char := long.takeWhile (· ≠ '=')

/-- Does the argument name a long option in a way that could mean several? -/
def isAmbiguous (word : String) : Bool :=
  match word.toList with
  | '-' :: '-' :: long => 1 < (longMatches (longName long)).length
  | _ => false

/-- The item of an argument that is not ambiguous. -/
def ofWord (word : String) : Item :=
  match word.toList with
  | '-' :: '-' :: long =>
    let name := longName long
    let value := if long.contains '=' then some (long.drop (name.length + 1)) else none
    match longMatches name with
    | switch :: _ => ofSwitch switch value
    | [] => ofDashed ('-' :: '-' :: long)
  | '-' :: c :: rest =>
    if (shortNames.lookup c).isSome then ofShort (c :: rest) else ofDashed ('-' :: c :: rest)
  | _ => operand word

/-- The items of all arguments, unless one of them is ambiguous. -/
def ofArguments? : List String → Option (List Item)
  | [] => some []
  | word :: rest =>
    if word = "--" then some (.separator :: rest.map .operand)
    else if isAmbiguous word then none
    else (ofArguments? rest).map (ofWord word :: ·)

end Item

/-! ### Choices -/

/-- The ways in which the automation can run. -/
def modes : List String := ["single", "restart", "queued", "parallel"]

/-- What the arguments ask for. -/
structure Choices where
  input : Option String := none
  output : String := "."
  start : String := ""
  icon : String := defaultIcon
  mode : String := defaultMode
  version : Bool := false
  diagram : Bool := false
  noExport : Bool := false
  verbose : Bool := false
  quiet : Bool := false
  /-- Does an option stand behind the file? -/
  optionBehind : Bool := false
  /-- Was something not understood? -/
  confused : Bool := false

/-- Why no more arguments are read. -/
inductive Stop where
  /-- The help was asked for. -/
  | help
  /-- Something is wrong. -/
  | wrong
  deriving DecidableEq, Repr

namespace Choices

/-- The choices with an option that stands alone. Nothing can be reported both in full and not at
all. -/
def setFlag (c : Choices) : Flag → Except Stop Choices
  | .help => .error .help
  | .version => .ok { c with version := true }
  | .diagram => .ok { c with diagram := true }
  | .noExport => .ok { c with noExport := true }
  | .verbose => if c.quiet then .error .wrong else .ok { c with verbose := true }
  | .quiet => if c.verbose then .error .wrong else .ok { c with quiet := true }

/-- The choices with the value of an option, if the option can have it. -/
def set (c : Choices) (s : Setting) (value : String) : Except Stop Choices :=
  match s with
  | .output => .ok { c with output := value }
  | .start => .ok { c with start := value }
  | .icon => .ok { c with icon := value }
  | .mode => if modes.contains value then .ok { c with mode := value } else .error .wrong

/-- The choices with options that stand alone, one after the other. -/
def setFlags (c : Choices) (fs : List Flag) : Except Stop Choices :=
  fs.foldlM setFlag { c with optionBehind := c.input.isSome }

/-- The choices with one more operand, which is the file if there is none yet. -/
def setOperand (c : Choices) (text : String) : Choices :=
  if c.input.isNone then { c with input := some text } else { c with confused := true }

/-- The choices with all items. -/
def takeAll (c : Choices) : List Item → Except Stop Choices
  | [] => .ok c
  | .flags fs known :: rest => do
    let c ← c.setFlags fs
    takeAll { c with confused := c.confused || !known } rest
  | .setting fs s (some value) :: rest => do
    let c ← c.setFlags fs
    takeAll (← c.set s value) rest
  -- the value is the next argument
  | .setting fs s none :: .operand value :: rest => do
    let c ← c.setFlags fs
    takeAll (← c.set s value) rest
  | .setting _ _ none :: _ => .error .wrong
  | .operand text :: rest => takeAll (c.setOperand text) rest
  | .separator :: rest => takeAll { c with confused := c.confused || c.optionBehind } rest
  | .misused :: _ => .error .wrong

end Choices

/-! ### Requests -/

/-- How much is reported. -/
inductive Verbosity where
  | quiet
  | normal
  | verbose
  deriving DecidableEq, Repr

/-- A model to be compiled. -/
structure Job where
  input : String
  /-- The directory for the files. -/
  output : String := "."
  options : PackageOptions := {}
  verbosity : Verbosity := .normal

/-- What is asked for. -/
inductive Request where
  | help
  | version
  | compile (job : Job)

namespace Choices

/-- The job that is chosen, with this input. -/
def job (c : Choices) (input : String) : Job :=
  { input
    output := c.output
    options :=
      { appearance := { icon := c.icon, mode := c.mode }
        start := c.start
        withExport := !c.noExport
        withDiagram := c.diagram }
    verbosity := if c.verbose then .verbose else if c.quiet then .quiet else .normal }

/-- What is asked for by the choices; a job has to have an input. -/
def request? (c : Choices) : Option Request :=
  if c.confused then none
  else if c.version then some .version
  else
    match c.input with
    | none => none
    | some input => if input = "" then none else some (.compile (c.job input))

end Choices

/-- What the arguments ask for, unless they are wrong. -/
def Request.ofArguments? (arguments : List String) : Option Request :=
  match Item.ofArguments? arguments with
  | none => none
  | some items =>
    match Choices.takeAll {} items with
    | .ok choices => choices.request?
    | .error .help => some .help
    | .error .wrong => none

end HomeAutomaton.CommandLine
