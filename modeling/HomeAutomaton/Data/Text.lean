import HomeAutomaton.Data.Basic
import HomeAutomaton.Number.Shortest
import HomeAutomaton.Text.Quoted

/-!
# Values as text

How values appear inside messages, names and identifiers. `Data.text` is the text of a value on its
own: a text is itself. `Data.shown` is the form inside a container and wherever a message quotes a
value: texts stand between quotes. `Data.typeName` names the type of a value. An integer that is too long
to be written has no text, and neither has what holds one, which is what `Data.hasLongNumber` tells.
-/

namespace HomeAutomaton

open Text

/-- A length of time, counted in whole days, seconds and microseconds, the days alone with a sign. -/
def durationShown (microseconds : Int) : String :=
  let days := Int.fdiv microseconds DateTime.dayLength
  let rest := (Int.fmod microseconds DateTime.dayLength).toNat
  let parts :=
    (if days = 0 then [] else ["days=" ++ decimal days]) ++
    (if rest / 1000000 = 0 then [] else ["seconds=" ++ decimal (rest / 1000000)]) ++
    (if rest % 1000000 = 0 then [] else ["microseconds=" ++ decimal (rest % 1000000)])
  let shown := if parts.isEmpty then "0" else String.intercalate ", " parts
  "datetime.timedelta(" ++ shown ++ ")"

/-- A date by its three numbers. -/
def Date.shown (d : Date) : String :=
  "datetime.date(" ++ String.intercalate ", " ([d.year, d.month, d.day].map fun (n : Nat) => decimal n) ++ ")"

/-- A point in time by its numbers, of which a zero microsecond, and before it a zero second, are left
out. -/
def DateTime.shownFields (t : DateTime) : String :=
  let clock := [t.date.year, t.date.month, t.date.day, t.hour, t.minute]
  let fields :=
    if t.microsecond ≠ 0 then clock ++ [t.second, t.microsecond]
    else if t.second ≠ 0 then clock ++ [t.second]
    else clock
  let zone := match t.offset with
    | none => []
    | some 0 => ["tzinfo=datetime.timezone.utc"]
    | some o => ["tzinfo=datetime.timezone(" ++ durationShown o ++ ")"]
  "datetime.datetime(" ++ String.intercalate ", " ((fields.map fun (n : Nat) => decimal n) ++ zone) ++ ")"

namespace Data

/-- The name of a value's type. -/
def typeName : Data → String
  | null => "NoneType"
  | bool _ => "bool"
  | int _ => "int"
  | float _ => "float"
  | str _ => "str"
  | bytes _ => "bytes"
  | date _ => "date"
  | dateTime _ => "datetime"
  | kind _ => "NodeKind"
  | list _ => "list"
  | tuple _ => "tuple"
  | set _ => "set"
  | map _ => "dict"
  | object .. => "object"
  | up _ => "object"

/-- A scalar as it is shown inside a container. -/
def shownScalar : Data → String
  | null => "None"
  | bool b => if b then "True" else "False"
  | int n => decimal n
  | float x => x.text
  | str s => quoted s
  | bytes bs => quotedBytes bs
  | date d => d.shown
  | dateTime t => t.shownFields
  | kind k => "<NodeKind." ++ k.constant ++ ": " ++ quoted k.name ++ ">"
  | _ => "<object>"

/-- The mark of a container met inside itself, given the marks of the containers around the place. -/
def upShown (around : List String) (n : Nat) : String := around.getD (n - 1) "..."

mutual

/-- A value as it is shown inside containers with the marks `around`. -/
def shownIn (around : List String) : Data → String
  | list items =>
    "[" ++ String.intercalate ", " (shownItems ("[...]" :: around) items) ++ "]"
  | tuple [item] => "(" ++ shownIn ("(...)" :: around) item ++ ",)"
  | tuple items =>
    "(" ++ String.intercalate ", " (shownItems ("(...)" :: around) items) ++ ")"
  | set [] => "set()"
  | set items =>
    "\x7b" ++ String.intercalate ", " (shownItems ("set(...)" :: around) items) ++ "\x7d"
  | map entries =>
    "\x7b" ++ String.intercalate ", " (shownEntries ("\x7b...\x7d" :: around) entries) ++ "\x7d"
  | up n => upShown around n
  | scalar => shownScalar scalar

/-- The items of a container. -/
def shownItems (around : List String) : List Data → List String
  | [] => []
  | x :: xs => shownIn around x :: shownItems around xs

/-- The entries of a mapping. -/
def shownEntries (around : List String) : List (Data × Data) → List String
  | [] => []
  | (k, v) :: rest =>
    (shownIn around k ++ ": " ++ shownIn around v) :: shownEntries around rest

end

mutual

/-- Is there an integer in the value that is too long to be written? -/
def hasLongNumber : Data → Bool
  | int n => isTooLong n
  | list items | tuple items | set items => anyLongNumber items
  | map entries => anyLongEntry entries
  | _ => false

/-- Is there one in any of the values? -/
def anyLongNumber : List Data → Bool
  | [] => false
  | x :: xs => hasLongNumber x || anyLongNumber xs

/-- Is there one in any of the entries? -/
def anyLongEntry : List (Data × Data) → Bool
  | [] => false
  | (k, v) :: rest => hasLongNumber k || hasLongNumber v || anyLongEntry rest

end

/-- A value as a message quotes it. -/
def shown (d : Data) : String := shownIn [] d

/-- The text of a value on its own. -/
def text : Data → String
  | str s => s
  | date d => d.text
  | dateTime t => t.spacedText
  | kind k => "NodeKind." ++ k.constant
  | d => d.shown

@[simp] theorem text_str (s : String) : text (str s) = s := rfl

/-- The text of a value in the place of a name. What counts as missing has none. -/
def nameText (d : Data) : String := if d.isFilled then d.text else ""

end Data

end HomeAutomaton
