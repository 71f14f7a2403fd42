import HomeAutomaton.Data.Text

/-!
# Printing JSON

Values as JSON, on one line or with one item a line. Characters beyond ASCII stand for themselves;
quotes, backslashes and control characters are escaped. Numbers that are not finite are written as
`NaN`, `Infinity` and `-Infinity`.

* `Json.print` with an indent writes every item on a line of its own, without one it writes one line.
-/

namespace HomeAutomaton.Json

open Text

/-- A character inside a string. -/
def escapeChar (c : Char) : List Char :=
  if c = '"' ∨ c = '\\' then ['\\', c]
  else if c = '\n' then ['\\', 'n']
  else if c = '\r' then ['\\', 'r']
  else if c = '\t' then ['\\', 't']
  else if c = '\x08' then ['\\', 'b']
  else if c = '\x0c' then ['\\', 'f']
  else if c.toNat < 0x20 then '\\' :: 'u' :: hexFixed 4 c.toNat
  else [c]

/-- A string between quotes. -/
def string (s : String) : String :=
  String.ofList ('"' :: s.toList.flatMap escapeChar ++ ['"'])

/-- A floating-point number. -/
def float (x : Binary64) : String :=
  if x.isNaN then "NaN"
  else if x.isInfinite then (if x.isNegative then "-Infinity" else "Infinity")
  else x.text

/-- A value that is not a container. -/
def scalarText : Data → String
  | .null => "null"
  | .bool b => if b then "true" else "false"
  | .int n => decimal n
  | .float x => float x
  | .str s => string s
  | d => string d.text

/-- Where a new item starts: on a new line behind the blanks of its level, or behind a blank. -/
def breakBefore (indent : Option Nat) (level : Nat) : String :=
  match indent with
  | none => ""
  | some width => String.ofList ('\n' :: List.replicate (width * level) ' ')

/-- What stands between two items. -/
def separator (indent : Option Nat) (level : Nat) : String :=
  match indent with
  | none => ", "
  | some _ => "," ++ breakBefore indent level

/-- Items between brackets. -/
def bracketed (indent : Option Nat) (level : Nat) (opening closing : String) :
    List String → String
  | [] => opening ++ closing
  | items =>
    opening ++ breakBefore indent (level + 1) ++
      String.intercalate (separator indent (level + 1)) items ++ breakBefore indent level ++ closing

mutual

/-- A value at a level of nesting. -/
def printAt (indent : Option Nat) (level : Nat) : Data → String
  | .list items => bracketed indent level "[" "]" (printItems indent (level + 1) items)
  | .tuple items => bracketed indent level "[" "]" (printItems indent (level + 1) items)
  | .map entries =>
    bracketed indent level "\x7b" "\x7d" (printEntries indent (level + 1) entries)
  | d => scalarText d

/-- The items of a sequence. -/
def printItems (indent : Option Nat) (level : Nat) : List Data → List String
  | [] => []
  | x :: xs => printAt indent level x :: printItems indent level xs

/-- The entries of a mapping. -/
def printEntries (indent : Option Nat) (level : Nat) : List (Data × Data) → List String
  | [] => []
  | (k, v) :: rest =>
    (string k.text ++ ": " ++ printAt indent level v) :: printEntries indent level rest

end

/-- A value as JSON text. -/
def print (indent : Option Nat) (d : Data) : String := printAt indent 0 d

end HomeAutomaton.Json
