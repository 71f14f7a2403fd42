import HomeAutomaton.Text.Hex
import HomeAutomaton.Text.Printable

/-!
# Quoted text

How texts and bytes are shown inside a message: between single quotes, or between double quotes when
the text holds a single quote and no double quote. The quote in use and the backslash stand behind a
backslash, line feed, carriage return and tab have letters, and every other character that is not
printable is written as its code in two, four or eight hexadecimal digits.
-/

namespace HomeAutomaton.Text

/-- The quote that a text is shown between. -/
def quoteFor (cs : List Char) : Char :=
  if cs.contains '\'' && !cs.contains '"' then '"' else '\''

/-- The code of a character that may not stand for itself. -/
def codeEscape (n : Nat) : List Char :=
  if n < 0x100 then '\\' :: 'x' :: hexFixed 2 n
  else if n < 0x10000 then '\\' :: 'u' :: hexFixed 4 n
  else '\\' :: 'U' :: hexFixed 8 n

/-- One character between the quotes `quote`. -/
def quotedChar (quote c : Char) : List Char :=
  if c = quote ∨ c = '\\' then ['\\', c]
  else if c = '\n' then ['\\', 'n']
  else if c = '\r' then ['\\', 'r']
  else if c = '\t' then ['\\', 't']
  else if isPrintable c then [c]
  else codeEscape c.toNat

/-- A text as it is shown inside a message. -/
def quoted (s : String) : String :=
  let quote := quoteFor s.toList
  String.ofList (quote :: s.toList.flatMap (quotedChar quote) ++ [quote])

/-- Bytes as they are shown inside a message: ASCII characters as in `quoted`, all others by code. -/
def quotedBytes (bytes : List UInt8) : String :=
  let cs := bytes.map fun b => Char.ofNat b.toNat
  let quote := quoteFor cs
  let shown := cs.flatMap fun c =>
    if c.toNat < 0x7F then quotedChar quote c else codeEscape c.toNat
  String.ofList ('b' :: quote :: shown ++ [quote])

end HomeAutomaton.Text
