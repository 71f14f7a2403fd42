import HomeAutomaton.Text.Hex
import HomeAutomaton.Yaml.Error

/-!
# A place in a YAML text

The characters that are left, with their line and column. Blanks, tabs and line ends have fixed
meanings in YAML: a line ends at a line feed, a carriage return (with or without a line feed), the
next-line control, or one of the two Unicode separators. The end of the text is read as the character
NUL, which a text cannot contain.
-/

namespace HomeAutomaton.Yaml

/-- May the character occur in a text at all? -/
def isAllowed (c : Char) : Bool :=
  let n := c.toNat
  n == 0x09 || n == 0x0A || n == 0x0D || (0x20 ≤ n && n ≤ 0x7E) || n == 0x85 ||
    (0xA0 ≤ n && n ≤ 0xFFFD) || 0x10000 ≤ n

/-- What the end of the text is read as. -/
def endMark : Char := '\x00'

/-- Does the character end a line? -/
def isBreak (c : Char) : Bool :=
  c = '\n' || c = '\r' || c = '\x85' || c = '\u2028' || c = '\u2029'

/-- A line end, or the end of the text. -/
def endsLine (c : Char) : Bool := isBreak c || c = endMark

/-- A blank, a line end, or the end of the text. -/
def endsWord (c : Char) : Bool := c = ' ' || endsLine c

/-- A blank, a tab, a line end, or the end of the text. -/
def isSeparator (c : Char) : Bool := c = '\t' || endsWord c

/-- A letter, a digit, a hyphen or an underscore, of ASCII. -/
def isNameChar (c : Char) : Bool :=
  ('0' ≤ c && c ≤ '9') || ('A' ≤ c && c ≤ 'Z') || ('a' ≤ c && c ≤ 'z') || c = '-' || c = '_'

/-- A place in a text. -/
structure Cursor where
  /-- The characters that are left. -/
  rest : List Char
  /-- How many characters were passed. -/
  index : Nat := 0
  line : Nat := 0
  column : Nat := 0

namespace Cursor

/-- The next character. -/
def peek (c : Cursor) : Char := c.rest.headD endMark

/-- The character `n` places further on. -/
def peekAt (c : Cursor) (n : Nat) : Char := c.rest.getD n endMark

/-- The place behind the next character. A byte order mark has no width. -/
def advance (c : Cursor) : Cursor :=
  match c.rest with
  | [] => c
  | ch :: rest =>
    if isBreak ch && !(ch = '\r' && rest.headD endMark = '\n') then
      { rest, index := c.index + 1, line := c.line + 1, column := 0 }
    else if ch = '\uFEFF' then { c with rest, index := c.index + 1 }
    else { c with rest, index := c.index + 1, column := c.column + 1 }

/-- The place `n` characters further on. -/
def advanceBy (c : Cursor) : Nat → Cursor
  | 0 => c
  | n + 1 => c.advance.advanceBy n

/-- The characters up to the first that does not have the property, and the place of that one. -/
def takeWhile (c : Cursor) (p : Char → Bool) : List Char × Cursor :=
  let taken := c.rest.takeWhile p
  (taken, c.advanceBy taken.length)

/-- The place of the first character that does not have the property. -/
def skipWhile (c : Cursor) (p : Char → Bool) : Cursor := (c.takeWhile p).2

/-- The line end at this place, as the one character that it stands for, and the place behind it. -/
def lineBreak? (c : Cursor) : Option (Char × Cursor) :=
  if c.peek = '\r' && c.peekAt 1 = '\n' then some ('\n', c.advanceBy 2)
  else if c.peek = '\r' || c.peek = '\n' || c.peek = '\x85' then some ('\n', c.advance)
  else if isBreak c.peek then some (c.peek, c.advance)
  else none

/-- Is there a document marker, three equal characters followed by a separator, at this place? -/
def atMarker (c : Cursor) (mark : Char) : Bool :=
  c.peek = mark && c.peekAt 1 = mark && c.peekAt 2 = mark && isSeparator (c.peekAt 3)

/-- Is there a marker that starts or ends a document at this place? -/
def atDocumentMarker (c : Cursor) : Bool := c.atMarker '-' || c.atMarker '.'

/-- The rest of a line that may hold nothing but blanks and a comment, and the place behind it. -/
def endOfLine (c : Cursor) : Except LoadError Cursor :=
  let c := c.skipWhile (· = ' ')
  let c := if c.peek = '#' then c.skipWhile fun ch => !endsLine ch else c
  match c.lineBreak? with
  | some (_, c) => .ok c
  | none => if c.peek = endMark then .ok c else .error .malformed

end Cursor

end HomeAutomaton.Yaml
