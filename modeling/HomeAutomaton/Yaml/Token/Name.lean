import HomeAutomaton.Text.Digits
import HomeAutomaton.Yaml.Cursor
import HomeAutomaton.Yaml.Token.Basic

/-!
# Names in a YAML text

Anchors and aliases, tags, and directives.
-/

namespace HomeAutomaton.Yaml

open Text

/-! ### Anchors and aliases -/

/-- May the character stand directly behind the name of an anchor or alias? -/
def endsAnchor (ch : Char) : Bool := isSeparator ch || "?:,]\x7d%@`".toList.contains ch

/-- The name of an anchor or alias, at the character that starts it. -/
def anchorName (c : Cursor) : Except LoadError (String × Cursor) :=
  let (name, c) := c.advance.takeWhile isNameChar
  if name.isEmpty || !endsAnchor c.peek then .error .malformed else .ok (String.ofList name, c)

/-! ### Tags -/

/-- A character that stands for itself in a tag. -/
def isTagChar (ch : Char) : Bool := isNameChar ch || ";/?:@&=+$,_.!~*'()[]".toList.contains ch

/-- The bytes of the escapes at a place, each a percent sign with two hexadecimal digits. -/
def escapedBytes : List Char → Except LoadError (List UInt8)
  | '%' :: a :: b :: rest => do
    match ofHex? [a, b] with
    | none => .error .malformed
    | some n =>
      let bytes ← escapedBytes rest
      .ok (UInt8.ofNat n :: bytes)
  | '%' :: _ => .error .malformed
  | _ => .ok []

/-- The part of a tag behind its handle, with its escapes resolved; `text` is what was read of it. -/
def tagRestFrom : Nat → List Char → Cursor → Except LoadError (List Char × Cursor)
  | 0, text, c => .ok (text, c)
  | steps + 1, text, c =>
    if c.peek = '%' then do
      let bytes ← escapedBytes c.rest
      match String.fromUTF8? (ByteArray.mk bytes.toArray) with
      | none => .error .malformed
      | some s => tagRestFrom steps (text ++ s.toList) (c.advanceBy (3 * bytes.length))
    else if isTagChar c.peek then
      let (chars, c) := c.takeWhile isTagChar
      tagRestFrom steps (text ++ chars) c
    else .ok (text, c)

/-- The part of a tag behind its handle, which is not empty. -/
def tagRest (c : Cursor) : Except LoadError (String × Cursor) := do
  let (text, next) ← tagRestFrom (c.rest.length + 1) [] c
  if next.index = c.index then .error .malformed else .ok (String.ofList text, next)

/-- A tag handle: one exclamation mark, or a name between two. -/
def tagHandle (c : Cursor) : Except LoadError (String × Cursor) :=
  if c.peek ≠ '!' then .error .malformed
  else
    let c := c.advance
    if c.peek = ' ' then .ok ("!", c)
    else
      let (name, c) := c.takeWhile isNameChar
      if c.peek = '!' then .ok (String.ofList ('!' :: name ++ ['!']), c.advance)
      else .error .malformed

/-- A tag, at the character that starts it. -/
def tagToken (c : Cursor) : Except LoadError (Token × Cursor) := do
  let (token, c) ←
    if c.peekAt 1 = '<' then do
      let (rest, c) ← tagRest (c.advanceBy 2)
      if c.peek = '>' then Except.ok (Token.tag none rest, c.advance) else .error .malformed
    else if isSeparator (c.peekAt 1) then .ok (.tag none "!", c.advance)
    else
      let word := (c.rest.drop 1).takeWhile fun ch => !endsWord ch
      let (handle, c) ← if word.contains '!' then tagHandle c else .ok ("!", c.advance)
      let (rest, c) ← tagRest c
      .ok (.tag (some handle) rest, c)
  if endsWord c.peek then .ok (token, c) else .error .malformed

/-! ### Directives -/

/-- The number at a place. -/
def directiveNumber (c : Cursor) : Except LoadError (Nat × Cursor) :=
  let (digits, c) := c.takeWhile isDigit
  if digitLimit < digits.length then .error .versionTooLong
  else
    match natOfDigits? digits with
    | some n => .ok (n, c)
    | none => .error .malformed

/-- A directive, at the character that starts it, and the line end behind it. -/
def directiveToken (c : Cursor) : Except LoadError (Token × Cursor) := do
  let (name, c) := c.advance.takeWhile isNameChar
  if name.isEmpty || !endsWord c.peek then .error .malformed
  else
    let (token, c) ←
      if name = "YAML".toList then do
        let (major, c) ← directiveNumber (c.skipWhile (· = ' '))
        if c.peek ≠ '.' then .error .malformed
        else
          let (_, c) ← directiveNumber c.advance
          if endsWord c.peek then Except.ok (Token.versionDirective major, c)
          else .error .malformed
      else if name = "TAG".toList then do
        let (handle, c) ← tagHandle (c.skipWhile (· = ' '))
        if c.peek ≠ ' ' then .error .malformed
        else
          let (start, c) ← tagRest (c.skipWhile (· = ' '))
          if endsWord c.peek then .ok (.tagDirective handle start, c) else .error .malformed
      else .ok (.otherDirective, c.skipWhile fun ch => !endsLine ch)
    let c ← c.endOfLine
    .ok (token, c)

end HomeAutomaton.Yaml
