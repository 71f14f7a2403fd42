import HomeAutomaton.Yaml.Cursor

/-!
# Scalars in a YAML text

The three ways to write a text: plain, between quotes, and as a block of lines. In the first two a
line end stands for a blank, and a run of line ends for one less than there are. In a block every line
end counts, unless the block is folded.

Every function takes the place where the scalar starts and gives its characters and the place behind
it. Loops are bounded by the number of characters that are left, of which each round takes one.
-/

namespace HomeAutomaton.Yaml

/-- The line ends that a run of lines between two parts of a scalar stands for: `first` is the line
end before them, and `others` those that follow. -/
def foldBreaks (first : Char) (others : List Char) : List Char :=
  (if first ≠ '\n' then [first] else if others.isEmpty then [' '] else []) ++ others

/-! ### Plain scalars -/

/-- The line ends after the first between two parts of a plain scalar; `none` when a document marker
stands at the start of a line. -/
def plainBreaks : Nat → List Char → Cursor → Option (List Char) × Cursor
  | 0, breaks, c => (some breaks, c)
  | steps + 1, breaks, c =>
    if c.peek = ' ' then plainBreaks steps breaks c.advance
    else
      match c.lineBreak? with
      | none => (some breaks, c)
      | some (b, c) =>
        if c.atDocumentMarker then (none, c) else plainBreaks steps (breaks ++ [b]) c

/-- What the blanks and line ends at a place within a plain scalar stand for (nothing, when the scalar
ends here), and whether there was a line end. -/
def plainGap (c : Cursor) : List Char × Bool × Cursor :=
  let (blanks, c) := c.takeWhile (· = ' ')
  match c.lineBreak? with
  | none => (blanks, false, c)
  | some (first, c) =>
    if c.atDocumentMarker then ([], true, c)
    else
      match plainBreaks c.rest.length [] c with
      | (none, c) => ([], true, c)
      | (some others, c) => (foldBreaks first others, true, c)

/-- Does a word of a plain scalar end before this character, which `next` follows? -/
def endsPlain (inFlow : Bool) (ch next : Char) : Bool :=
  isSeparator ch ||
    (ch = ':' && (isSeparator next || (inFlow && ",[]\x7b\x7d".toList.contains next))) ||
    (inFlow && ",?[]\x7b\x7d".toList.contains ch)

/-- The characters of a word of a plain scalar. -/
def plainWord (inFlow : Bool) : List Char → List Char
  | [] => []
  | ch :: rest =>
    if endsPlain inFlow ch (rest.headD endMark) then [] else ch :: plainWord inFlow rest

/-- A plain scalar, of which `text` is read and `gap` stands before what follows. Also tells whether
the last gap crossed a line end. -/
def plainFrom (inFlow : Bool) (indent : Int) :
    Nat → List Char → List Char → Bool → Cursor → List Char × Bool × Cursor
  | 0, text, _, crossed, c => (text, crossed, c)
  | steps + 1, text, gap, crossed, c =>
    if c.peek = '#' then (text, crossed, c)
    else
      let word := plainWord inFlow c.rest
      if word.isEmpty then (text, crossed, c)
      else
        let (next, crossed, c) := plainGap (c.advanceBy word.length)
        let text := text ++ gap ++ word
        if next.isEmpty || c.peek = '#' || (!inFlow && (c.column : Int) < indent + 1) then
          (text, crossed, c)
        else plainFrom inFlow indent steps text next crossed c

/-- A plain scalar inside a collection indented by `indent`. -/
def plainScalar (inFlow : Bool) (indent : Int) (c : Cursor) : List Char × Bool × Cursor :=
  plainFrom inFlow indent c.rest.length [] [] false c

/-! ### Quoted scalars -/

/-- The character that an escape by one letter stands for. -/
def escapedChar? : Char → Option Char
  | '0' => some '\x00'
  | 'a' => some '\x07'
  | 'b' => some '\x08'
  | 't' => some '\t'
  | '\t' => some '\t'
  | 'n' => some '\n'
  | 'v' => some '\x0b'
  | 'f' => some '\x0c'
  | 'r' => some '\r'
  | 'e' => some '\x1b'
  | ' ' => some ' '
  | '"' => some '"'
  | '\\' => some '\\'
  | '/' => some '/'
  | 'N' => some '\x85'
  | '_' => some '\xa0'
  | 'L' => some '\u2028'
  | 'P' => some '\u2029'
  | _ => none

/-- How many hexadecimal digits follow a letter that starts an escape by code. -/
def codeWidth? : Char → Option Nat
  | 'x' => some 2
  | 'u' => some 4
  | 'U' => some 8
  | _ => none

/-- The character with a code. Half a pair of 16-bit units is no character and is replaced. -/
def charOfCode (n : Nat) : Except LoadError Char :=
  if n < 0x110000 then
    .ok (if 0xD800 ≤ n ∧ n < 0xE000 then Char.ofNat 0xFFFD else Char.ofNat n)
  else if n < 0x80000000 then .error .noSuchCharacter
  else .error .characterTooLarge

/-- The line ends at a place within a quoted scalar, with the blanks around them dropped. A document
marker at the start of a line is an error. -/
def quotedBreaks : Nat → List Char → Cursor → Except LoadError (List Char × Cursor)
  | 0, breaks, c => .ok (breaks, c)
  | steps + 1, breaks, c =>
    if c.atDocumentMarker then .error .malformed
    else
      let c := c.skipWhile fun ch => ch = ' ' || ch = '\t'
      match c.lineBreak? with
      | none => .ok (breaks, c)
      | some (b, c) => quotedBreaks steps (breaks ++ [b]) c

/-- What the blanks and line ends at a place within a quoted scalar stand for. -/
def quotedGap (c : Cursor) : Except LoadError (List Char × Cursor) :=
  let (blanks, c) := c.takeWhile fun ch => ch = ' ' || ch = '\t'
  match c.lineBreak? with
  | some (first, c) => do
    let (others, c) ← quotedBreaks (c.rest.length + 1) [] c
    .ok (foldBreaks first others, c)
  | none => if c.peek = endMark then .error .malformed else .ok (blanks, c)

/-- The escape behind a backslash in a double-quoted scalar. -/
def quotedEscape (c : Cursor) : Except LoadError (List Char × Cursor) :=
  match escapedChar? c.peek with
  | some ch => .ok ([ch], c.advance)
  | none =>
    match codeWidth? c.peek with
    | some width =>
      let c := c.advance
      let digits := c.rest.take width
      match Text.ofHex? digits with
      | none => .error .malformed
      | some code =>
        if digits.length < width then .error .malformed
        else do
          let ch ← charOfCode code
          .ok ([ch], c.advanceBy width)
    | none =>
      match c.lineBreak? with
      | some (_, c) => quotedBreaks (c.rest.length + 1) [] c
      | none => .error .malformed

/-- A quoted scalar behind its opening quote, of which `text` is read, backwards. -/
def quotedFrom (double : Bool) : Nat → List Char → Cursor → Except LoadError (List Char × Cursor)
  | 0, _, _ => .error .malformed
  | steps + 1, text, c =>
    let ch := c.peek
    if ch = (if double then '"' else '\'') then
      if !double && c.peekAt 1 = '\'' then quotedFrom double steps ('\'' :: text) (c.advanceBy 2)
      else .ok (text.reverse, c.advance)
    else if double && ch = '\\' then do
      let (chars, c) ← quotedEscape c.advance
      quotedFrom double steps (chars.reverse ++ text) c
    else if isSeparator ch then do
      let (chars, c) ← quotedGap c
      quotedFrom double steps (chars.reverse ++ text) c
    else quotedFrom double steps (ch :: text) c.advance

/-- A quoted scalar, at its opening quote. -/
def quotedScalar (double : Bool) (c : Cursor) : Except LoadError (List Char × Cursor) :=
  quotedFrom double (c.rest.length + 1) [] c.advance

/-! ### Block scalars -/

/-- What becomes of the line ends behind the last line of a block. -/
inductive Chomping where
  /-- One is kept, if there is one. -/
  | clip
  /-- All are dropped. -/
  | strip
  /-- All are kept. -/
  | keep
  deriving DecidableEq

/-- The chomping that a character in the header of a block asks for. -/
def chomping? : Char → Option Chomping
  | '+' => some .keep
  | '-' => some .strip
  | _ => none

/-- The indentation that a character in the header of a block asks for: a digit other than zero. -/
def blockIndent? (ch : Char) : Except LoadError (Option Nat) :=
  if ch = '0' then .error .malformed
  else if '1' ≤ ch ∧ ch ≤ '9' then .ok (some (ch.toNat - 48))
  else .ok none

/-- The header of a block behind its first character: chomping and indentation in either order. -/
def blockHeader (c : Cursor) : Except LoadError (Chomping × Option Nat × Cursor) := do
  let (chomping, indent, c) ←
    match chomping? c.peek with
    | some chomping => do
      let c := c.advance
      let indent ← blockIndent? c.peek
      .ok (chomping, indent, if indent.isSome then c.advance else c)
    | none => do
      let indent ← blockIndent? c.peek
      match indent with
      | none => .ok (Chomping.clip, indent, c)
      | some _ =>
        let c := c.advance
        match chomping? c.peek with
        | some chomping => .ok (chomping, indent, c.advance)
        | none => .ok (.clip, indent, c)
  if endsWord c.peek then .ok (chomping, indent, c) else .error .malformed

/-- The empty lines before a block whose indentation is to be found, and the widest indentation met
on the way. -/
def findIndent : Nat → List Char → Nat → Cursor → List Char × Nat × Cursor
  | 0, breaks, widest, c => (breaks, widest, c)
  | steps + 1, breaks, widest, c =>
    if c.peek = ' ' then
      let c := c.advance
      findIndent steps breaks (max widest c.column) c
    else
      match c.lineBreak? with
      | some (b, c) => findIndent steps (breaks ++ [b]) widest c
      | none => (breaks, widest, c)

/-- The place behind the blanks, up to a column. -/
def skipIndent (indent : Nat) (c : Cursor) : Cursor :=
  c.advanceBy ((c.rest.takeWhile (· = ' ')).length.min (indent - c.column))

/-- The empty lines at a place in a block, and the place of the first character of the next line. -/
def blockBreaks (indent : Nat) : Nat → List Char → Cursor → List Char × Cursor
  | 0, breaks, c => (breaks, c)
  | steps + 1, breaks, c =>
    let c := skipIndent indent c
    match c.lineBreak? with
    | some (b, c) => blockBreaks indent steps (breaks ++ [b]) c
    | none => (breaks, c)

/-- Is the character a blank or a tab? -/
def isGap (ch : Char) : Bool := ch = ' ' || ch = '\t'

/-- Is the cursor at a character of a line of the block? -/
def inBlock (indent : Nat) (c : Cursor) : Bool := c.column == indent && c.peek ≠ endMark

/-- The lines of a block from a place on: `text` is read before it, and `breaks` are the empty lines
directly before it. The result is the text, the line end of the last line, and the empty lines behind
it. -/
def blockLines (folded : Bool) (indent : Nat) :
    Nat → List Char → List Char → Cursor → List Char × List Char × List Char × Cursor
  | 0, text, breaks, c => (text, [], breaks, c)
  | steps + 1, text, breaks, c =>
    if inBlock indent c then
      let startsWithGap := isGap c.peek
      let (line, c) := c.takeWhile fun ch => !endsLine ch
      let text := text ++ breaks ++ line
      let (lineEnd, c) := match c.lineBreak? with
        | some (b, c) => ([b], c)
        | none => ([], c)
      let (breaks, c) := blockBreaks indent (c.rest.length + 1) [] c
      if inBlock indent c then
        let joint :=
          if folded && lineEnd = ['\n'] && !startsWithGap && !isGap c.peek then
            (if breaks.isEmpty then [' '] else [])
          else lineEnd
        blockLines folded indent steps (text ++ joint) breaks c
      else (text, lineEnd, breaks, c)
    else (text, [], breaks, c)

/-- A block scalar, at the character that starts it, inside a collection indented by `outer`. -/
def blockScalar (folded : Bool) (outer : Int) (c : Cursor) :
    Except LoadError (List Char × Cursor) := do
  let (chomping, explicit, c) ← blockHeader c.advance
  let c ← c.endOfLine
  let least := (outer + 1).toNat.max 1
  let (indent, breaks, c) := match explicit with
    | some n =>
      let indent := least + n - 1
      let (breaks, c) := blockBreaks indent (c.rest.length + 1) [] c
      (indent, breaks, c)
    | none =>
      let (breaks, widest, c) := findIndent c.rest.length [] 0 c
      (least.max widest, breaks, c)
  let (text, lineEnd, breaks, c) := blockLines folded indent (c.rest.length + 1) [] breaks c
  .ok (text ++ (if chomping = .strip then [] else lineEnd) ++
    (if chomping = .keep then breaks else []), c)

end HomeAutomaton.Yaml
