import HomeAutomaton.Data.Text
import HomeAutomaton.Text.Base64
import HomeAutomaton.Yaml.Cursor
import HomeAutomaton.Yaml.Tag

/-!
# Writing scalars of YAML

A scalar is written plainly if that reads back to the same value, and otherwise between single quotes,
or between double quotes if there are characters in it that have to be escaped, or blanks next to line
ends. Bytes are written as a block. A scalar that no way of writing gives its type is tagged.

* `Scalar.ofData?` is the tag and the text of a value.
* `Features.of` says what matters about a text.
* `Scalar.lines` writes a scalar.
-/

namespace HomeAutomaton.Yaml

open Text

/-- A scalar to be written. -/
structure Scalar where
  tag : Tag
  text : List Char
  /-- The scalar is to be written as a block, if possible. -/
  block : Bool := false

/-- A floating-point number as a plain scalar: with a point, also before an exponent. -/
def floatText (x : Binary64) : List Char :=
  if x.isNaN then ".nan".toList
  else if x.isInfinite then (if x.isNegative then "-.inf" else ".inf").toList
  else
    let cs := x.text.toList
    if cs.contains '.' then cs
    else cs.flatMap fun c => if c = 'e' then ['.', '0', 'e'] else [c]

/-- The scalar of a value that is one. -/
def Scalar.ofData? : Data → Option Scalar
  | .null => some { tag := .null, text := "null".toList }
  | .bool b => some { tag := .bool, text := (if b then "true" else "false").toList }
  | .int n => some { tag := .int, text := (decimal n).toList }
  | .float x => some { tag := .float, text := floatText x }
  | .str s => some { tag := .str, text := s.toList }
  | .bytes bs => some { tag := .binary, text := Base64.encodeLines bs, block := true }
  | .date d => some { tag := .timestamp, text := d.chars }
  | .dateTime t => some { tag := .timestamp, text := t.chars ' ' }
  | _ => none

/-- A tag in front of a node. -/
def Tag.mark (t : Tag) : List Char :=
  '!' :: '!' :: ((Tag.names.find? fun entry => entry.2 == t).map fun entry => entry.1.toList).getD []

/-! ### What matters about a text -/

/-- Does the character end a line of a scalar that is written? -/
def isWrittenBreak (c : Char) : Bool := c = '\n' || c = '\x85' || c = '\u2028' || c = '\u2029'

/-- Must the character be escaped? -/
def mustEscape (c : Char) : Bool :=
  let n := c.toNat
  !(c = '\n' || (0x20 ≤ n && n ≤ 0x7E) ||
    ((n == 0x85 || (0xA0 ≤ n && n ≤ 0xFFFD) || (0x10000 ≤ n && n < 0x10FFFF)) && n != 0xFEFF))

/-- What matters about a text. -/
structure Features where
  /-- Something in it has a meaning of its own outside of brackets. -/
  indicators : Bool
  lineBreaks : Bool
  escapes : Bool
  /-- A blank or line end is the first or last character. -/
  edges : Bool
  /-- The last character is a blank. -/
  endsWithBlank : Bool
  /-- A blank follows a line end. -/
  blankAfterBreak : Bool
  /-- A line end follows a blank. -/
  breakAfterBlank : Bool

/-- Is one of the pairs of neighbouring characters of this sort? -/
def anyPair (p : Char → Char → Bool) : List Char → Bool
  | a :: b :: rest => p a b || anyPair p (b :: rest)
  | _ => false

/-- Does a character that means something inside a text do so: a colon before a separator, or a hash
behind one? -/
def innerIndicator : Char → List Char → Bool
  | _, [] => false
  | before, c :: rest =>
    (c = ':' && isSeparator (rest.headD endMark)) || (c = '#' && isSeparator before) ||
      innerIndicator c rest

/-- Does the first character of a text mean something, or a colon or hash further on? -/
def hasIndicators (cs : List Char) : Bool :=
  match cs with
  | [] => false
  | c :: rest =>
    "---".toList.isPrefixOf cs || "...".toList.isPrefixOf cs ||
      "#,[]\x7b\x7d&*!|>'\"%@`".toList.contains c ||
      ((c = '?' || c = ':' || c = '-') && isSeparator (rest.headD endMark)) ||
      innerIndicator c rest

/-- Is the character a blank or a line end? -/
def isEdge (c : Char) : Bool := c = ' ' || isWrittenBreak c

/-- What matters about a text. -/
def Features.of (cs : List Char) : Features :=
  { indicators := hasIndicators cs
    lineBreaks := cs.any isWrittenBreak
    escapes := cs.any mustEscape
    edges := cs.head?.any isEdge || cs.getLast?.any isEdge
    endsWithBlank := cs.getLast? == some ' '
    blankAfterBreak := anyPair (fun a b => isWrittenBreak a && b = ' ') cs
    breakAfterBlank := anyPair (fun a b => a = ' ' && isWrittenBreak b) cs }

/-! ### Ways of writing -/

/-- A way of writing a scalar. -/
inductive Style where
  | plain
  | singleQuoted
  | doubleQuoted
  | block
  deriving DecidableEq, Repr

/-- Is the type of the scalar the one that its plain form has? -/
def Scalar.plainTag (s : Scalar) : Bool := Tag.ofPlain s.text == s.tag

/-- The way in which a scalar is written, as a key that stands on one line or elsewhere. -/
def Scalar.style (s : Scalar) (simpleKey : Bool) : Style :=
  let f := Features.of s.text
  let plain :=
    s.text.isEmpty || !(f.edges || f.blankAfterBreak || f.breakAfterBlank || f.escapes ||
      f.lineBreaks || f.indicators)
  let single := !(f.blankAfterBreak || f.breakAfterBlank || f.escapes)
  let block := !s.text.isEmpty && !(f.endsWithBlank || f.breakAfterBlank || f.escapes)
  if s.block then (if block && !simpleKey then .block else .doubleQuoted)
  else if s.plainTag && plain && !(simpleKey && (s.text.isEmpty || f.lineBreaks)) then .plain
  else if single && !(simpleKey && f.lineBreaks) then .singleQuoted
  else .doubleQuoted

/-- Blanks at the start of a line. -/
def pad (indent : Nat) : List Char := List.replicate indent ' '

/-- A single-quoted scalar behind its opening quote, as lines of which the first is `line`, read so
far backwards. Behind a run of line ends the text goes on at the indentation; a run that starts with a
line feed has one line end more than the text. `inBreaks` says that a run was read last. -/
def singleQuotedFrom (indent : Nat) (line : List Char) (inBreaks : Bool) :
    List Char → List (List Char)
  | [] =>
    if inBreaks then [line.reverse ++ pad indent ++ ['\'']] else [line.reverse ++ ['\'']]
  | c :: rest =>
    if isWrittenBreak c then
      if c = '\n' then
        if inBreaks then line.reverse :: singleQuotedFrom indent [] true rest
        else line.reverse :: [] :: singleQuotedFrom indent [] true rest
      else singleQuotedFrom indent (c :: line) true rest
    else
      let line := if inBreaks then (pad indent).reverse ++ line else line
      let shown := if c = '\'' then ['\'', '\''] else [c]
      singleQuotedFrom indent (shown ++ line) false rest

/-- The letter of an escape by a letter. -/
def escapeLetter? : Char → Option Char
  | '\x00' => some '0'
  | '\x07' => some 'a'
  | '\x08' => some 'b'
  | '\t' => some 't'
  | '\n' => some 'n'
  | '\x0b' => some 'v'
  | '\x0c' => some 'f'
  | '\r' => some 'r'
  | '\x1b' => some 'e'
  | '"' => some '"'
  | '\\' => some '\\'
  | '\x85' => some 'N'
  | '\u2028' => some 'L'
  | '\u2029' => some 'P'
  | _ => none

/-- Hexadecimal digits in upper case. -/
def upperHex (width n : Nat) : List Char :=
  (hexFixed width n).map fun c => if 'a' ≤ c then Char.ofNat (c.toNat - 32) else c

/-- A character between double quotes. -/
def doubleQuotedChar (c : Char) : List Char :=
  let n := c.toNat
  match escapeLetter? c with
  | some letter => ['\\', letter]
  | none =>
    if (0x20 ≤ n && n ≤ 0x7E) || (0xA0 ≤ n && n ≤ 0xFFFD && n != 0xFEFF) then [c]
    else if n ≤ 0xFF then '\\' :: 'x' :: upperHex 2 n
    else if n ≤ 0xFFFF then '\\' :: 'u' :: upperHex 4 n
    else '\\' :: 'U' :: upperHex 8 n

/-- What is said about the line ends of a block in its header. -/
def blockHints (cs : List Char) : List Char :=
  let leading := if cs.head?.any isEdge then ['2'] else []
  let trailing :=
    match cs.reverse with
    | [] => []
    | [c] => if isWrittenBreak c then ['+'] else ['-']
    | c :: d :: _ => if !isWrittenBreak c then ['-'] else if isWrittenBreak d then ['+'] else []
  leading ++ trailing

/-- The lines of a text that are ended by line feeds. -/
def textLines (line : List Char) : List Char → List (List Char)
  | [] => if line.isEmpty then [] else [line.reverse]
  | c :: rest => if c = '\n' then line.reverse :: textLines [] rest else textLines (c :: line) rest

/-- A scalar in its style: the lines, of which the first goes on behind what stands there already. -/
def Scalar.styledLines (s : Scalar) (indent : Nat) : Style → List (List Char)
  | .plain => [s.text]
  | .singleQuoted =>
    match singleQuotedFrom indent [] false s.text with
    | [] => []
    | first :: rest => ('\'' :: first) :: rest
  | .doubleQuoted => ['"' :: s.text.flatMap doubleQuotedChar ++ ['"']]
  | .block =>
    ('|' :: blockHints s.text) ::
      (textLines [] s.text).map fun line => if line.isEmpty then [] else pad indent ++ line

/-- The tag in front of a scalar, unless its style makes its type plain. -/
def Scalar.tagMark (s : Scalar) (style : Style) : List Char :=
  let known := if style = .plain then s.plainTag else s.tag == .str
  if known then [] else s.tag.mark ++ [' ']

/-- A scalar with its tag, if it needs one. -/
def Scalar.lines (s : Scalar) (indent : Nat) (simpleKey : Bool) : List (List Char) :=
  let style := s.style simpleKey
  match s.styledLines indent style with
  | [] => []
  | first :: rest => (s.tagMark style ++ first) :: rest

/-- Can a scalar be a key on one line? It must not be empty and have no line ends, and with its tag it
must be shorter than 128 characters, whether the tag is written or not. -/
def Scalar.isSimpleKey (s : Scalar) : Bool :=
  !s.text.isEmpty && !s.text.any isWrittenBreak && s.tag.mark.length + s.text.length < 128

end HomeAutomaton.Yaml
