import HomeAutomaton.Yaml.Token.Name
import HomeAutomaton.Yaml.Token.Scalar

/-!
# Splitting a YAML text into tokens

A mapping key is recognised only by the colon behind it, when its tokens have been read already. So
wherever a key may start, an open `slot` is left among the tokens, and the colon decides what it
stands for: nothing, a key, or a key that starts a new block mapping. Slots that no colon decides stand
for nothing. The list of pieces only ever grows.

A key that is not marked has to be on one line, and at most 1024 characters long.

* `Scan.next` reads one piece.
* `Token.ofText` gives the tokens of a text. A failure ends the tokens early and is reported with them,
  for a reader who gets that far. A piece that may still turn out to start a key is not given before
  that is settled, so the tokens end before the first such piece if the failure comes first.
-/

namespace HomeAutomaton.Yaml

/-- What a slot stands for. -/
inductive Slot where
  | nothing
  | key
  /-- A key that starts a new block mapping. -/
  | firstKey
  deriving DecidableEq, Repr

/-- A token, or the slot with a number. -/
inductive Piece where
  | token (t : Token)
  | slot (number : Nat)

/-- A place where a key may have started. -/
structure OpenKey where
  slot : Nat
  /-- The key is the only thing that can stand there. -/
  required : Bool
  index : Nat
  line : Nat
  column : Nat

/-- The state of reading. -/
structure Scan where
  cursor : Cursor
  /-- The pieces read, the last one first. -/
  pieces : List Piece := []
  slots : Array Slot := #[]
  /-- The columns of the open block collections, the innermost first. -/
  columns : List Nat := []
  /-- May a key start here? -/
  keyAllowed : Bool := true
  /-- The key that may have started in the innermost flow collection, or outside of all. -/
  openKey : Option OpenKey := none
  /-- The keys that may have started in the collections around it, the nearest first. -/
  outerKeys : List (Option OpenKey) := []
  done : Bool := false

namespace Scan

/-- Are we inside a flow collection? -/
def inFlow (s : Scan) : Bool := !s.outerKeys.isEmpty

/-- The column of the innermost block collection. -/
def indent (s : Scan) : Int :=
  match s.columns with
  | [] => -1
  | column :: _ => column

/-- One more token. -/
def push (s : Scan) (t : Token) : Scan := { s with pieces := .token t :: s.pieces }

/-- Block collections that are indented further than the column end here. -/
def unwind (s : Scan) (column : Int) : Scan :=
  if s.inFlow then s
  else
    let ended := s.columns.takeWhile fun (n : Nat) => decide (column < (n : Int))
    { s with
      columns := s.columns.drop ended.length
      pieces := List.replicate ended.length (.token .blockEnd) ++ s.pieces }

/-- A block collection may start at this column, with this token. -/
def openBlock (s : Scan) (column : Nat) (t : Token) : Scan :=
  if s.indent < column then { s.push t with columns := column :: s.columns } else s

/-- Is the open key too far back to be a key still? -/
def isStale (s : Scan) (k : OpenKey) : Bool :=
  k.line ≠ s.cursor.line || k.index + 1024 < s.cursor.index

/-- Open keys that are too far back are given up. -/
def dropStale (s : Scan) : Except LoadError Scan :=
  let fresh (k : Option OpenKey) : Option OpenKey := k.filter fun k => !s.isStale k
  if (s.openKey :: s.outerKeys).any fun k => k.any fun k => k.required && s.isStale k then
    .error .malformed
  else .ok { s with openKey := fresh s.openKey, outerKeys := s.outerKeys.map fresh }

/-- The open key is given up. -/
def dropKey (s : Scan) : Except LoadError Scan :=
  if s.openKey.any (·.required) then .error .malformed else .ok { s with openKey := none }

/-- A key may start here, if one is allowed. -/
def markKey (s : Scan) : Except LoadError Scan :=
  if s.keyAllowed then do
    let s ← s.dropKey
    let key : OpenKey :=
      { slot := s.slots.size
        required := !s.inFlow && s.indent == s.cursor.column
        index := s.cursor.index
        line := s.cursor.line
        column := s.cursor.column }
    .ok { s with
      openKey := some key
      slots := s.slots.push .nothing
      pieces := .slot key.slot :: s.pieces }
  else .ok s

/-- The place of the next token, behind blanks, comments and line ends. -/
def skipGap (s : Scan) : Nat → Scan
  | 0 => s
  | steps + 1 =>
    let c := s.cursor.skipWhile (· = ' ')
    let c := if c.peek = '#' then c.skipWhile fun ch => !endsLine ch else c
    match c.lineBreak? with
    | some (_, c) => { s with cursor := c, keyAllowed := s.keyAllowed || !s.inFlow }.skipGap steps
    | none => { s with cursor := c }

/-! ### The pieces -/

/-- The end of the text. -/
def finish (s : Scan) : Except LoadError Scan := do
  let s ← (s.unwind (-1)).dropKey
  .ok { s.push .streamEnd with outerKeys := [], done := true }

/-- A directive. -/
def directive (s : Scan) : Except LoadError Scan := do
  let s ← (s.unwind (-1)).dropKey
  let (t, c) ← directiveToken s.cursor
  .ok { s.push t with cursor := c, keyAllowed := false }

/-- A document marker. -/
def documentMarker (s : Scan) (t : Token) : Except LoadError Scan := do
  let s ← (s.unwind (-1)).dropKey
  .ok { s.push t with cursor := s.cursor.advanceBy 3, keyAllowed := false }

/-- The start of a flow collection. -/
def openFlow (s : Scan) (t : Token) : Except LoadError Scan := do
  let s ← s.markKey
  .ok { s.push t with
    cursor := s.cursor.advance
    keyAllowed := true
    openKey := none
    outerKeys := s.openKey :: s.outerKeys }

/-- The end of a flow collection. -/
def closeFlow (s : Scan) (t : Token) : Except LoadError Scan := do
  let s ← s.dropKey
  match s.outerKeys with
  | [] => .error .malformed
  | outer :: rest =>
    .ok { s.push t with
      cursor := s.cursor.advance
      keyAllowed := false
      openKey := outer
      outerKeys := rest }

/-- A comma. -/
def flowEntry (s : Scan) : Except LoadError Scan := do
  let s ← s.dropKey
  .ok { s.push .flowEntry with cursor := s.cursor.advance, keyAllowed := true }

/-- A hyphen that starts an item. -/
def blockEntry (s : Scan) : Except LoadError Scan := do
  if !s.inFlow && !s.keyAllowed then .error .malformed
  else
    let s := if s.inFlow then s else s.openBlock s.cursor.column .blockSequenceStart
    let s ← s.dropKey
    .ok { s.push .blockEntry with cursor := s.cursor.advance, keyAllowed := true }

/-- A question mark that starts a key. -/
def explicitKey (s : Scan) : Except LoadError Scan := do
  if !s.inFlow && !s.keyAllowed then .error .malformed
  else
    let s := if s.inFlow then s else s.openBlock s.cursor.column .blockMappingStart
    let s ← s.dropKey
    .ok { s.push .key with cursor := s.cursor.advance, keyAllowed := !s.inFlow }

/-- A colon that starts a value. -/
def mappingValue (s : Scan) : Except LoadError Scan := do
  match s.openKey with
  | some k =>
    let starts := !s.inFlow && s.indent < (k.column : Int)
    let s := { s with
      openKey := none
      slots := s.slots.setIfInBounds k.slot (if starts then .firstKey else .key)
      columns := if starts then k.column :: s.columns else s.columns
      keyAllowed := false }
    .ok { s.push .value with cursor := s.cursor.advance }
  | none =>
    if !s.inFlow && !s.keyAllowed then .error .malformed
    else
      let s := if s.inFlow then s else s.openBlock s.cursor.column .blockMappingStart
      .ok { s.push .value with cursor := s.cursor.advance, keyAllowed := !s.inFlow }

/-- A token that may be a key, or the start of one: an alias, an anchor, a tag or a quoted scalar. -/
def keyLike (s : Scan) (read : Cursor → Except LoadError (Token × Cursor)) :
    Except LoadError Scan := do
  let s ← s.markKey
  let (t, c) ← read s.cursor
  .ok { s.push t with cursor := c, keyAllowed := false }

/-- A quoted scalar. -/
def quoted (s : Scan) (double : Bool) : Except LoadError Scan :=
  s.keyLike fun c => do
    let (text, c) ← quotedScalar double c
    .ok (.scalar false (String.ofList text), c)

/-- A block scalar. -/
def block (s : Scan) (folded : Bool) : Except LoadError Scan := do
  let s ← s.dropKey
  let (text, c) ← blockScalar folded s.indent s.cursor
  .ok { s.push (.scalar false (String.ofList text)) with cursor := c, keyAllowed := true }

/-- A plain scalar. -/
def plain (s : Scan) : Except LoadError Scan := do
  let s ← s.markKey
  let (text, crossed, c) := plainScalar s.inFlow s.indent s.cursor
  .ok { s.push (.scalar true (String.ofList text)) with cursor := c, keyAllowed := crossed }

/-- Can a plain scalar start here? -/
def startsPlain (s : Scan) : Bool :=
  let ch := s.cursor.peek
  !(isSeparator ch || "-?:,[]\x7b\x7d#&*!|>'\"%@`".toList.contains ch) ||
    (!isSeparator (s.cursor.peekAt 1) && (ch = '-' || (!s.inFlow && (ch = '?' || ch = ':'))))

/-- The next piece. -/
def next (s : Scan) : Except LoadError Scan := do
  let s := s.skipGap (s.cursor.rest.length + 1)
  let s ← s.dropStale
  let s := s.unwind s.cursor.column
  let ch := s.cursor.peek
  let atStart := s.cursor.column == 0
  let apart := isSeparator (s.cursor.peekAt 1)
  if ch = endMark then s.finish
  else if ch = '%' && atStart then s.directive
  else if ch = '-' && atStart && s.cursor.atMarker '-' then s.documentMarker .documentStart
  else if ch = '.' && atStart && s.cursor.atMarker '.' then s.documentMarker .documentEnd
  else if ch = '[' then s.openFlow .flowSequenceStart
  else if ch = '{' then s.openFlow .flowMappingStart
  else if ch = ']' then s.closeFlow .flowSequenceEnd
  else if ch = '}' then s.closeFlow .flowMappingEnd
  else if ch = ',' then s.flowEntry
  else if ch = '-' && apart then s.blockEntry
  else if ch = '?' && (s.inFlow || apart) then s.explicitKey
  else if ch = ':' && (s.inFlow || apart) then s.mappingValue
  else if ch = '*' then
    s.keyLike fun c => do
      let (name, c) ← anchorName c
      .ok (.alias name, c)
  else if ch = '&' then
    s.keyLike fun c => do
      let (name, c) ← anchorName c
      .ok (.anchor name, c)
  else if ch = '!' then s.keyLike tagToken
  else if ch = '|' && !s.inFlow then s.block false
  else if ch = '>' && !s.inFlow then s.block true
  else if ch = '\'' then s.quoted false
  else if ch = '"' then s.quoted true
  else if s.startsPlain then s.plain
  else .error .malformed

/-- All pieces from here on, and the failure that ended them early. -/
def run (s : Scan) : Nat → Scan × Option LoadError
  | 0 => (s, some .malformed)
  | steps + 1 =>
    if s.done then (s, none)
    else
      match s.next with
      | .ok s => s.run steps
      | .error e => (s, some e)

/-- The slots that a colon may still decide. -/
def undecided (s : Scan) : List Nat :=
  (s.openKey :: s.outerKeys).filterMap fun k => (k.filter fun k => !s.isStale k).map (·.slot)

/-- The pieces read, in order, before the first of which it is not settled whether it starts a key. -/
def settled (s : Scan) : List Piece :=
  s.pieces.reverse.takeWhile fun piece =>
    match piece with
    | .token _ => true
    | .slot n => !s.undecided.contains n

/-- The tokens of the pieces that are settled. -/
def tokens (s : Scan) : List Token :=
  s.settled.flatMap fun piece =>
    match piece with
    | .token t => [t]
    | .slot n =>
      match s.slots[n]? with
      | some .key => [.key]
      | some .firstKey => [.blockMappingStart, .key]
      | _ => []

end Scan

/-- The tokens of a text, and the failure that ended them early. -/
def Token.ofText (text : String) : List Token × Option LoadError :=
  let cs := text.toList
  if cs.all isAllowed then
    let cursor : Cursor := { rest := cs }
    let cursor := if cursor.peek = '\uFEFF' then cursor.advance else cursor
    let (s, failure) := ({ cursor } : Scan).run (cs.length + 2)
    (s.tokens, failure)
  else ([], some .malformed)

end HomeAutomaton.Yaml
