import HomeAutomaton.Returns
import HomeAutomaton.Yaml.Token.Scan

/-!
# A text with more in front of it

How a text is split into tokens does not depend on what stands in front of it: a place knows how many
characters and lines were passed, but only differences of these numbers count. So every reader does the
same at a place and at the place that is some characters and lines further on in a longer text, of which
the same is left.

* `Cursor.shift` and `Scan.shift` move a place and a state of reading. Each reader has one lemma, named
  after it, which says that it may be moved before or after.
* `Scan.next_shift` and `Scan.run_shift` are those of the next piece and of all pieces,
  `Scan.tokens_shift` that of the tokens.
-/

namespace HomeAutomaton.Yaml

variable {k l : Nat} {c : Cursor}

/-! ### Places -/

namespace Cursor

/-- The same place in a text that has some more characters and lines in front of it. -/
def shift (chars lines : Nat) (c : Cursor) : Cursor :=
  { c with index := c.index + chars, line := c.line + lines }

-- This is not stated as `rfl`: rewriting with it then also renews the decisions of conditions.
@[simp] theorem shift_rest : (c.shift k l).rest = c.rest := by cases c; rfl

/-- Columns count from the start of the line, so what stands in lines before it does not show. -/
@[simp] theorem shift_column : (c.shift k l).column = c.column := rfl

@[simp] theorem shift_index : (c.shift k l).index = c.index + k := rfl

@[simp] theorem shift_line : (c.shift k l).line = c.line + l := rfl

/-- What a reader sees is left of the text, and this is the same. -/
@[simp] theorem peek_shift : (c.shift k l).peek = c.peek :=
  congrArg (·.headD endMark) shift_rest

/-- The same some characters further on. -/
@[simp] theorem peekAt_shift {n : Nat} : (c.shift k l).peekAt n = c.peekAt n :=
  congrArg (·.getD n endMark) shift_rest

@[simp] theorem atMarker_shift {mark : Char} : (c.shift k l).atMarker mark = c.atMarker mark := rfl

/-- Markers of documents are told by the column and by what is left. -/
@[simp] theorem atDocumentMarker_shift : (c.shift k l).atDocumentMarker = c.atDocumentMarker :=
  rfl

/-- **One character on.** Both numbers grow at the place that was moved as they do at the other. -/
@[simp] theorem advance_shift : (c.shift k l).advance = c.advance.shift k l := by
  obtain ⟨rest, index, line, column⟩ := c
  cases rest with
  | nil => rfl
  | cons ch rest =>
    simp only [advance, shift]
    split
    · simp [Nat.add_right_comm]
    · split <;> simp [Nat.add_right_comm]

/-- And so they do over several characters. -/
@[simp] theorem advanceBy_shift {n : Nat} : (c.shift k l).advanceBy n = (c.advanceBy n).shift k l := by
  induction n generalizing c with
  | zero => rfl
  | succ n ih => simp [advanceBy, ih]

/-- The same characters are taken, and the place behind them is moved. -/
@[simp] theorem takeWhile_shift {p : Char → Bool} :
    (c.shift k l).takeWhile p = ((c.takeWhile p).1, (c.takeWhile p).2.shift k l) := by
  simp [takeWhile]

/-- The same without the characters. -/
@[simp] theorem skipWhile_shift {p : Char → Bool} :
    (c.shift k l).skipWhile p = (c.skipWhile p).shift k l := by
  simp [skipWhile]

/-- A line end is read at both places or at neither. -/
@[simp] theorem lineBreak?_shift :
    (c.shift k l).lineBreak? = c.lineBreak?.map (Prod.map id (shift k l)) := by
  simp [lineBreak?, apply_ite (Option.map _)]

/-- The place behind blanks and a comment. -/
def skipComment (c : Cursor) : Cursor :=
  let c := c.skipWhile (· = ' ')
  if c.peek = '#' then c.skipWhile fun ch => !endsLine ch else c

/-- Comments are skipped alike. -/
@[simp] theorem skipComment_shift : (c.shift k l).skipComment = c.skipComment.shift k l := by
  simp only [skipComment, skipWhile_shift, peek_shift, apply_ite (shift k l)]

/-- The rest of a line, by what stands behind blanks and a comment. -/
theorem endOfLine_eq : c.endOfLine =
    match c.skipComment.lineBreak? with
    | some (_, c) => .ok c
    | none => if c.skipComment.peek = endMark then .ok c.skipComment else .error .malformed := rfl

/-- What else stands in a line is refused at both places. -/
@[simp] theorem endOfLine_shift : (c.shift k l).endOfLine = c.endOfLine.map (shift k l) := by
  rw [endOfLine_eq, endOfLine_eq, skipComment_shift, lineBreak?_shift]
  cases c.skipComment.lineBreak? with
  | none => simp [ite_map]
  | some => rfl

end Cursor

open Cursor

/-! ### Names -/

/-- The name of an anchor or an alias. -/
@[simp] theorem anchorName_shift :
    anchorName (c.shift k l) = (anchorName c).map (Prod.map id (shift k l)) := by
  simp [anchorName, ite_map]

/-- A part of a tag. Escaped bytes are read from what is left alone. -/
@[simp] theorem tagRestFrom_shift {steps : Nat} {text : List Char} :
    tagRestFrom steps text (c.shift k l) =
      (tagRestFrom steps text c).map (Prod.map id (shift k l)) := by
  induction steps generalizing text c with
  | zero => rfl
  | succ steps ih =>
    simp only [tagRestFrom, peek_shift, shift_rest, advanceBy_shift, takeWhile_shift, ih]
    split
    · cases escapedBytes c.rest with
      | error e => rfl
      | ok bytes => simp only [ok_bind]; split <;> rfl
    · split <;> rfl

/-- The part of a tag behind its handle. -/
@[simp] theorem tagRest_shift :
    tagRest (c.shift k l) = (tagRest c).map (Prod.map id (shift k l)) := by
  simp [tagRest, bind_of_map, map_of_bind, ite_map]

/-- The handle of a tag is read alike. -/
@[simp] theorem tagHandle_shift :
    tagHandle (c.shift k l) = (tagHandle c).map (Prod.map id (shift k l)) := by
  simp [tagHandle, ite_map]

/-- A tag as a whole, handle and all, with the check that a word ends behind it. -/
@[simp] theorem tagToken_shift :
    tagToken (c.shift k l) = (tagToken c).map (Prod.map id (shift k l)) := by
  simp [tagToken, ite_map, map_of_bind, bind_of_map]

/-- A number of a version. How many digits it may have does not depend on the place. -/
@[simp] theorem directiveNumber_shift :
    directiveNumber (c.shift k l) = (directiveNumber c).map (Prod.map id (shift k l)) := by
  simp only [directiveNumber, takeWhile_shift, ite_map, error_map]
  cases Text.natOfDigits? _ <;> rfl

/-- A directive, which is one line, is read alike. -/
@[simp] theorem directiveToken_shift :
    directiveToken (c.shift k l) = (directiveToken c).map (Prod.map id (shift k l)) := by
  simp [directiveToken, ite_map, map_of_bind, bind_of_map]

/-! ### Scalars -/

/-- The line ends between two words of a plain scalar. -/
@[simp] theorem plainBreaks_shift {steps : Nat} {breaks : List Char} :
    plainBreaks steps breaks (c.shift k l) =
      Prod.map id (shift k l) (plainBreaks steps breaks c) := by
  induction steps generalizing breaks c with
  | zero => rfl
  | succ steps ih =>
    simp only [plainBreaks, peek_shift, advance_shift, ih, lineBreak?_shift]
    cases c.lineBreak? <;> simp [ih, apply_ite (Prod.map _ _)]

/-- What is between two words of a plain scalar. Where a line ends, the lines behind it are looked at as well.
-/
@[simp] theorem plainGap_shift :
    plainGap (c.shift k l) = Prod.map id (Prod.map id (shift k l)) (plainGap c) := by
  simp only [plainGap, takeWhile_shift, lineBreak?_shift]
  cases (c.takeWhile (· = ' ')).2.lineBreak? with
  | none => rfl
  | some r =>
    obtain ⟨first, d⟩ := r
    simp only [Option.map_some, Prod.map_apply, id, atDocumentMarker_shift, plainBreaks_shift,
      shift_rest]
    obtain ⟨others, d⟩ := plainBreaks d.rest.length [] d
    cases others <;> simp [apply_ite (Prod.map _ _)]

/-- The words of a plain scalar. The indentation that ends it is a column, which does not change. -/
@[simp] theorem plainFrom_shift {inFlow : Bool} {indent : Int} {steps : Nat}
    {text gap : List Char} {crossed : Bool} :
    plainFrom inFlow indent steps text gap crossed (c.shift k l) =
      Prod.map id (Prod.map id (shift k l)) (plainFrom inFlow indent steps text gap crossed c) := by
  induction steps generalizing text gap crossed c with
  | zero => rfl
  | succ steps ih =>
    simp only [plainFrom, peek_shift, shift_rest, advanceBy_shift, plainGap_shift, Prod.map_fst,
      Prod.map_snd, id, ih, shift_column, apply_ite (Prod.map _ _)]
    rfl

/-- A plain scalar is read alike. -/
@[simp] theorem plainScalar_shift {inFlow : Bool} {indent : Int} :
    plainScalar inFlow indent (c.shift k l) =
      Prod.map id (Prod.map id (shift k l)) (plainScalar inFlow indent c) :=
  plainFrom_shift

/-- The empty lines in a quoted scalar. -/
@[simp] theorem quotedBreaks_shift {steps : Nat} {breaks : List Char} :
    quotedBreaks steps breaks (c.shift k l) =
      (quotedBreaks steps breaks c).map (Prod.map id (shift k l)) := by
  induction steps generalizing breaks c with
  | zero => rfl
  | succ steps ih =>
    simp only [quotedBreaks, atDocumentMarker_shift, skipWhile_shift, lineBreak?_shift, ite_map,
      error_map]
    cases (c.skipWhile fun ch => ch = ' ' || ch = '\t').lineBreak? <;> simp [ih]

/-- The blanks in a quoted scalar, with the lines that they go over. -/
@[simp] theorem quotedGap_shift :
    quotedGap (c.shift k l) = (quotedGap c).map (Prod.map id (shift k l)) := by
  simp only [quotedGap, takeWhile_shift, lineBreak?_shift, peek_shift]
  cases (c.takeWhile fun ch => ch = ' ' || ch = '\t').2.lineBreak? with
  | none => simp only [Option.map_none, ite_map, error_map, ok_map]; rfl
  | some r =>
    simp only [Option.map_some, Prod.map_fst, Prod.map_snd, shift_rest, quotedBreaks_shift,
      bind_of_map, map_of_bind, ok_map, Prod.map_apply, id]

/-- An escape in a quoted scalar, whether it names a character, gives a code or goes over a line end. -/
@[simp] theorem quotedEscape_shift :
    quotedEscape (c.shift k l) = (quotedEscape c).map (Prod.map id (shift k l)) := by
  simp only [quotedEscape, peek_shift, advance_shift, shift_rest, lineBreak?_shift, advanceBy_shift]
  cases escapedChar? c.peek with
  | some ch => rfl
  | none =>
    cases codeWidth? c.peek with
    | some width =>
      simp only []
      cases Text.ofHex? (c.advance.rest.take width) <;> simp [ite_map, map_of_bind]
    | none => cases c.lineBreak? <;> simp

/-- The characters of a quoted scalar up to its end. -/
@[simp] theorem quotedFrom_shift {double : Bool} {steps : Nat} {text : List Char} :
    quotedFrom double steps text (c.shift k l) =
      (quotedFrom double steps text c).map (Prod.map id (shift k l)) := by
  induction steps generalizing text c with
  | zero => rfl
  | succ steps ih => simp [quotedFrom, ih, ite_map, map_of_bind, bind_of_map]

/-- A quoted scalar is read alike. -/
@[simp] theorem quotedScalar_shift {double : Bool} :
    quotedScalar double (c.shift k l) = (quotedScalar double c).map (Prod.map id (shift k l)) := by
  simp [quotedScalar]

/-- The header of a block scalar, in which the two marks may stand in either order. -/
@[simp] theorem blockHeader_shift :
    blockHeader (c.shift k l) = (blockHeader c).map (Prod.map id (Prod.map id (shift k l))) := by
  simp only [blockHeader, peek_shift, advance_shift]
  cases chomping? c.peek with
  | none =>
    cases blockIndent? c.peek with
    | error e => rfl
    | ok indent =>
      cases indent with
      | none => simp [ite_map]
      | some n => cases chomping? c.advance.peek <;> simp [ite_map]
  | some chomping =>
    cases blockIndent? c.advance.peek with
    | error e => rfl
    | ok indent => simp [ite_map, ← apply_ite (shift k l)]

/-- The indentation of a block scalar is the widest of its first lines, and a column. -/
@[simp] theorem findIndent_shift {steps : Nat} {breaks : List Char} {widest : Nat} :
    findIndent steps breaks widest (c.shift k l) =
      Prod.map id (Prod.map id (shift k l)) (findIndent steps breaks widest c) := by
  induction steps generalizing breaks widest c with
  | zero => rfl
  | succ steps ih =>
    simp only [findIndent, peek_shift, advance_shift, shift_column, ih, lineBreak?_shift]
    cases c.lineBreak? <;> simp [ih, apply_ite (Prod.map _ _)]

/-- Indentation is skipped by as many characters as there are columns. -/
@[simp] theorem skipIndent_shift {indent : Nat} :
    skipIndent indent (c.shift k l) = (skipIndent indent c).shift k l := advanceBy_shift

/-- The empty lines between those of a block scalar. -/
@[simp] theorem blockBreaks_shift {indent steps : Nat} {breaks : List Char} :
    blockBreaks indent steps breaks (c.shift k l) =
      Prod.map id (shift k l) (blockBreaks indent steps breaks c) := by
  induction steps generalizing breaks c with
  | zero => rfl
  | succ steps ih =>
    simp only [blockBreaks, skipIndent_shift, lineBreak?_shift]
    cases (skipIndent indent c).lineBreak? <;> simp [ih]

/-- Whether a line belongs to a block scalar is told by its column. -/
@[simp] theorem inBlock_shift {indent : Nat} : inBlock indent (c.shift k l) = inBlock indent c := rfl

/-- The lines of a block scalar are read alike. -/
@[simp] theorem blockLines_shift {folded : Bool} {indent steps : Nat} {text breaks : List Char} :
    blockLines folded indent steps text breaks (c.shift k l) =
      Prod.map id (Prod.map id (Prod.map id (shift k l)))
        (blockLines folded indent steps text breaks c) := by
  induction steps generalizing text breaks c with
  | zero => rfl
  | succ steps ih =>
    simp only [blockLines, inBlock_shift, takeWhile_shift, lineBreak?_shift, peek_shift]
    cases (c.takeWhile fun ch => !endsLine ch).2.lineBreak? <;>
      simp only [Option.map_none, Option.map_some, shift_rest, blockBreaks_shift, Prod.map_fst,
        Prod.map_snd, inBlock_shift, peek_shift, ih, id, apply_ite (Prod.map _ _)] <;>
      rfl

/-- A block scalar is read alike, header and lines. -/
@[simp] theorem blockScalar_shift {folded : Bool} {outer : Int} :
    blockScalar folded outer (c.shift k l) =
      (blockScalar folded outer c).map (Prod.map id (shift k l)) := by
  simp only [blockScalar, advance_shift, blockHeader_shift, map_of_bind, bind_of_map]
  -- the header, then the rest of its line, then the lines, each with the place that the one before leaves
  refine bind_congr fun r => ?_
  obtain ⟨chomping, explicit, c⟩ := r
  simp only [Prod.map_apply, id, endOfLine_shift, bind_of_map, ok_map]
  refine bind_congr fun c => ?_
  cases explicit <;> simp

/-! ### States of reading -/

/-- The same key in a text that has some more characters and lines in front of it. -/
def OpenKey.shift (chars lines : Nat) (key : OpenKey) : OpenKey :=
  { key with index := key.index + chars, line := key.line + lines }

namespace Scan

/-- The same state in a text that has some more characters and lines in front of it. -/
def shift (chars lines : Nat) (s : Scan) : Scan :=
  { s with
    cursor := s.cursor.shift chars lines
    openKey := s.openKey.map (OpenKey.shift chars lines)
    outerKeys := s.outerKeys.map (Option.map (OpenKey.shift chars lines)) }

variable {s : Scan}

@[simp] theorem cursor_shift : (s.shift k l).cursor = s.cursor.shift k l := rfl

/-- The pieces found so far hold no places. -/
@[simp] theorem pieces_shift : (s.shift k l).pieces = s.pieces := by cases s; rfl

/-- Nor do the slots for keys that may still come. -/
@[simp] theorem slots_shift : (s.shift k l).slots = s.slots := by cases s; rfl

/-- Open blocks are held by their columns. -/
@[simp] theorem columns_shift : (s.shift k l).columns = s.columns := by cases s; rfl

@[simp] theorem keyAllowed_shift : (s.shift k l).keyAllowed = s.keyAllowed := by cases s; rfl

@[simp] theorem done_shift : (s.shift k l).done = s.done := by cases s; rfl

/-- The places of keys are moved with the state, since a key is told stale by how far it lies back. -/
@[simp] theorem openKey_shift : (s.shift k l).openKey = s.openKey.map (OpenKey.shift k l) := rfl

/-- And so are those of the keys outside of open brackets. -/
@[simp] theorem outerKeys_shift :
    (s.shift k l).outerKeys = s.outerKeys.map (Option.map (OpenKey.shift k l)) := rfl

@[simp] theorem inFlow_shift : (s.shift k l).inFlow = s.inFlow := by simp [inFlow]

@[simp] theorem indent_shift : (s.shift k l).indent = s.indent := by cases s; rfl

@[simp] theorem push_shift {t : Token} : (s.shift k l).push t = (s.push t).shift k l := rfl

/-- Blocks are closed by column. -/
@[simp] theorem unwind_shift {column : Int} :
    (s.shift k l).unwind column = (s.unwind column).shift k l := by
  simp only [unwind, inFlow_shift, apply_ite (shift k l)]
  rfl

/-- And opened by column. -/
@[simp] theorem openBlock_shift {column : Nat} {t : Token} :
    (s.shift k l).openBlock column t = (s.openBlock column t).shift k l := by
  simp only [openBlock, indent_shift, apply_ite (shift k l)]
  rfl

/-- **A key is as stale as before:** only the lines and characters between it and the place count. -/
@[simp] theorem isStale_shift {key : OpenKey} :
    (s.shift k l).isStale (key.shift k l) = s.isStale key := by
  have hline : (key.line + l ≠ s.cursor.line + l) ↔ key.line ≠ s.cursor.line := by omega
  have hindex : key.index + k + 1024 < s.cursor.index + k ↔ key.index + 1024 < s.cursor.index := by
    omega
  simp only [isStale, OpenKey.shift, cursor_shift, Cursor.shift_line, Cursor.shift_index, hline,
    hindex]

/-- Stale keys are dropped alike, and a required one among them is refused alike. -/
@[simp] theorem dropStale_shift : (s.shift k l).dropStale = s.dropStale.map (shift k l) := by
  -- which of the keys are kept, and whether one of those dropped was required
  have hfresh (key : Option OpenKey) :
      (key.map (OpenKey.shift k l)).filter (fun key => !(s.shift k l).isStale key) =
        (key.filter fun key => !s.isStale key).map (OpenKey.shift k l) := by
    cases key <;> simp [Option.filter, apply_ite (Option.map _)]
  have hrequired (key : Option OpenKey) :
      (key.map (OpenKey.shift k l)).any (fun key => key.required && (s.shift k l).isStale key) =
        key.any fun key => key.required && s.isStale key := by
    cases key with
    | none => rfl
    | some key => exact congrArg (key.required && ·) isStale_shift
  simp only [dropStale, openKey_shift, outerKeys_shift, ← List.map_cons, List.any_map,
    Function.comp_def, List.map_map, hfresh, hrequired, ite_map, error_map, ok_map]
  simp only [shift, List.map_map, Function.comp_def]

/-- The key that is open is dropped, unless it is required. -/
@[simp] theorem dropKey_shift : (s.shift k l).dropKey = s.dropKey.map (shift k l) := by
  have hrequired : (s.shift k l).openKey.any (·.required) = s.openKey.any (·.required) := by
    rw [openKey_shift]
    cases s.openKey <;> rfl
  simp only [dropKey, hrequired, ite_map, error_map, ok_map]
  rfl

/-- A key may start at the place, and it is marked by the place. -/
@[simp] theorem markKey_shift : (s.shift k l).markKey = s.markKey.map (shift k l) := by
  simp only [markKey, keyAllowed_shift, dropKey_shift, bind_of_map, map_of_bind, ite_map, ok_map]
  refine congrArg (ite _ · _) (bind_congr fun s => ?_)
  simp only [inFlow_shift, indent_shift, cursor_shift, slots_shift, pieces_shift]
  rfl

/-- One round, by what stands behind blanks and a comment. -/
theorem skipGap_succ {steps : Nat} : s.skipGap (steps + 1) =
    match s.cursor.skipComment.lineBreak? with
    | some (_, c) =>
      ({ s with cursor := c, keyAllowed := s.keyAllowed || !s.inFlow } : Scan).skipGap steps
    | none => { s with cursor := s.cursor.skipComment } := rfl

/-- What is between two pieces is skipped, over as many lines as it goes. -/
@[simp] theorem skipGap_shift {steps : Nat} :
    (s.shift k l).skipGap steps = (s.skipGap steps).shift k l := by
  induction steps generalizing s with
  | zero => rfl
  | succ steps ih =>
    rw [skipGap_succ, skipGap_succ, cursor_shift, skipComment_shift, lineBreak?_shift]
    cases s.cursor.skipComment.lineBreak? with
    | none => rfl
    | some r =>
      simp only [Option.map_some, Prod.map_snd, inFlow_shift, keyAllowed_shift]
      exact ih (s := { s with cursor := r.2, keyAllowed := s.keyAllowed || !s.inFlow })

/-- The end of the text gives the same piece. -/
@[simp] theorem finish_shift : (s.shift k l).finish = s.finish.map (shift k l) := by
  simp only [finish, unwind_shift, dropKey_shift, bind_of_map, map_of_bind, ok_map]
  rfl

/-- A directive gives the same piece. -/
@[simp] theorem directive_shift : (s.shift k l).directive = s.directive.map (shift k l) := by
  simp only [directive, unwind_shift, dropKey_shift, cursor_shift, directiveToken_shift,
    bind_of_map, map_of_bind, ok_map]
  rfl

/-- A marker at the start or the end of a document. -/
@[simp] theorem documentMarker_shift {t : Token} :
    (s.shift k l).documentMarker t = (s.documentMarker t).map (shift k l) := by
  simp only [documentMarker, unwind_shift, dropKey_shift, cursor_shift, advanceBy_shift,
    bind_of_map, map_of_bind, ok_map]
  rfl

/-- An opening bracket, which may start a key. -/
@[simp] theorem openFlow_shift {t : Token} :
    (s.shift k l).openFlow t = (s.openFlow t).map (shift k l) := by
  simp only [openFlow, markKey_shift, cursor_shift, advance_shift, bind_of_map, map_of_bind, ok_map]
  rfl

/-- A closing bracket, with the keys that were open outside of it. -/
@[simp] theorem closeFlow_shift {t : Token} :
    (s.shift k l).closeFlow t = (s.closeFlow t).map (shift k l) := by
  simp only [closeFlow, dropKey_shift, bind_of_map, map_of_bind]
  refine bind_congr fun s => ?_
  rw [outerKeys_shift]
  cases s.outerKeys with
  | nil => rfl
  | cons outer rest => simp only [List.map_cons, cursor_shift, advance_shift, ok_map]; rfl

/-- A comma gives the same piece. -/
@[simp] theorem flowEntry_shift : (s.shift k l).flowEntry = s.flowEntry.map (shift k l) := by
  simp only [flowEntry, dropKey_shift, cursor_shift, advance_shift, bind_of_map, map_of_bind, ok_map]
  rfl

/-- The mark of an item in a block. It opens a block at its column. -/
@[simp] theorem blockEntry_shift : (s.shift k l).blockEntry = s.blockEntry.map (shift k l) := by
  simp only [blockEntry, inFlow_shift, keyAllowed_shift, cursor_shift, shift_column, openBlock_shift,
    ← apply_ite (shift k l), dropKey_shift, advance_shift, bind_of_map, map_of_bind, ite_map, ok_map,
    error_map]
  rfl

/-- The mark of a key that is written out. -/
@[simp] theorem explicitKey_shift : (s.shift k l).explicitKey = s.explicitKey.map (shift k l) := by
  simp only [explicitKey, inFlow_shift, keyAllowed_shift, cursor_shift, shift_column,
    openBlock_shift, ← apply_ite (shift k l), dropKey_shift, advance_shift, bind_of_map, map_of_bind,
    ite_map, ok_map, error_map]
  rfl

/-- The mark of a value. Where a key was open the marks before it go to the slot of the key, else a block may be
opened here. -/
@[simp] theorem mappingValue_shift : (s.shift k l).mappingValue = s.mappingValue.map (shift k l) := by
  simp only [mappingValue, openKey_shift]
  cases s.openKey with
  | none =>
    simp only [Option.map_none, inFlow_shift, keyAllowed_shift, cursor_shift, shift_column,
      openBlock_shift, ← apply_ite (shift k l), advance_shift, ite_map, ok_map, error_map]
    rfl
  | some key =>
    simp only [Option.map_some, inFlow_shift, indent_shift, cursor_shift, advance_shift, ok_map]
    rfl

/-- A piece that may be a key, given that what it is read with may be moved. -/
theorem keyLike_shift {read : Cursor → Except LoadError (Token × Cursor)}
    (h : ∀ c : Cursor, read (c.shift k l) = (read c).map (Prod.map id (Cursor.shift k l))) :
    (s.shift k l).keyLike read = (s.keyLike read).map (shift k l) := by
  simp only [keyLike, markKey_shift, cursor_shift, h, bind_of_map, map_of_bind, ok_map]
  rfl

/-- A quoted scalar gives the same piece. -/
@[simp] theorem quoted_shift {double : Bool} :
    (s.shift k l).quoted double = (s.quoted double).map (shift k l) :=
  keyLike_shift fun c => by simp [bind_of_map, map_of_bind]

/-- A block scalar gives the same piece. -/
@[simp] theorem block_shift {folded : Bool} :
    (s.shift k l).block folded = (s.block folded).map (shift k l) := by
  simp only [block, dropKey_shift, indent_shift, cursor_shift, blockScalar_shift, bind_of_map,
    map_of_bind, ok_map]
  rfl

/-- A plain scalar gives the same piece. -/
@[simp] theorem plain_shift : (s.shift k l).plain = s.plain.map (shift k l) := by
  simp only [plain, markKey_shift, inFlow_shift, indent_shift, cursor_shift, plainScalar_shift,
    bind_of_map, map_of_bind, ok_map]
  rfl

/-- Whether a plain scalar starts is told by the next characters. -/
@[simp] theorem startsPlain_shift : (s.shift k l).startsPlain = s.startsPlain := by
  simp [startsPlain]

/-- An anchor or an alias, which are both written as a name. -/
theorem keyLike_name_shift (token : String → Token) (s : Scan) :
    (s.shift k l).keyLike (fun c => do
      let (name, c) ← anchorName c
      .ok (token name, c)) = Except.map (shift k l) (s.keyLike fun c => do
      let (name, c) ← anchorName c
      .ok (token name, c)) :=
  keyLike_shift fun c => by simp [bind_of_map, map_of_bind]

/-- **The next piece** is the same, and the state behind it is moved. -/
@[simp] theorem next_shift : (s.shift k l).next = s.next.map (shift k l) := by
  have htag (s : Scan) : (s.shift k l).keyLike tagToken = (s.keyLike tagToken).map (shift k l) :=
    keyLike_shift fun c => tagToken_shift
  simp only [next, bind_of_map, map_of_bind, ite_map, skipGap_shift, cursor_shift, shift_rest,
    dropStale_shift, unwind_shift, peek_shift, peekAt_shift, shift_column, finish_shift,
    directive_shift, atMarker_shift, documentMarker_shift, openFlow_shift, closeFlow_shift,
    flowEntry_shift, blockEntry_shift, explicitKey_shift, mappingValue_shift, inFlow_shift,
    keyLike_name_shift .alias, keyLike_name_shift .anchor, htag, quoted_shift, block_shift, plain_shift, startsPlain_shift, error_map]

/-! ### All pieces -/

/-- Nothing more is read once the end was met. -/
theorem run_of_done {steps : Nat} (h : s.done = true) : s.run (steps + 1) = (s, none) := by
  show (if s.done = true then (s, none) else _) = _
  rw [if_pos h]

/-- One round of reading. -/
theorem run_of_next {steps : Nat} (h : s.done = false) : s.run (steps + 1) =
    match s.next with
    | .ok t => t.run steps
    | .error e => (s, some e) := by
  show (if s.done = true then (s, none)
    else match s.next with
      | .ok t => t.run steps
      | .error e => (s, some e)) = _
  rw [h]
  exact if_neg Bool.false_ne_true

/-- **All pieces** are the same: the states are moved round by round, and a failure is the same failure. -/
@[simp] theorem run_shift {steps : Nat} :
    (s.shift k l).run steps = Prod.map (shift k l) id (s.run steps) := by
  induction steps generalizing s with
  | zero => rfl
  | succ steps ih =>
    cases hdone : s.done with
    | true => rw [run_of_done hdone, run_of_done (done_shift.trans hdone)]; rfl
    | false =>
      rw [run_of_next hdone, run_of_next (done_shift.trans hdone), next_shift]
      cases s.next with
      | ok t => exact ih
      | error e => rfl

/-- The slots that are still undecided are those of keys that are not stale. -/
@[simp] theorem undecided_shift : (s.shift k l).undecided = s.undecided := by
  have hfresh (key : Option OpenKey) :
      ((key.map (OpenKey.shift k l)).filter (fun key => !(s.shift k l).isStale key)).map (·.slot) =
        (key.filter fun key => !s.isStale key).map (·.slot) := by
    cases key with
    | none => rfl
    | some key => simp only [Option.map_some, Option.filter_some, isStale_shift]; split <;> rfl
  simp only [undecided, openKey_shift, outerKeys_shift, ← List.map_cons, List.filterMap_map,
    Function.comp_def, hfresh]

/-- **The tokens** are the same. -/
@[simp] theorem tokens_shift : (s.shift k l).tokens = s.tokens := by
  simp only [tokens, settled, pieces_shift, undecided_shift, slots_shift]

end Scan

end HomeAutomaton.Yaml
