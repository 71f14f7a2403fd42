import HomeAutomaton.Proofs.Progress
import HomeAutomaton.Yaml.Load

/-!
# Blank lines and comments in front of a text

Lines that are blank or hold a comment say nothing: a text with such lines in front of it has the same
tokens, and so the same value, as without them. They are passed on the way to the first piece, which
then starts at a place that is the first one moved down.

* `IsIgnored` is such a line, `ofLines` puts lines together.
* `Token.ofChars` and `Model.ofChars` are the tokens and the value of a text given by its characters.
* `Scan.skipGap_lines` passes the lines, `Token.ofChars_lines` says it of the tokens and
  `Model.ofChars_lines` of the value.
-/

namespace HomeAutomaton.Yaml

variable {c : Cursor} {line rest : List Char}

/-- The character may occur within a line. -/
def FitsLine (ch : Char) : Prop := isAllowed ch = true ∧ isBreak ch = false

/-- A line that is blank or holds a comment, without its end. -/
structure IsIgnored (line : List Char) : Prop where
  fits : ∀ ch ∈ line, FitsLine ch
  /-- Behind some blanks there is nothing or a comment. -/
  empty : ∃ blanks, line = List.replicate blanks ' ' ∨
    ∃ text, line = List.replicate blanks ' ' ++ '#' :: text

/-- Some lines, each with its end. -/
def ofLines (lines : List (List Char)) : List Char := lines.flatMap (· ++ ['\n'])

theorem ofLines_cons {lines : List (List Char)} :
    ofLines (line :: lines) ++ rest = line ++ '\n' :: (ofLines lines ++ rest) := by
  simp [ofLines]

theorem length_ofLines_cons {lines : List (List Char)} :
    (ofLines (line :: lines)).length = line.length + 1 + (ofLines lines).length := by
  simp [ofLines, Nat.add_assoc, Nat.add_comm 1]

/-- Every line takes at least one character. -/
theorem length_le_ofLines {lines : List (List Char)} : lines.length ≤ (ofLines lines).length := by
  induction lines with
  | nil => exact Nat.le_refl _
  | cons line lines ih =>
    rw [length_ofLines_cons, List.length_cons]
    omega

/-- A character that may occur within a line does not end it. -/
theorem endsLine_eq_false {ch : Char} (h : FitsLine ch) : endsLine ch = false := by
  have hend : ch ≠ endMark := by
    rintro rfl
    exact absurd h.1 (by decide)
  simp [endsLine, h.2, hend]

/-! ### One line -/

namespace Cursor

/-- The next character is the first of what is left. -/
theorem peek_cons {ch : Char} (hrest : c.rest = ch :: rest) : c.peek = ch := by
  rw [peek, hrest]
  rfl

/-- What is skipped ends at the first character that does not fit. -/
theorem skipWhile_stop {p : Char → Bool} {taken : List Char} {ch : Char}
    (hrest : c.rest = taken ++ ch :: rest) (htaken : ∀ ch ∈ taken, p ch = true)
    (hstop : p ch = false) : c.skipWhile p = c.advanceBy taken.length := by
  have hwhile : c.rest.takeWhile p = taken := by
    rw [hrest, List.takeWhile_append_of_pos htaken,
      List.takeWhile_cons_of_neg (by simp [hstop]), List.append_nil]
  show c.advanceBy (c.rest.takeWhile p).length = _
  rw [hwhile]

/-- Behind the blanks and the comment of a line is its end. -/
theorem skipComment_line (hrest : c.rest = line ++ '\n' :: rest) (h : IsIgnored line) :
    c.skipComment = c.advanceBy line.length := by
  have hblank (n : Nat) : ∀ ch ∈ List.replicate n ' ', decide (ch = ' ') = true := by
    intro ch hch
    exact decide_eq_true (List.eq_of_mem_replicate hch)
  obtain ⟨n, rfl | ⟨text, rfl⟩⟩ := h.empty
  · -- a blank line
    have hskip := skipWhile_stop hrest (hblank n) (by decide)
    have hpeek : (c.advanceBy (List.replicate n ' ').length).peek = '\n' :=
      peek_cons (by rw [advanceBy_rest, hrest, List.drop_left])
    simp only [skipComment, hskip, hpeek]
    exact if_neg (by decide)
  · -- a comment
    rw [List.append_assoc, List.cons_append] at hrest
    have hskip := skipWhile_stop hrest (hblank n) (by decide)
    have hbehind : (c.advanceBy (List.replicate n ' ').length).rest = ('#' :: text) ++ '\n' :: rest := by
      rw [advanceBy_rest, hrest, List.drop_left]
      rfl
    have hcomment := skipWhile_stop (p := fun ch => !endsLine ch) hbehind
      (fun ch hch => by simp [endsLine_eq_false (h.fits ch (List.mem_append_right _ hch))])
      (by decide)
    simp only [skipComment, hskip, peek_cons hbehind, if_true, hcomment]
    rw [← advanceBy_add, List.length_append]

/-- Within a line only the column changes. -/
theorem advance_within {ch : Char} (hrest : c.rest = ch :: rest) (h : isBreak ch = false) :
    c.advance.index = c.index + 1 ∧ c.advance.line = c.line := by
  obtain ⟨_, index, number, column⟩ := c
  obtain rfl : _ = ch :: rest := hrest
  simp only [advance, h, Bool.false_and, Bool.false_eq_true, if_false]
  split <;> exact ⟨rfl, rfl⟩

/-- The place behind a line and its end. -/
theorem advance_line (hrest : c.rest = line ++ '\n' :: rest) (h : ∀ ch ∈ line, FitsLine ch) :
    (c.advanceBy line.length).advance =
      { rest, index := c.index + line.length + 1, line := c.line + 1, column := 0 } := by
  -- along the line; its characters move the column, and the end resets it
  induction line generalizing c with
  | nil =>
    obtain ⟨_, index, number, column⟩ := c
    obtain rfl : _ = '\n' :: rest := hrest
    rfl
  | cons ch line ih =>
    obtain ⟨hch, hline⟩ := List.forall_mem_cons.mp h
    have hadvance : c.advance.rest = line ++ '\n' :: rest := by
      rw [advance_rest, hrest]
      rfl
    obtain ⟨hindex, hnumber⟩ := advance_within hrest hch.2
    have hnext := ih hadvance hline
    rw [hindex, hnumber] at hnext
    rw [List.length_cons, advanceBy, hnext]
    congr 1
    omega

/-- A newline is a line end. -/
theorem lineBreak?_newline (hpeek : c.peek = '\n') : c.lineBreak? = some ('\n', c.advance) := by
  simp [lineBreak?, hpeek]

/-- A line end is not the end of the text. -/
theorem peek_ne_endMark {r : Char × Cursor} (h : c.lineBreak? = some r) : c.peek ≠ endMark := by
  intro hpeek
  simp [lineBreak?, hpeek, isBreak, endMark] at h

end Cursor

open Cursor

namespace Scan

variable {s t : Scan}

/-- A blank line or a comment is passed in one round. -/
theorem skipGap_line {steps : Nat} (hrest : s.cursor.rest = line ++ '\n' :: rest)
    (h : IsIgnored line) : s.skipGap (steps + 1) =
      ({ s with
        cursor :=
          { rest, index := s.cursor.index + line.length + 1, line := s.cursor.line + 1, column := 0 }
        keyAllowed := s.keyAllowed || !s.inFlow } : Scan).skipGap steps := by
  have hpeek : (s.cursor.advanceBy line.length).peek = '\n' :=
    peek_cons (by rw [advanceBy_rest, hrest, List.drop_left])
  rw [skipGap_succ, skipComment_line hrest h, lineBreak?_newline hpeek, advance_line hrest h.fits]

/-! ### All lines -/

/-- Two numbers of rounds that are large enough for the lines that are left pass the same. -/
theorem skipGap_eq_skipGap {m n : Nat} (hm : s.cursor.rest.length < m)
    (hn : s.cursor.rest.length < n) : s.skipGap m = s.skipGap n := by
  -- each round passes a line end, so what is left gets shorter
  induction m generalizing s n with
  | zero => exact absurd hm (Nat.not_lt_zero _)
  | succ m ih =>
    obtain ⟨n, rfl⟩ : ∃ k, n = k + 1 := Nat.exists_eq_succ_of_ne_zero (by omega)
    rw [skipGap_succ, skipGap_succ]
    cases h : s.cursor.skipComment.lineBreak? with
    | none => rfl
    | some r =>
      have hle := Reaches.skipComment (c := s.cursor).length_le
      have hlt := (Reaches.advance_lineBreak h).length_lt (peek_ne_endMark h)
      exact ih (by show r.2.rest.length < m; omega) (by show r.2.rest.length < n; omega)

/-- The state at the start of a line, with nothing read. -/
def start (rest : List Char) (chars lines : Nat) : Scan :=
  { cursor := { rest, index := chars, line := lines } }

/-- Lines that are blank or hold a comment are passed, one in each round. -/
theorem skipGap_lines {lines : List (List Char)} (h : ∀ line ∈ lines, IsIgnored line)
    {steps k l : Nat} :
    (start (ofLines lines ++ rest) k l).skipGap (lines.length + steps) =
      (start rest (k + (ofLines lines).length) (l + lines.length)).skipGap steps := by
  -- along the lines, one round for each
  induction lines generalizing k l with
  | nil =>
    rw [List.length_nil, Nat.zero_add]
    rfl
  | cons line lines ih =>
    obtain ⟨hline, hlines⟩ := List.forall_mem_cons.mp h
    have hrest : (start (ofLines (line :: lines) ++ rest) k l).cursor.rest =
        line ++ '\n' :: (ofLines lines ++ rest) := ofLines_cons
    have hchars : k + (ofLines (line :: lines)).length =
        k + line.length + 1 + (ofLines lines).length := by
      rw [length_ofLines_cons]
      omega
    have hcount : l + (line :: lines).length = l + 1 + lines.length := by
      rw [List.length_cons]
      omega
    rw [hchars, hcount, ← ih hlines, List.length_cons, Nat.add_right_comm,
      skipGap_line hrest hline]
    rfl

/-- The next piece depends on the state behind blanks and comments alone. -/
theorem next_congr
    (h : s.skipGap (s.cursor.rest.length + 1) = t.skipGap (t.cursor.rest.length + 1)) :
    s.next = t.next := by
  rw [next, next, h]

/-- The first piece behind lines that are blank or hold a comment. -/
theorem next_lines {lines : List (List Char)} (h : ∀ line ∈ lines, IsIgnored line) :
    (start (ofLines lines ++ rest) 0 0).next =
      ((start rest 0 0).shift (ofLines lines).length lines.length).next := by
  refine next_congr ?_
  have hlength : lines.length ≤ (ofLines lines).length := length_le_ofLines
  -- there are at least as many rounds as lines
  obtain ⟨more, hmore⟩ : ∃ more, (ofLines lines ++ rest).length + 1 = lines.length + more :=
    Nat.exists_eq_add_of_le (by rw [List.length_append]; omega)
  have hskip := @skipGap_lines rest lines h more 0 0
  rw [← hmore] at hskip
  refine Eq.trans hskip (skipGap_eq_skipGap ?_ (Nat.lt_succ_self _))
  show rest.length < more
  rw [List.length_append] at hmore
  omega

/-- The tokens behind lines that are blank or hold a comment, and the failure that ends them. -/
theorem run_lines {lines : List (List Char)} (h : ∀ line ∈ lines, IsIgnored line) {m n : Nat}
    (hm : rest.length + 1 < m) (hn : rest.length + 1 < n) :
    Prod.map tokens id ((start (ofLines lines ++ rest) 0 0).run m) =
      Prod.map tokens id ((start rest 0 0).run n) := by
  obtain ⟨m, rfl⟩ : ∃ k, m = k + 1 := Nat.exists_eq_succ_of_ne_zero (by omega)
  have hfirst : Prod.map tokens id ((start (ofLines lines ++ rest) 0 0).run (m + 1)) =
      Prod.map tokens id
        (((start rest 0 0).shift (ofLines lines).length lines.length).run (m + 1)) := by
    rw [run_of_next rfl, run_of_next rfl, next_lines h]
    -- a failure comes before any piece
    cases ((start rest 0 0).shift (ofLines lines).length lines.length).next with
    | ok t => rfl
    | error e => rfl
  rw [hfirst, run_shift, run_eq_run hm hn]
  exact Prod.ext tokens_shift rfl

end Scan

/-! ### Texts -/

/-- Such lines have no character that may not occur. -/
theorem isAllowed_ofLines {lines : List (List Char)} (h : ∀ line ∈ lines, IsIgnored line) :
    ∀ ch ∈ ofLines lines, isAllowed ch = true := by
  intro ch hch
  obtain ⟨line, hline, hch⟩ := List.mem_flatMap.mp hch
  rcases List.mem_append.mp hch with hch | hch
  · exact ((h line hline).fits ch hch).1
  · obtain rfl := List.mem_singleton.mp hch
    decide

/-- Lines that are blank or hold a comment do not start with a byte order mark. -/
theorem peek_ofLines {lines : List (List Char)} (h : ∀ line ∈ lines, IsIgnored line)
    (hrest : rest.head? ≠ some '\uFEFF') :
    (ofLines lines ++ rest).headD endMark ≠ '\uFEFF' := by
  cases lines with
  | nil =>
    cases rest with
    | nil => decide
    | cons ch rest => exact fun hch => hrest (congrArg some hch)
  | cons line lines =>
    rw [ofLines_cons]
    -- the first character is a blank, a hash or the line end
    obtain ⟨n, rfl | ⟨text, rfl⟩⟩ := (h line List.mem_cons_self).empty
    · cases n with
      | zero => exact (by decide : '\n' ≠ '\uFEFF')
      | succ n => exact (by decide : ' ' ≠ '\uFEFF')
    · cases n with
      | zero => exact (by decide : '#' ≠ '\uFEFF')
      | succ n => exact (by decide : ' ' ≠ '\uFEFF')

/-- The tokens of the characters of a text, and the failure that ended them early. -/
def Token.ofChars (text : List Char) : List Token × Option LoadError :=
  if text.all isAllowed then
    let cursor : Cursor := { rest := text }
    let cursor := if cursor.peek = '\uFEFF' then cursor.advance else cursor
    Prod.map Scan.tokens id (({ cursor } : Scan).run (text.length + 2))
  else ([], some .malformed)

/-- The tokens of a text are those of its characters. -/
theorem Token.ofText_ofList {text : List Char} :
    Token.ofText (String.ofList text) = Token.ofChars text := by
  simp only [Token.ofText, String.toList_ofList]
  rfl

/-- There are no tokens if a character may not occur. -/
theorem Token.ofChars_of_not_allowed {text : List Char} (hall : text.all isAllowed = false) :
    Token.ofChars text = ([], some .malformed) := by
  simp only [Token.ofChars, hall, Bool.false_eq_true, if_false]

/-- Otherwise they are those of a run from the start. -/
theorem Token.ofChars_of_allowed {text : List Char} (hmark : text.headD endMark ≠ '\uFEFF')
    (hall : text.all isAllowed = true) : Token.ofChars text =
      Prod.map Scan.tokens id ((Scan.start text 0 0).run (text.length + 2)) := by
  have hpeek : ({ rest := text } : Cursor).peek ≠ '\uFEFF' := hmark
  simp only [Token.ofChars, hall, if_true, if_neg hpeek]
  rfl

/-- Blank lines and comments in front of a text do not change its tokens. -/
theorem Token.ofChars_lines {lines : List (List Char)} (h : ∀ line ∈ lines, IsIgnored line)
    (hrest : rest.head? ≠ some '\uFEFF') :
    Token.ofChars (ofLines lines ++ rest) = Token.ofChars rest := by
  have hall : (ofLines lines ++ rest).all isAllowed = rest.all isAllowed := by
    rw [List.all_append, List.all_eq_true.mpr (isAllowed_ofLines h), Bool.true_and]
  cases hallowed : rest.all isAllowed with
  | true =>
    have hmark : rest.headD endMark ≠ '\uFEFF' :=
      @peek_ofLines rest [] (List.forall_mem_nil _) hrest
    rw [Token.ofChars_of_allowed (peek_ofLines h hrest) (hall.trans hallowed),
      Token.ofChars_of_allowed hmark hallowed]
    refine Scan.run_lines h ?_ (Nat.lt_succ_self _)
    rw [List.length_append]
    omega
  | false =>
    rw [Token.ofChars_of_not_allowed (hall.trans hallowed), Token.ofChars_of_not_allowed hallowed]

end HomeAutomaton.Yaml

namespace HomeAutomaton.Model

open Yaml

/-- The value of the characters of a text. -/
def ofChars (text : List Char) : Except LoadError Model :=
  match Tree.ofTokens (Token.ofChars text).1 (Token.ofChars text).2 with
  | .error e => .error e
  | .ok none => .ok ⟨{}, .null⟩
  | .ok (some tree) =>
    match Nodes.ofTree tree with
    | .error e => .error e
    | .ok (root, nodes) => modelOfNodes root nodes

/-- A text is read by its characters. -/
theorem ofYaml_ofList {text : List Char} : ofYaml (String.ofList text) = ofChars text := by
  rw [ofYaml, Token.ofText_ofList]
  rfl

/-- A character that may not occur in a text keeps it from having a value. -/
theorem ofChars_of_not_allowed {text : List Char} (hall : text.all isAllowed = false) :
    ofChars text = .error .malformed := by
  rw [ofChars, Token.ofChars_of_not_allowed hall]
  rfl

/-- Blank lines and comments in front of a text do not change its value. -/
theorem ofChars_lines {lines : List (List Char)} {rest : List Char}
    (h : ∀ line ∈ lines, IsIgnored line) (hrest : rest.head? ≠ some '\uFEFF') :
    ofChars (ofLines lines ++ rest) = ofChars rest := by
  rw [ofChars, ofChars, Token.ofChars_lines h hrest]

end HomeAutomaton.Model
