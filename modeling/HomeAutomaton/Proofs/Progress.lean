import HomeAutomaton.Proofs.Displacement

/-!
# Reading goes forward

Every reader ends at the place where it started or further on, and each piece of a text takes at least
one character. So the number of rounds that a text gets for its pieces is enough, and more rounds would
not change what is read.

* `Cursor.Reaches` says that one place is reached from another; `Onward` says it of the place where a
  computation ends. Each reader has one lemma, named after it.
* `Scan.next_left` is the step: a piece leaves less to be read. `Scan.run_eq_run` is the result for all
  pieces: two numbers of rounds that are large enough give the same.
-/

namespace HomeAutomaton.Yaml

variable {c d e : Cursor}

/-! ### Places -/

namespace Cursor

/-- A step passes the next character. -/
theorem advance_rest : c.advance.rest = c.rest.tail := by
  obtain ⟨rest, index, line, column⟩ := c
  cases rest with
  | nil => rfl
  | cons ch rest =>
    simp only [advance]
    split
    · rfl
    · split <;> rfl

/-- Several steps pass as many characters. -/
theorem advanceBy_rest {n : Nat} : (c.advanceBy n).rest = c.rest.drop n := by
  induction n generalizing c with
  | zero => rfl
  | succ n ih => rw [advanceBy, ih, advance_rest, List.drop_tail]

/-- Steps can be taken one after the other. -/
theorem advanceBy_add {m n : Nat} : c.advanceBy (m + n) = (c.advanceBy m).advanceBy n := by
  induction m generalizing c with
  | zero => rw [Nat.zero_add]; rfl
  | succ m ih => rw [Nat.succ_add]; exact ih

/-- The second place is the first one, or it is further on. -/
def Reaches (c d : Cursor) : Prop := ∃ n, d = c.advanceBy n

namespace Reaches

theorem refl : c.Reaches c := ⟨0, rfl⟩

theorem trans (h : c.Reaches d) (h' : d.Reaches e) : c.Reaches e := by
  obtain ⟨m, rfl⟩ := h
  obtain ⟨n, rfl⟩ := h'
  exact ⟨m + n, advanceBy_add.symm⟩

theorem advanceBy (n : Nat) : c.Reaches (c.advanceBy n) := ⟨n, rfl⟩

theorem advance : c.Reaches c.advance := ⟨1, rfl⟩

/-- More than no step goes at least as far as one. -/
theorem advance_of_pos {n : Nat} (h : 0 < n) : c.advance.Reaches (c.advanceBy n) := by
  obtain ⟨m, rfl⟩ := Nat.exists_eq_add_of_le' h
  exact ⟨m, rfl⟩

theorem takeWhile {p : Char → Bool} : c.Reaches (c.takeWhile p).2 := ⟨_, rfl⟩

theorem skipWhile {p : Char → Bool} : c.Reaches (c.skipWhile p) := ⟨_, rfl⟩

theorem skipComment : c.Reaches c.skipComment := by
  show c.Reaches (if _ then _ else _)
  split
  · exact skipWhile.trans skipWhile
  · exact skipWhile

/-- A line end takes at least one character. -/
theorem advance_lineBreak {r : Char × Cursor} (h : c.lineBreak? = some r) :
    c.advance.Reaches r.2 := by
  -- two characters, or one of the two kinds of them
  unfold lineBreak? at h
  split at h
  · obtain rfl := Option.some.inj h
    exact advance_of_pos Nat.two_pos
  · split at h
    · obtain rfl := Option.some.inj h
      exact refl
    · split at h
      · obtain rfl := Option.some.inj h
        exact refl
      · cases h

theorem lineBreak {r : Char × Cursor} (h : c.lineBreak? = some r) : c.Reaches r.2 :=
  advance.trans (advance_lineBreak h)

/-- Further on there is no more left. -/
theorem length_le (h : c.Reaches d) : d.rest.length ≤ c.rest.length := by
  obtain ⟨n, rfl⟩ := h
  rw [advanceBy_rest, List.length_drop]
  exact Nat.sub_le ..

end Reaches

/-- Only at the end of a text nothing is left to be passed. -/
theorem rest_ne_nil (h : c.peek ≠ endMark) : c.rest ≠ [] := by
  intro hrest
  exact h (by rw [peek, hrest]; rfl)

/-- **Behind a character there is less left.** -/
theorem Reaches.length_lt (h : c.advance.Reaches d) (hpeek : c.peek ≠ endMark) :
    d.rest.length < c.rest.length := by
  have hle := h.length_le
  have hpos := List.length_pos_iff.mpr (rest_ne_nil hpeek)
  rw [advance_rest, List.length_tail] at hle
  omega

end Cursor

open Cursor

/-- A result, if there is one, ends at a place that is reached. -/
def Onward {α : Type} (c : Cursor) (place : α → Cursor) (x : Except LoadError α) : Prop :=
  ∀ a, x = .ok a → c.Reaches (place a)

namespace Onward

variable {α β : Type} {place : α → Cursor} {place' : β → Cursor} {x y : Except LoadError α}

theorem ok {a : α} (h : c.Reaches (place a)) : Onward c place (.ok a) := by
  rintro _ ⟨⟩
  exact h

theorem error {e : LoadError} : Onward c place (.error e) := by
  rintro _ ⟨⟩

theorem ite {p : Prop} [Decidable p] (hx : p → Onward c place x) (hy : ¬p → Onward c place y) :
    Onward c place (if p then x else y) := by
  split
  · exact hx ‹_›
  · exact hy ‹_›

/-- A step is followed by others from where it ends. -/
theorem bind {f : α → Except LoadError β} (h : Onward c place x)
    (hf : ∀ a, Onward (place a) place' (f a)) : Onward c place' (x >>= f) := by
  intro b hb
  obtain ⟨a, ha, hb⟩ := bind_eq_ok.mp hb
  exact (h a ha).trans (hf a b hb)

/-- A step that does not read is followed by others. -/
theorem of_bind {f : β → Except LoadError α} {z : Except LoadError β}
    (hf : ∀ b, z = .ok b → Onward c place (f b)) : Onward c place (z >>= f) := by
  intro a ha
  obtain ⟨b, hb, ha⟩ := bind_eq_ok.mp ha
  exact hf b hb a ha

/-- What goes on from a place that was reached goes on from the first one. -/
theorem after (h : c.Reaches d) (hx : Onward d place x) : Onward c place x :=
  fun a ha => h.trans (hx a ha)

end Onward

/-- The rest of a line is passed. -/
theorem endOfLine_onward : Onward c id c.endOfLine := by
  rw [endOfLine_eq]
  cases h : c.skipComment.lineBreak? with
  | none => exact .ite (fun _ => .ok .skipComment) fun _ => .error
  | some r => exact .ok (Reaches.skipComment.trans (.lineBreak h))

/-! ### Names -/

/-- A name is passed with the mark before it. -/
theorem anchorName_onward : Onward c.advance Prod.snd (anchorName c) :=
  .ite (fun _ => .error) fun _ => .ok .takeWhile

/-- A part of a tag, with its escaped bytes. -/
theorem tagRestFrom_onward {steps : Nat} {text : List Char} :
    Onward c Prod.snd (tagRestFrom steps text c) := by
  induction steps generalizing text c with
  | zero => exact .ok .refl
  | succ steps ih =>
    refine .ite (fun _ => ?_) fun _ => .ite (fun _ => .after .takeWhile ih) fun _ => .ok .refl
    intro r hr
    obtain ⟨bytes, -, hr⟩ := bind_eq_ok.mp hr
    split at hr
    · cases hr
    · exact (Reaches.advanceBy _).trans (ih r hr)

/-- The part of a tag behind its handle. -/
theorem tagRest_onward : Onward c Prod.snd (tagRest c) :=
  tagRestFrom_onward.bind fun _ => .ite (fun _ => .error) fun _ => .ok .refl

/-- The handle of a tag, with its first mark. -/
theorem tagHandle_onward : Onward c.advance Prod.snd (tagHandle c) := by
  refine .ite (fun _ => .error) fun _ => .ite (fun _ => .ok .refl) fun _ => ?_
  exact .ite (fun _ => .ok (Reaches.takeWhile.trans .advance)) fun _ => .error

/-- A tag, in each of its forms. -/
theorem tagToken_onward : Onward c.advance Prod.snd (tagToken c) := by
  simp only [tagToken, ok_bind, error_bind]
  -- between angle brackets, the mark alone, with a handle of its own, or without one
  refine .ite (fun _ => ?written) fun _ => .ite (fun _ => ?alone) fun _ => .ite (fun _ => ?handle)
    fun _ => ?plain
  case written =>
    refine .after (.advance_of_pos Nat.two_pos) (tagRest_onward.bind fun r => ?_)
    refine .ite (fun _ => ?_) fun _ => .error
    exact .ite (fun _ => .ok .advance) fun _ => .error
  case alone => exact .ite (fun _ => .ok .refl) fun _ => .error
  case handle =>
    refine tagHandle_onward.bind fun r => tagRest_onward.bind fun r => ?_
    exact .ite (fun _ => .ok .refl) fun _ => .error
  case plain =>
    refine tagRest_onward.bind fun r => ?_
    exact .ite (fun _ => .ok .refl) fun _ => .error

theorem directiveNumber_onward : Onward c Prod.snd (directiveNumber c) := by
  refine .ite (fun _ => .error) fun _ => ?_
  intro r hr
  split at hr
  · cases hr; exact .takeWhile
  · cases hr

/-- What ends with its line is read on to the end of the line. -/
theorem Onward.endOfLine {α : Type} {a : α} :
    Onward c Prod.snd (c.endOfLine >>= fun d => .ok (a, d)) :=
  endOfLine_onward.bind fun _ => .ok .refl

/-- A directive: its name, and what the name asks for. -/
theorem directiveToken_onward : Onward c.advance Prod.snd (directiveToken c) := by
  simp only [directiveToken, ok_bind, error_bind]
  refine .ite (fun _ => .error) fun _ => ?_
  have hname : c.advance.Reaches (c.advance.takeWhile isNameChar).2 := .takeWhile
  refine .after hname ?_
  -- a version, a handle with its prefix, or a line that is passed over
  refine .ite (fun _ => ?version) fun _ => .ite (fun _ => ?handle) fun _ =>
    .after .skipWhile .endOfLine
  case version =>
    refine .after .skipWhile (directiveNumber_onward.bind fun r => ?_)
    refine .ite (fun _ => .error) fun _ => ?_
    refine .after .advance (directiveNumber_onward.bind fun r => ?_)
    exact .ite (fun _ => .endOfLine) fun _ => .error
  case handle =>
    refine .after (Reaches.skipWhile.trans .advance) (tagHandle_onward.bind fun r => ?_)
    refine .ite (fun _ => .error) fun _ => ?_
    refine .after .skipWhile (tagRest_onward.bind fun r => ?_)
    exact .ite (fun _ => .endOfLine) fun _ => .error

/-! ### Scalars -/

/-- Line ends and blanks between words are passed. -/
theorem plainBreaks_reaches {steps : Nat} {breaks : List Char} :
    c.Reaches (plainBreaks steps breaks c).2 := by
  induction steps generalizing breaks c with
  | zero => exact .refl
  | succ steps ih =>
    rw [plainBreaks]
    split
    · exact Reaches.advance.trans ih
    · cases h : c.lineBreak? with
      | none => exact .refl
      | some r =>
        have hr : c.Reaches r.2 := .lineBreak h
        show c.Reaches (if _ then _ else _ : Option (List Char) × Cursor).2
        split
        · exact hr
        · exact hr.trans ih

/-- What is between two words is passed, over lines or not. -/
theorem plainGap_reaches : c.Reaches (plainGap c).2.2 := by
  simp only [plainGap]
  generalize hd : (c.takeWhile (· = ' ')).2 = d
  have hcd : c.Reaches d := hd ▸ .takeWhile
  -- within a line, or over its end
  cases h : d.lineBreak? with
  | none => exact hcd
  | some r =>
    have hr : c.Reaches r.2 := hcd.trans (.lineBreak h)
    dsimp only
    split
    · exact hr
    · have hbreaks : r.2.Reaches (plainBreaks r.2.rest.length [] r.2).2 := plainBreaks_reaches
      split <;> rename_i hothers <;> rw [hothers] at hbreaks <;> exact hr.trans hbreaks

/-- **The words of a plain scalar** are passed, one round for each. -/
theorem plainFrom_reaches {inFlow : Bool} {indent : Int} {steps : Nat} {text gap : List Char}
    {crossed : Bool} :
    c.Reaches (plainFrom inFlow indent steps text gap crossed c).2.2 := by
  induction steps generalizing text gap crossed c with
  | zero => exact .refl
  | succ steps ih =>
    rw [plainFrom]
    split
    · exact .refl
    · dsimp only
      split
      · exact .refl
      -- a word, and what is behind it
      · have hword : c.Reaches (c.advanceBy (plainWord inFlow c.rest).length) := .advanceBy _
        have hgap := hword.trans plainGap_reaches
        split
        · exact hgap
        · exact hgap.trans ih

/-- A plain scalar that starts with a word takes at least one character. -/
theorem plainScalar_reaches {inFlow : Bool} {indent : Int} (hpeek : c.peek ≠ '#')
    (hword : plainWord inFlow c.rest ≠ []) :
    c.advance.Reaches (plainScalar inFlow indent c).2.2 := by
  -- there is a first round, since there is a character
  obtain ⟨steps, hsteps⟩ : ∃ steps, c.rest.length = steps + 1 := by
    cases hrest : c.rest with
    | nil => exact absurd (by rw [hrest]; rfl) hword
    | cons ch rest => exact ⟨rest.length, rfl⟩
  have hgap : c.advance.Reaches (plainGap (c.advanceBy (plainWord inFlow c.rest).length)).2.2 :=
    (Reaches.advance_of_pos (List.length_pos_iff.mpr hword)).trans plainGap_reaches
  simp only [plainScalar, hsteps, plainFrom, if_neg hpeek, List.isEmpty_iff, if_neg hword]
  split
  · exact hgap
  · exact hgap.trans plainFrom_reaches

theorem quotedBreaks_onward {steps : Nat} {breaks : List Char} :
    Onward c Prod.snd (quotedBreaks steps breaks c) := by
  induction steps generalizing breaks c with
  | zero => exact .ok .refl
  | succ steps ih =>
    refine .ite (fun _ => .error) fun _ => ?_
    dsimp only
    cases h : (c.skipWhile fun ch => ch = ' ' || ch = '\t').lineBreak? with
    | none => exact .ok .skipWhile
    | some r => exact .after (Reaches.skipWhile.trans (.lineBreak h)) ih

/-- Blanks in a quoted scalar are passed, with the lines that they go over. -/
theorem quotedGap_onward : Onward c Prod.snd (quotedGap c) := by
  rw [quotedGap]
  dsimp only
  cases h : (c.takeWhile fun ch => ch = ' ' || ch = '\t').2.lineBreak? with
  | none => exact .ite (fun _ => .error) fun _ => .ok .takeWhile
  | some r =>
    refine .after (Reaches.takeWhile.trans (.lineBreak h)) ?_
    exact quotedBreaks_onward.bind fun _ => .ok .refl

/-- An escape is passed as a whole. -/
theorem quotedEscape_onward : Onward c Prod.snd (quotedEscape c) := by
  rw [quotedEscape]
  -- a character, a code or a line end stands behind the backslash
  cases escapedChar? c.peek with
  | some ch => exact .ok .advance
  | none =>
    cases codeWidth? c.peek with
    | some width =>
      dsimp only
      cases Text.ofHex? (c.advance.rest.take width) with
      | none => exact .error
      | some code =>
        refine .ite (fun _ => .error) fun _ => ?_
        exact .of_bind fun ch _ => .ok (Reaches.advance.trans (.advanceBy _))
    | none =>
      cases h : c.lineBreak? with
      | none => exact .error
      | some r => exact .after (.lineBreak h) quotedBreaks_onward

/-- What a quoted scalar holds is passed. -/
theorem quotedFrom_onward {double : Bool} {steps : Nat} {text : List Char} :
    Onward c Prod.snd (quotedFrom double steps text c) := by
  induction steps generalizing text c with
  | zero => exact .error
  | succ steps ih =>
    refine .ite (fun _ => ?_) fun _ => .ite (fun _ => ?_) fun _ => .ite (fun _ => ?_) fun _ => ?_
    · exact .ite (fun _ => .after (.advanceBy 2) ih) fun _ => .ok .advance
    · exact .after .advance (quotedEscape_onward.bind fun _ => ih)
    · exact quotedGap_onward.bind fun _ => ih
    · exact .after .advance ih

/-- A quoted scalar is passed with its first quote. -/
theorem quotedScalar_onward {double : Bool} : Onward c.advance Prod.snd (quotedScalar double c) :=
  quotedFrom_onward

/-- The header of a block scalar is passed. -/
theorem blockHeader_onward : Onward c (fun r => r.2.2) (blockHeader c) := by
  simp only [blockHeader, ok_bind]
  -- each of the two marks may be there or not, in either order
  cases chomping? c.peek with
  | some chomping =>
    refine .of_bind fun indent _ => .ite (fun _ => .ok ?_) fun _ => .error
    show c.Reaches (if _ then _ else _)
    split
    · exact Reaches.advance.trans .advance
    · exact .advance
  | none =>
    refine .of_bind fun indent _ => ?_
    cases indent with
    | none => exact .ite (fun _ => .ok .refl) fun _ => .error
    | some n =>
      cases chomping? c.advance.peek with
      | some chomping =>
        exact .ite (fun _ => .ok (Reaches.advance.trans .advance)) fun _ => .error
      | none => exact .ite (fun _ => .ok .advance) fun _ => .error

/-- The first lines of a block scalar may be passed to find how far it is indented. -/
theorem findIndent_reaches {steps : Nat} {breaks : List Char} {widest : Nat} :
    c.Reaches (findIndent steps breaks widest c).2.2 := by
  induction steps generalizing breaks widest c with
  | zero => exact .refl
  | succ steps ih =>
    rw [findIndent]
    split
    · exact Reaches.advance.trans ih
    · cases h : c.lineBreak? with
      | none => exact .refl
      | some r => exact (Reaches.lineBreak h).trans ih

theorem skipIndent_reaches {indent : Nat} : c.Reaches (skipIndent indent c) := .advanceBy _

/-- Empty lines of a block scalar are passed. -/
theorem blockBreaks_reaches {indent steps : Nat} {breaks : List Char} :
    c.Reaches (blockBreaks indent steps breaks c).2 := by
  induction steps generalizing breaks c with
  | zero => exact .refl
  | succ steps ih =>
    simp only [blockBreaks]
    cases h : (skipIndent indent c).lineBreak? with
    | none => exact skipIndent_reaches
    | some r => exact skipIndent_reaches.trans ((Reaches.lineBreak h).trans ih)

/-- **The lines of a block scalar** are passed, one round for each. -/
theorem blockLines_reaches {folded : Bool} {indent steps : Nat} {text breaks : List Char} :
    c.Reaches (blockLines folded indent steps text breaks c).2.2.2 := by
  induction steps generalizing text breaks c with
  | zero => exact .refl
  | succ steps ih =>
    simp only [blockLines]
    -- a line, and then its end or that of the text
    have hline : c.Reaches (c.takeWhile fun ch => !endsLine ch).2 := .takeWhile
    split
    · cases h : (c.takeWhile fun ch => !endsLine ch).2.lineBreak? with
      | none =>
        dsimp only
        split
        · exact hline.trans (blockBreaks_reaches.trans ih)
        · exact hline.trans blockBreaks_reaches
      | some r =>
        have hr := hline.trans (.lineBreak h)
        dsimp only
        split
        · exact hr.trans (blockBreaks_reaches.trans ih)
        · exact hr.trans blockBreaks_reaches
    · exact .refl

/-- A block scalar is passed with its first mark. -/
theorem blockScalar_onward {folded : Bool} {outer : Int} :
    Onward c.advance Prod.snd (blockScalar folded outer c) := by
  simp only [blockScalar]
  refine blockHeader_onward.bind fun r => endOfLine_onward.bind fun d => .ok ?_
  refine Reaches.trans ?_ blockLines_reaches
  cases r.2.1 with
  | none => exact findIndent_reaches
  | some n => exact blockBreaks_reaches

/-! ### Pieces -/

namespace Scan

variable {s t : Scan}

theorem unwind_cursor {column : Int} : (s.unwind column).cursor = s.cursor := by
  rw [unwind]
  split <;> rfl

theorem openBlock_cursor {column : Nat} {t : Token} : (s.openBlock column t).cursor = s.cursor := by
  rw [openBlock]
  split <;> rfl

theorem dropStale_cursor (h : s.dropStale = .ok t) : t.cursor = s.cursor := by
  rw [dropStale] at h
  split at h
  · cases h
  · cases h; rfl

/-- Or dropping the key that is open. -/
theorem dropKey_cursor (h : s.dropKey = .ok t) : t.cursor = s.cursor := by
  rw [dropKey] at h
  split at h
  · cases h
  · cases h; rfl

/-- Or marking the place of a key. -/
theorem markKey_cursor (h : s.markKey = .ok t) : t.cursor = s.cursor := by
  rw [markKey] at h
  split at h
  · obtain ⟨u, hu, h⟩ := bind_eq_ok.mp h
    cases h
    show u.cursor = s.cursor
    exact dropKey_cursor hu
  · cases h; rfl

/-- The keys outside of brackets stay when the one that is open is dropped. -/
theorem dropKey_outerKeys (h : s.dropKey = .ok t) : t.outerKeys = s.outerKeys := by
  rw [dropKey] at h
  split at h
  · cases h
  · cases h; rfl

/-- Marking a key opens and closes no bracket. -/
theorem markKey_inFlow (h : s.markKey = .ok t) : t.inFlow = s.inFlow := by
  rw [markKey] at h
  split at h
  · obtain ⟨u, hu, h⟩ := bind_eq_ok.mp h
    cases h
    show (!u.outerKeys.isEmpty) = !s.outerKeys.isEmpty
    rw [dropKey_outerKeys hu]
  · cases h; rfl

/-- What is between pieces is passed. -/
theorem skipGap_reaches {steps : Nat} : s.cursor.Reaches (s.skipGap steps).cursor := by
  induction steps generalizing s with
  | zero => exact .refl
  | succ steps ih =>
    rw [skipGap_succ]
    cases h : s.cursor.skipComment.lineBreak? with
    | none => exact .skipComment
    | some r => exact Reaches.skipComment.trans ((Reaches.lineBreak h).trans ih)

/-- At the end of the text reading is done. -/
theorem finish_done (h : s.finish = .ok t) : t.done = true := by
  obtain ⟨u, -, h⟩ := bind_eq_ok.mp h
  cases h
  rfl

/-- A directive as a piece takes a character at least, and so does each of the following ones. -/
theorem directive_onward : Onward s.cursor.advance Scan.cursor s.directive := by
  refine .of_bind fun u hu => ?_
  have hcursor : u.cursor = s.cursor := (dropKey_cursor hu).trans unwind_cursor
  rw [← hcursor]
  exact directiveToken_onward.bind fun _ => .ok .refl

/-- The marker of a document has three characters. -/
theorem documentMarker_onward {t : Token} :
    Onward s.cursor.advance Scan.cursor (s.documentMarker t) := by
  refine .of_bind fun u hu => .ok ?_
  show s.cursor.advance.Reaches (u.cursor.advanceBy 3)
  rw [dropKey_cursor hu, unwind_cursor]
  exact .advance_of_pos (by decide)

theorem openFlow_onward {t : Token} : Onward s.cursor.advance Scan.cursor (s.openFlow t) := by
  refine .of_bind fun u hu => .ok ?_
  show s.cursor.advance.Reaches u.cursor.advance
  rw [markKey_cursor hu]
  exact .refl

theorem closeFlow_onward {t : Token} : Onward s.cursor.advance Scan.cursor (s.closeFlow t) := by
  refine .of_bind fun u hu => ?_
  rw [← dropKey_cursor hu]
  cases u.outerKeys with
  | nil => exact .error
  | cons outer rest => exact .ok .refl

theorem flowEntry_onward : Onward s.cursor.advance Scan.cursor s.flowEntry := by
  refine .of_bind fun u hu => .ok ?_
  show s.cursor.advance.Reaches u.cursor.advance
  rw [dropKey_cursor hu]
  exact .refl

/-- The state in which an item or a key of a block starts is at the same place. -/
theorem ite_openBlock_cursor {p : Prop} [Decidable p] {column : Nat} {t : Token} :
    (if p then s else s.openBlock column t).cursor = s.cursor := by
  split
  · rfl
  · exact openBlock_cursor

theorem blockEntry_onward : Onward s.cursor.advance Scan.cursor s.blockEntry := by
  refine .ite (fun _ => .error) fun _ => .of_bind fun u hu => .ok ?_
  show s.cursor.advance.Reaches u.cursor.advance
  rw [dropKey_cursor hu, ite_openBlock_cursor]
  exact .refl

theorem explicitKey_onward : Onward s.cursor.advance Scan.cursor s.explicitKey := by
  refine .ite (fun _ => .error) fun _ => .of_bind fun u hu => .ok ?_
  show s.cursor.advance.Reaches u.cursor.advance
  rw [dropKey_cursor hu, ite_openBlock_cursor]
  exact .refl

/-- The mark of a value, whether a key was open or not. -/
theorem mappingValue_onward : Onward s.cursor.advance Scan.cursor s.mappingValue := by
  rw [mappingValue]
  cases s.openKey with
  | some key => exact .ok .refl
  | none =>
    refine .ite (fun _ => .error) fun _ => .ok ?_
    show s.cursor.advance.Reaches (Scan.cursor (if _ then _ else _)).advance
    rw [ite_openBlock_cursor]
    exact .refl

/-- A piece that may be a key, given that what it is read with goes on. -/
theorem keyLike_onward {read : Cursor → Except LoadError (Token × Cursor)}
    (h : ∀ c : Cursor, Onward c.advance Prod.snd (read c)) :
    Onward s.cursor.advance Scan.cursor (s.keyLike read) := by
  refine .of_bind fun u hu => ?_
  rw [← markKey_cursor hu]
  exact (h u.cursor).bind fun _ => .ok .refl

theorem quoted_onward {double : Bool} : Onward s.cursor.advance Scan.cursor (s.quoted double) :=
  keyLike_onward fun _ => quotedScalar_onward.bind fun _ => .ok .refl

theorem block_onward {folded : Bool} : Onward s.cursor.advance Scan.cursor (s.block folded) := by
  refine .of_bind fun u hu => ?_
  rw [← dropKey_cursor hu]
  exact blockScalar_onward.bind fun _ => .ok .refl

/-- A character that can start a plain scalar does not end its first word. -/
theorem endsPlain_eq_false {inFlow : Bool} {ch next : Char}
    (h : (!(isSeparator ch || "-?:,[]\x7b\x7d#&*!|>'\"%@`".toList.contains ch) ||
      (!isSeparator next && (ch = '-' || (!inFlow && (ch = '?' || ch = ':'))))) = true) :
    ch ≠ '#' ∧ endsPlain inFlow ch next = false := by
  have hmarks : isSeparator '-' = false ∧ isSeparator '?' = false ∧ isSeparator ':' = false := by
    decide
  -- a character without a meaning of its own, or a mark that a word goes on behind
  rcases (Bool.or_eq_true _ _).mp h with h | h
  · simp only [Bool.not_eq_true', Bool.or_eq_false_iff] at h
    obtain ⟨hsep, hspecial⟩ := h
    simp at hspecial
    simp [endsPlain, hsep, hspecial]
  · simp only [Bool.and_eq_true, Bool.not_eq_true', Bool.or_eq_true, decide_eq_true_eq] at h
    obtain ⟨hsep, rfl | ⟨hflow, rfl | rfl⟩⟩ := h
    · exact ⟨by decide, by simp [endsPlain, hmarks]⟩
    · exact ⟨by decide, by simp [endsPlain, hmarks, hflow]⟩
    · exact ⟨by decide, by simp [endsPlain, hmarks, hflow, hsep]⟩

/-- Where a plain scalar can start, its first word does. -/
theorem plainWord_ne_nil (hpeek : s.cursor.peek ≠ endMark) (h : s.startsPlain = true) :
    s.cursor.peek ≠ '#' ∧ plainWord s.inFlow s.cursor.rest ≠ [] := by
  obtain ⟨ch, rest, hrest⟩ := List.exists_cons_of_ne_nil (rest_ne_nil hpeek)
  have hch : s.cursor.peek = ch := by rw [peek, hrest]; rfl
  have hnext : s.cursor.peekAt 1 = rest.headD endMark := by
    rw [peekAt, hrest]
    cases rest <;> rfl
  rw [startsPlain, hch, hnext] at h
  obtain ⟨hhash, hends⟩ := endsPlain_eq_false h
  rw [hch, hrest, plainWord, hends]
  exact ⟨hhash, List.cons_ne_nil _ _⟩

/-- A plain scalar, which has a word since it can start here. -/
theorem plain_onward (hpeek : s.cursor.peek ≠ endMark) (h : s.startsPlain = true) :
    Onward s.cursor.advance Scan.cursor s.plain := by
  obtain ⟨hhash, hword⟩ := plainWord_ne_nil hpeek h
  refine .of_bind fun u hu => .ok ?_
  show s.cursor.advance.Reaches (plainScalar u.inFlow u.indent u.cursor).2.2
  rw [markKey_cursor hu, markKey_inFlow hu]
  exact plainScalar_reaches hhash hword

/-- How much there is to be read, the end of the text included. -/
def left (s : Scan) : Nat := if s.done then 0 else s.cursor.rest.length + 1

/-- A piece leaves less to be read. -/
theorem next_left (hs : s.done = false) (h : s.next = .ok t) : t.left < s.left := by
  obtain ⟨u, hu, h⟩ := bind_eq_ok.mp h
  have hreaches : s.cursor.Reaches (u.unwind u.cursor.column).cursor := by
    rw [unwind_cursor, dropStale_cursor hu]
    exact skipGap_reaches
  generalize u.unwind u.cursor.column = v at h hreaches
  by_cases hend : v.cursor.peek = endMark
  · -- the end of the text
    rw [if_pos hend] at h
    have hdone : t.done = true := finish_done h
    simp only [left, hs, hdone, if_true, Bool.false_eq_true, if_false]
    exact Nat.succ_pos _
  · rw [if_neg hend] at h
    -- anchors and aliases are names behind a mark
    have hname {c : Cursor} (make : String → Token) :
        Onward c.advance Prod.snd (anchorName c >>= fun r => .ok (make r.1, r.2)) :=
      anchorName_onward.bind fun _ => .ok .refl
    -- every piece takes its first character at least
    have honward : v.cursor.advance.Reaches t.cursor := by
      refine Onward.ite (fun _ => directive_onward) (fun _ => ?_) t h
      refine .ite (fun _ => documentMarker_onward) fun _ => ?_
      refine .ite (fun _ => documentMarker_onward) fun _ => ?_
      refine .ite (fun _ => openFlow_onward) fun _ => .ite (fun _ => openFlow_onward) fun _ => ?_
      refine .ite (fun _ => closeFlow_onward) fun _ => .ite (fun _ => closeFlow_onward) fun _ => ?_
      refine .ite (fun _ => flowEntry_onward) fun _ => .ite (fun _ => blockEntry_onward) fun _ => ?_
      refine .ite (fun _ => explicitKey_onward) fun _ => ?_
      refine .ite (fun _ => mappingValue_onward) fun _ => ?_
      refine .ite (fun _ => keyLike_onward fun _ => hname _) fun _ => ?_
      refine .ite (fun _ => keyLike_onward fun _ => hname _) fun _ => ?_
      refine .ite (fun _ => keyLike_onward fun _ => tagToken_onward) fun _ => ?_
      refine .ite (fun _ => block_onward) fun _ => .ite (fun _ => block_onward) fun _ => ?_
      refine .ite (fun _ => quoted_onward) fun _ => .ite (fun _ => quoted_onward) fun _ => ?_
      exact .ite (fun hplain => plain_onward hend hplain) fun _ => .error
    -- the blanks before it are passed as well
    have hlength := honward.length_lt hend
    have hle := hreaches.length_le
    simp only [left, hs, Bool.false_eq_true, if_false]
    split <;> omega

/-- Two numbers of rounds that are large enough for what there is to be read give the same. -/
theorem run_eq_run {m n : Nat} (hm : s.left < m) (hn : s.left < n) : s.run m = s.run n := by
  induction m generalizing s n with
  | zero => exact absurd hm (Nat.not_lt_zero _)
  | succ m ih =>
    -- a round is left on both sides, since there is something left to be read
    obtain ⟨n, rfl⟩ : ∃ k, n = k + 1 := Nat.exists_eq_succ_of_ne_zero (by omega)
    cases hdone : s.done with
    | true => rw [run_of_done hdone, run_of_done hdone]
    | false =>
      rw [run_of_next hdone, run_of_next hdone]
      cases hnext : s.next with
      | error e => rfl
      | ok t =>
        have hleft := next_left hdone hnext
        exact ih (by omega) (by omega)

end Scan

end HomeAutomaton.Yaml
