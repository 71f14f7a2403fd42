import HomeAutomaton.Proofs.NumberTexts
import HomeAutomaton.Proofs.PlainTrees

/-!
# JSON is read back

A plain tree is printed with blanks and line breaks or without; either way the text is read as the tree. A
part of the text is read without looking at what stands behind it, except that a number must end somewhere.
So the parts of a list or a mapping are read one after the other, whatever they are.

* `Json.ReadBack` says that a text is read as a value wherever it stands, `Json.Reads` the same of one part
  of a list or mapping, and `Json.Reads.intercalate` of all parts.
* `Data.IsJson` are the values that a text can hold.
* `Json.read_print` and `Json.isJson_of_read` are the results: these values are read back from their texts,
  and nothing else is ever read.
-/

namespace HomeAutomaton

open Text

namespace Json

/-! ### Strings -/

/-- The numbers of the control characters are read back from their digits. -/
theorem ofHex?_hexFixed : ∀ n : Fin 32, ofHex? (hexFixed 4 n) = some n.val := by decide

/-- A character is read back as it is written inside a string. -/
theorem stringFrom_escapeChar (read : List Char) (c : Char) (rest : List Char) :
    stringFrom none read (escapeChar c ++ rest) = stringFrom none (c :: read) rest := by
  rw [escapeChar]
  split_ifs with hquote hn hr ht hb hf hcontrol
  · rcases hquote with rfl | rfl <;> simp [stringFrom, escaped?, settle]
  · simp [stringFrom, escaped?, settle, hn]
  · simp [stringFrom, escaped?, settle, hr]
  · simp [stringFrom, escaped?, settle, ht]
  · simp [stringFrom, escaped?, settle, hb]
  · simp [stringFrom, escaped?, settle, hf]
  · -- a control character is written by its number
    have hhex := ofHex?_hexFixed ⟨c.toNat, hcontrol⟩
    dsimp only at hhex
    obtain ⟨h₁, h₂, h₃, h₄, hdigits⟩ : ∃ h₁ h₂ h₃ h₄, hexFixed 4 c.toNat = [h₁, h₂, h₃, h₄] := ⟨_, _, _, _, rfl⟩
    have hsingle : isHighUnit c.toNat = false ∧ isLowUnit c.toNat = false := by
      simp [isHighUnit, isLowUnit]
      omega
    rw [hdigits] at hhex ⊢
    have hself : charOfUnit c.toNat = c := by
      rw [charOfUnit, hsingle.1, hsingle.2, Char.ofNat_toNat]
      rfl
    simp only [List.cons_append, List.nil_append]
    rw [stringFrom.eq_def]
    simp only [hhex, hsingle.1, hself, Bool.false_eq_true, if_false]
  · simp only [not_or] at hquote
    rw [List.singleton_append, stringFrom, if_neg hcontrol]
    · rfl
    · exact hquote.1
    · exact fun _ _ _ _ _ h => absurd h hquote.2
    · exact fun _ _ h => absurd h hquote.2

/-- A string is read back behind its opening quote. -/
theorem stringFrom_escaped (read cs rest : List Char) :
    stringFrom none read (cs.flatMap escapeChar ++ '"' :: rest) =
      .ok (String.ofList (read.reverse ++ cs), rest) := by
  induction cs generalizing read with
  | nil => simp [stringFrom, settle]
  | cons c cs ih =>
    rw [List.flatMap_cons, List.append_assoc, stringFrom_escapeChar, ih, List.reverse_cons, List.append_assoc]
    rfl

/-! ### Scalars -/

/-- A word is read as what it stands for. -/
theorem scalar_word {w : String × Data} (hw : w ∈ words) (rest : List Char) :
    scalar (w.1.toList ++ rest) = .ok (w.2, rest) := by
  simp only [words, List.mem_cons, List.not_mem_nil, or_false] at hw
  rcases hw with rfl | rfl | rfl | rfl | rfl | rfl <;> rfl

/-- Behind a quote a string is read. -/
theorem scalar_string (cs : List Char) :
    scalar ('"' :: cs) = (stringFrom none [] cs).map fun read => (.str read.1, read.2) := by
  simp [scalar, words, word?]

/-- A digit is none of the characters that are not. -/
theorem ne_of_isDigit {c d : Char} (hc : isDigit c = true) (hd : isDigit d = false) : c ≠ d := by
  rintro rfl
  rw [hc] at hd
  cases hd

/-- What is read as a number is read as a scalar: no word and no string starts with a digit. -/
theorem scalar_of_number {cs : List Char} {read : Data × List Char} (h : number false cs = .ok read) :
    scalar cs = .ok read := by
  obtain ⟨c, ds, rfl, hc⟩ := head_isDigit_of_number h
  have hne : ∀ d, isDigit d = false → d ≠ c := fun d hd => (ne_of_isDigit hc hd).symm
  have hwords : (words.findSome? fun w => (word? w.1 (c :: ds)).map fun rest => (w.2, rest)) = none := by
    simp [words, word?, hne 'n' rfl, hne 't' rfl, hne 'f' rfl, hne 'N' rfl, hne 'I' rfl, hne '-' rfl]
  rw [scalar, hwords]
  · exact h
  · rintro _ ⟨⟩
    exact hne '"' rfl rfl
  · rintro _ ⟨⟩
    exact hne '-' rfl rfl

theorem scalar_of_negative {cs : List Char} {read : Data × List Char} (h : number true cs = .ok read) :
    scalar ('-' :: cs) = .ok read := by
  obtain ⟨c, ds, rfl, hc⟩ := head_isDigit_of_number h
  have hne : 'I' ≠ c := (ne_of_isDigit hc rfl).symm
  have hwords : (words.findSome? fun w => (word? w.1 ('-' :: c :: ds)).map fun rest => (w.2, rest)) = none := by
    simp [words, word?, hne]
  rw [scalar, hwords]
  exact h

/-- What is no list and no mapping starts with another character than these. -/
theorem head_of_scalar {cs : List Char} {read : Data × List Char} (h : scalar cs = .ok read) :
    ∃ c ds, cs = c :: ds ∧ c ∉ ['[', ']', '{', '}', ' ', '\t', '\n', '\r'] := by
  cases cs with
  | nil => simp [scalar, words, word?, number, splitWhole, splitDigits] at h
  | cons c cs =>
    refine ⟨c, cs, rfl, fun hc => ?_⟩
    simp only [List.mem_cons, List.not_mem_nil, or_false] at hc
    rcases hc with rfl | rfl | rfl | rfl | rfl | rfl | rfl | rfl <;>
      simp [scalar, words, word?, number, splitWhole, splitDigits, isDigit] at h

/-- An integer is read back, up to where its digits end. -/
theorem scalar_decimal {n : ℤ} (hn : isTooLong n = false) {rest : List Char} (hrest : EndsNumber rest) :
    scalar ((decimal n).toList ++ rest) = .ok (.int n, rest) := by
  have hlength := isTooLong_eq_false_iff.mp hn
  by_cases hneg : n < 0
  · have hread := number_digitsOf true hlength hrest
    rw [if_pos rfl, show -(n.natAbs : ℤ) = n by omega] at hread
    rw [decimal, if_pos hneg, String.toList_ofList]
    exact scalar_of_negative hread
  · have hread := number_digitsOf false hlength hrest
    rw [if_neg Bool.false_ne_true, show (n.natAbs : ℤ) = n by omega] at hread
    rw [decimal, if_neg hneg, String.toList_ofList]
    exact scalar_of_number hread

/-- **A floating-point number is read back**, from its word or from its shortest decimal. -/
theorem scalar_float {x : Binary64} (hx : x.isNaN = true → x = .notANumber) {rest : List Char}
    (hrest : EndsNumber rest) : scalar ((float x).toList ++ rest) = .ok (.float x, rest) := by
  rw [float]
  split_ifs with hnan hinfinite hnegative
  · rw [hx hnan]
    exact scalar_word (w := ("NaN", .float .notANumber)) (by simp [words]) rest
  · rw [Binary64.eq_infinity hinfinite, if_pos hnegative]
    exact scalar_word (w := ("-Infinity", .float Binary64.infinity.negate)) (by simp [words]) rest
  · rw [Binary64.eq_infinity hinfinite, if_neg hnegative]
    exact scalar_word (w := ("Infinity", .float .infinity)) (by simp [words]) rest
  -- a number without a word has an exponent below the largest one
  · have hfinite : x.exponentField ≠ 2047 := by
      intro hfield
      rcases Nat.eq_zero_or_pos x.fractionField with hzero | hpos
      · exact hinfinite (x.isInfinite_iff.mpr ⟨hfield, hzero⟩)
      · exact hnan (by simp [Binary64.isNaN, hfield, hpos.ne'])
    have hread := number_magnitudeText hfinite hrest
    rw [text_eq hfinite, String.toList_ofList, List.append_assoc]
    cases hsign : x.isNegative with
    | false =>
      rw [hsign] at hread
      exact scalar_of_number hread
    | true =>
      rw [hsign] at hread
      exact scalar_of_negative hread

/-! ### Blanks -/

/-- The text is made of the blanks that stand between values. -/
def IsBlank (cs : List Char) : Prop := ∀ c ∈ cs, c = ' ' ∨ c = '\n'

theorem skipBlanks_append {bs cs : List Char} (hbs : IsBlank bs) : skipBlanks (bs ++ cs) = skipBlanks cs := by
  refine List.dropWhile_append_of_pos fun c hc => ?_
  rcases hbs c hc with rfl | rfl <;> rfl

/-- Nothing is skipped before another character. -/
theorem skipBlanks_cons {c : Char} (hc : c ∉ [' ', '\t', '\n', '\r']) (cs : List Char) :
    skipBlanks (c :: cs) = c :: cs := by
  rw [skipBlanks, List.dropWhile_cons_of_neg]
  simpa [and_assoc] using hc

/-- What is written before an item is blank, with line breaks and without. -/
theorem isBlank_breakBefore (indent : Option ℕ) (level : ℕ) : IsBlank (breakBefore indent level).toList := by
  cases indent with
  | none => exact fun c hc => absurd hc (by simp [breakBefore])
  | some width =>
    intro c hc
    rw [breakBefore, String.toList_ofList, List.mem_cons] at hc
    exact hc.symm.imp_left List.eq_of_mem_replicate

/-- What is written between two items is a comma and blanks. -/
theorem exists_separator_eq (indent : Option ℕ) (level : ℕ) :
    ∃ bs, IsBlank bs ∧ (separator indent level).toList = ',' :: bs := by
  cases indent with
  | none => exact ⟨[' '], by simp [IsBlank], by simp [separator]⟩
  | some width =>
    refine ⟨(breakBefore (some width) level).toList, isBlank_breakBefore _ _, ?_⟩
    rw [separator, String.toList_append]
    rfl

/-- Between a value and the bracket behind it stand blanks only. -/
theorem endsNumber_append {gap cs : List Char} {c : Char} (hgap : IsBlank gap) (hc : c ∈ [',', ']', '}']) :
    EndsNumber (gap ++ c :: cs) := by
  have hcases : ∀ d, (d = ' ' ∨ d = '\n' ∨ d ∈ [',', ']', '}']) →
      isDigit d = false ∧ d ≠ '.' ∧ d ≠ 'e' ∧ d ≠ 'E' := by
    intro d hd
    simp only [List.mem_cons, List.not_mem_nil, or_false] at hd
    rcases hd with rfl | rfl | rfl | rfl | rfl <;> decide
  intro d hd
  -- a number ends at the first blank, or at the bracket if there is none
  cases gap with
  | nil =>
    obtain rfl := Option.some.inj hd
    exact hcases _ (.inr (.inr hc))
  | cons b gap =>
    obtain rfl := Option.some.inj hd
    exact hcases _ ((hgap _ List.mem_cons_self).imp_right .inl)

/-! ### Lists and mappings -/

/-- The text is read as the value, wherever it stands. -/
def ReadBack (d : Data) (text : List Char) : Prop :=
  ∀ steps rest, text.length ≤ steps → EndsNumber rest → value steps (text ++ rest) = .ok (d, rest)

/-- What is read as a scalar is read as a value. -/
theorem value_of_scalar {cs : List Char} {read : Data × List Char} (h : scalar cs = .ok read) (steps : ℕ) :
    value (steps + 1) cs = .ok read := by
  obtain ⟨c, ds, rfl, hc⟩ := head_of_scalar h
  rw [value]
  · exact h
  · rintro _ ⟨⟩
    simp at hc
  · rintro _ ⟨⟩
    simp at hc

/-- The text starts with something else than a blank or a bracket that closes. -/
def Starts (cs : List Char) : Prop := ∃ c ds, cs = c :: ds ∧ c ∉ [']', '}', ' ', '\t', '\n', '\r']

theorem Starts.append {cs : List Char} (h : Starts cs) (ds : List Char) : Starts (cs ++ ds) := by
  obtain ⟨c, cs, rfl, hc⟩ := h
  exact ⟨c, cs ++ ds, rfl, hc⟩

/-- There are no blanks to be skipped. -/
theorem Starts.skipBlanks_eq {cs : List Char} (h : Starts cs) : skipBlanks cs = cs := by
  obtain ⟨c, cs, rfl, hc⟩ := h
  refine skipBlanks_cons (fun hmem => hc ?_) cs
  simp only [List.mem_cons, List.not_mem_nil, or_false] at hmem ⊢
  tauto

/-- What a value is read from starts so. -/
theorem starts_of_value {steps : ℕ} {cs : List Char} {read : Data × List Char} (h : value steps cs = .ok read) :
    Starts cs := by
  cases steps with
  | zero => cases h
  | succ steps =>
    -- a list, a mapping or a scalar, each known by its first character
    unfold value at h
    split at h
    · exact ⟨_, _, rfl, by decide⟩
    · exact ⟨_, _, rfl, by decide⟩
    · obtain ⟨c, ds, rfl, hc⟩ := head_of_scalar h
      refine ⟨c, ds, rfl, fun hmem => hc ?_⟩
      simp only [List.mem_cons, List.not_mem_nil, or_false] at hmem ⊢
      tauto

/-- A number may stand at the end of a text. -/
theorem endsNumber_nil : EndsNumber [] := fun _ hc => absurd hc (by simp)

/-- A text that is read back is not empty, and does not start with a blank. -/
theorem ReadBack.starts {d : Data} {text : List Char} (h : ReadBack d text) : Starts text := by
  have hread := h text.length [] le_rfl endsNumber_nil
  rw [List.append_nil] at hread
  exact starts_of_value hread

/-- Scalars need no steps for parts. -/
theorem ReadBack.of_scalar {d : Data} {text : List Char}
    (h : ∀ rest, EndsNumber rest → scalar (text ++ rest) = .ok (d, rest)) : ReadBack d text := by
  intro steps rest hsteps hrest
  have hread := h [] endsNumber_nil
  obtain ⟨c, ds, htext, -⟩ := head_of_scalar hread
  rw [List.append_nil] at htext
  cases steps with
  | zero => simp [htext] at hsteps
  | succ steps => exact value_of_scalar (h rest hrest) steps

/-- A joined text starts with the first of its parts. -/
theorem exists_intercalate_eq {α : Type} (sep first : List α) (texts : List (List α)) :
    ∃ more, sep.intercalate (first :: texts) = first ++ more := by
  cases texts with
  | nil => exact ⟨[], by simp⟩
  | cons second texts => exact ⟨_, by rw [List.intercalate_cons_cons, List.append_assoc]⟩

/-- A reader of the items of a list, or of the entries of a mapping: behind an item that it has read it goes
on at a comma, and is done at the bracket. -/
structure Reads {α : Type} (reader : ℕ → List α → List Char → Step Data) (close : Char)
    (result : List α → Data) (text : α → List Char) (a : α) : Prop where
  starts : Starts (text a)
  next : ∀ steps read cs, (text a).length ≤ steps →
    reader (steps + 1) read (text a ++ ',' :: cs) = reader steps (a :: read) (skipBlanks cs)
  last : ∀ steps read gap rest, IsBlank gap → (text a).length ≤ steps →
    reader (steps + 1) read (text a ++ (gap ++ close :: rest)) = .ok (result (a :: read).reverse, rest)

/-- So the items of a list start as the first of them does. -/
theorem Reads.starts_intercalate {α : Type} {reader : ℕ → List α → List Char → Step Data} {close : Char}
    {result : List α → Data} {text : α → List Char} {as : List α} (h : ∀ a ∈ as, Reads reader close result text a)
    (hne : as ≠ []) (sep : List Char) : Starts (sep.intercalate (as.map text)) := by
  cases as with
  | nil => exact absurd rfl hne
  | cons a as =>
    obtain ⟨more, hmore⟩ := exists_intercalate_eq sep (text a) (as.map text)
    rw [List.map_cons, hmore]
    exact (h a List.mem_cons_self).starts.append more

/-- What is written with commas and blanks between the items is read item by item. -/
theorem Reads.intercalate {α : Type} {reader : ℕ → List α → List Char → Step Data} {close : Char}
    {result : List α → Data} {text : α → List Char} {as : List α} (h : ∀ a ∈ as, Reads reader close result text a)
    (hne : as ≠ []) {bs gap : List Char} (hbs : IsBlank bs) (hgap : IsBlank gap) (read : List α) {steps : ℕ}
    (rest : List Char) (hsteps : ((',' :: bs).intercalate (as.map text)).length < steps) :
    reader steps read ((',' :: bs).intercalate (as.map text) ++ (gap ++ close :: rest)) =
      .ok (result (read.reverse ++ as), rest) := by
  -- by induction on the items: the reader has read those before, and each takes a step
  induction as generalizing read steps with
  | nil => exact absurd rfl hne
  | cons a as ih =>
    obtain ⟨steps, rfl⟩ := Nat.exists_eq_succ_of_ne_zero (Nat.ne_zero_of_lt hsteps)
    obtain ⟨ha, has⟩ := List.forall_mem_cons.mp h
    cases as with
    | nil =>
      rw [List.map_singleton, List.intercalate_singleton] at hsteps ⊢
      rw [ha.last steps read gap rest hgap (Nat.lt_succ_iff.mp hsteps), List.reverse_cons]
    | cons a' as =>
      have hsplit : (',' :: bs).intercalate ((a :: a' :: as).map text) =
          text a ++ ',' :: (bs ++ (',' :: bs).intercalate ((a' :: as).map text)) := by
        rw [List.map_cons, List.map_cons, List.intercalate_cons_cons]
        simp
      rw [hsplit, List.length_append, List.length_cons, List.length_append] at hsteps
      -- behind the comma and the blanks the next item starts
      have hnext : skipBlanks (bs ++ ((',' :: bs).intercalate ((a' :: as).map text) ++ (gap ++ close :: rest))) =
          (',' :: bs).intercalate ((a' :: as).map text) ++ (gap ++ close :: rest) := by
        rw [skipBlanks_append hbs]
        exact ((starts_intercalate has (List.cons_ne_nil _ _) _).append _).skipBlanks_eq
      -- so the item is read, the comma and the blanks are passed, and the rest is read in the steps that are
      -- left
      rw [hsplit, List.append_assoc, List.cons_append, List.append_assoc, ha.next steps read _ (by omega), hnext,
        ih has (List.cons_ne_nil _ _) (a :: read) (by omega), List.reverse_cons, List.append_assoc]
      rfl

/-! ### Lists -/

/-- The blanks before a closing bracket are skipped. -/
theorem skipBlanks_close {gap : List Char} (hgap : IsBlank gap) {close : Char} (hclose : close ∈ [']', '}'])
    (rest : List Char) : skipBlanks (gap ++ close :: rest) = close :: rest := by
  rw [skipBlanks_append hgap, skipBlanks_cons]
  simp only [List.mem_cons, List.not_mem_nil, or_false] at hclose
  rcases hclose with rfl | rfl <;> decide

/-- A number ends at a comma. -/
theorem endsNumber_comma (cs : List Char) : EndsNumber (',' :: cs) := by
  have hgap : IsBlank [] := fun _ h => absurd h List.not_mem_nil
  exact endsNumber_append hgap (by simp)

/-- **An item of a list** is read as its value, and then the reader goes on or is done. -/
theorem reads_items {text : Data → List Char} {d : Data} (h : ReadBack d (text d)) :
    Reads items ']' .list text d := by
  refine ⟨h.starts, fun steps read cs hsteps => ?_, fun steps read gap rest hgap hsteps => ?_⟩
  · rw [items, h steps _ hsteps (endsNumber_comma cs)]
    dsimp only
    rw [skipBlanks_cons (by decide)]
    rfl
  · rw [items, h steps _ hsteps (endsNumber_append hgap (by simp))]
    dsimp only
    rw [skipBlanks_close hgap (by simp)]
    rfl

variable {text : Data → List Char} {bs gap gap' : List Char}

/-- A list is read behind its bracket, item by item. -/
theorem ReadBack.list {ds : List Data} (hne : ds ≠ []) (h : ∀ d ∈ ds, ReadBack d (text d)) (hbs : IsBlank bs)
    (hgap : IsBlank gap) (hgap' : IsBlank gap') :
    ReadBack (.list ds) ('[' :: (gap ++ ((',' :: bs).intercalate (ds.map text) ++ (gap' ++ [']'])))) := by
  intro steps rest hsteps hrest
  have hreads : ∀ d ∈ ds, Reads items ']' .list text d := fun d hd => reads_items (h d hd)
  simp only [List.length_cons, List.length_append, List.length_nil] at hsteps
  obtain ⟨steps, rfl⟩ := Nat.exists_eq_succ_of_ne_zero (by omega : steps ≠ 0)
  have hitems := Reads.intercalate hreads hne hbs hgap' [] rest (by omega : _ < steps)
  have hstarts := (Reads.starts_intercalate hreads hne (',' :: bs)).append (gap' ++ ']' :: rest)
  simp only [List.cons_append, List.append_assoc, List.nil_append]
  -- the bracket does not close at once, since an item starts with another character
  rw [value, skipBlanks_append hgap, hstarts.skipBlanks_eq]
  obtain ⟨c, cs, heq, hc⟩ := hstarts
  rw [heq] at hitems ⊢
  split
  next hclose => exact absurd (List.cons.inj hclose).1 (fun h => hc (by simp [h]))
  next => exact hitems

/-! ### Mappings -/

/-- An entry as it is written: its key between quotes, and its value behind a colon. -/
def entryText (text : Data → List Char) (e : Data × Data) : List Char :=
  '"' :: (e.1.text.toList.flatMap escapeChar ++ '"' :: ':' :: ' ' :: text e.2)

/-- The key of an entry is read, and then its value. -/
theorem entries_entryText {text : Data → List Char} {e : Data × Data} (hkey : e.1.IsText)
    (hvalue : ReadBack e.2 (text e.2)) (read : List (Data × Data)) {steps : ℕ} {rest : List Char}
    (hsteps : (text e.2).length ≤ steps) (hrest : EndsNumber rest) :
    entries (steps + 1) read (entryText text e ++ rest) =
      match skipBlanks rest with
      | ',' :: rest => entries steps (e :: read) (skipBlanks rest)
      | '}' :: rest => .ok (.map (Table.ofPairs (e :: read).reverse), rest)
      | _ => .error .malformed := by
  obtain ⟨key, item⟩ := e
  obtain ⟨s, rfl⟩ := hkey
  -- the key is read up to its closing quote
  have hstring := stringFrom_escaped [] s.toList (':' :: ' ' :: (text item ++ rest))
  rw [List.reverse_nil, List.nil_append, String.ofList_toList] at hstring
  have hshape : entryText text (.str s, item) ++ rest =
      '"' :: (s.toList.flatMap escapeChar ++ '"' :: (':' :: ' ' :: (text item ++ rest))) := by
    simp [entryText, Data.text]
  -- behind the colon stands one blank, and then the value
  have hspace : IsBlank [' '] := by simp [IsBlank]
  have hblank : skipBlanks (' ' :: (text item ++ rest)) = text item ++ rest :=
    (skipBlanks_append hspace).trans (hvalue.starts.append rest).skipBlanks_eq
  have hitem : value steps (skipBlanks (' ' :: (text item ++ rest))) = .ok (item, rest) := by
    rw [hblank]
    exact hvalue steps rest hsteps hrest
  rw [hshape, entries, hstring]
  dsimp only
  rw [skipBlanks_cons (by decide)]
  -- the reader comes to the colon, and reads the value as it was said
  split
  next after hcolon =>
    obtain ⟨-, rfl⟩ := List.cons.inj hcolon
    split
    next e hfailed => cases hitem.symm.trans hfailed
    next item' rest' hread =>
      obtain ⟨rfl, rfl⟩ := Prod.mk.inj (Except.ok.inj (hitem.symm.trans hread))
      rfl
  next hnone => exact absurd rfl (hnone _)

/-- An entry is longer than its value. -/
theorem length_entryText (text : Data → List Char) (e : Data × Data) :
    (text e.2).length ≤ (entryText text e).length := by
  have hend : text e.2 <:+ entryText text e :=
    ⟨'"' :: (e.1.text.toList.flatMap escapeChar ++ ['"', ':', ' ']), by simp [entryText]⟩
  exact hend.length_le

/-- **An entry of a mapping** is read as its key and value. -/
theorem reads_entries {text : Data → List Char} {e : Data × Data} (hkey : e.1.IsText)
    (h : ReadBack e.2 (text e.2)) :
    Reads entries '}' (fun es => .map (Table.ofPairs es)) (entryText text) e := by
  refine ⟨⟨_, _, rfl, by decide⟩, fun steps read cs hsteps => ?_,
    fun steps read gap rest hgap hsteps => ?_⟩
  · rw [entries_entryText hkey h read ((length_entryText text e).trans hsteps) (endsNumber_comma cs),
      skipBlanks_cons (by decide)]
    rfl
  · rw [entries_entryText hkey h read ((length_entryText text e).trans hsteps) (endsNumber_append hgap (by simp)),
      skipBlanks_close hgap (by simp)]
    rfl

/-- A mapping is read behind its bracket, entry by entry. -/
theorem ReadBack.map {es : List (Data × Data)} (hne : es ≠ []) (hkeys : ∀ e ∈ es, e.1.IsText)
    (hnodup : (es.map (·.1)).Nodup) (h : ∀ e ∈ es, ReadBack e.2 (text e.2)) (hbs : IsBlank bs)
    (hgap : IsBlank gap) (hgap' : IsBlank gap') :
    ReadBack (.map es) ('{' :: (gap ++ ((',' :: bs).intercalate (es.map (entryText text)) ++ (gap' ++ ['}'])))) := by
  intro steps rest hsteps hrest
  have hreads : ∀ e ∈ es, Reads entries '}' (fun es => .map (Table.ofPairs es)) (entryText text) e :=
    fun e he => reads_entries (hkeys e he) (h e he)
  simp only [List.length_cons, List.length_append, List.length_nil] at hsteps
  obtain ⟨steps, rfl⟩ := Nat.exists_eq_succ_of_ne_zero (by omega : steps ≠ 0)
  have hentries := Reads.intercalate hreads hne hbs hgap' [] rest (by omega : _ < steps)
  -- since no key is there twice, the table has the entries as they are
  rw [List.reverse_nil, List.nil_append, Table.ofPairs_eq hkeys hnodup] at hentries
  have hstarts := (Reads.starts_intercalate hreads hne (',' :: bs)).append (gap' ++ '}' :: rest)
  simp only [List.cons_append, List.append_assoc, List.nil_append]
  -- the bracket does not close at once, since an entry starts with a quote
  rw [value, skipBlanks_append hgap, hstarts.skipBlanks_eq]
  obtain ⟨c, cs, heq, hc⟩ := hstarts
  rw [heq] at hentries ⊢
  split
  next hclose => exact absurd (List.cons.inj hclose).1 (fun h => hc (by simp [h]))
  next => exact hentries

end Json

/-! ### Values -/

/-- The value can stand in a JSON text: it is a plain tree, its integers are not too long, and what is not a
number is the one such thing that has a word. -/
inductive Data.IsJson : Data → Prop
  | null : IsJson .null
  | bool (b : Bool) : IsJson (.bool b)
  | int {n : ℤ} : Text.isTooLong n = false → IsJson (.int n)
  | float {x : Binary64} : (x.isNaN = true → x = .notANumber) → IsJson (.float x)
  | str (s : String) : IsJson (.str s)
  | list {items : List Data} : (∀ d ∈ items, d.IsJson) → IsJson (.list items)
  | map {entries : List (Data × Data)} : (∀ e ∈ entries, e.1.IsText) → (entries.map (·.1)).Nodup →
      (∀ e ∈ entries, e.2.IsJson) → IsJson (.map entries)

/-- What can stand in a JSON text is a tree of plain values. -/
theorem Data.IsJson.isTree {d : Data} (h : d.IsJson) : d.IsTree := by
  induction h with
  | null => exact .null
  | bool b => exact .bool b
  | int => exact .int _
  | float => exact .float _
  | str s => exact .str s
  | list _ ih => exact .list ih
  | map htext hnodup _ ih => exact .map htext hnodup ih

namespace Json

/-- Every item is printed by itself. -/
theorem printItems_eq (indent : Option ℕ) (level : ℕ) (ds : List Data) :
    printItems indent level ds = ds.map (printAt indent level) := by
  induction ds with
  | nil => rfl
  | cons d ds ih => rw [printItems, ih, List.map_cons]

theorem printEntries_eq (indent : Option ℕ) (level : ℕ) (es : List (Data × Data)) :
    (printEntries indent level es).map String.toList =
      es.map (entryText fun d => (printAt indent level d).toList) := by
  induction es with
  | nil => rfl
  | cons e es ih =>
    obtain ⟨key, d⟩ := e
    rw [printEntries, List.map_cons, List.map_cons, ih]
    simp [entryText, string]

/-- What stands between brackets, one item at least. -/
theorem exists_bracketed_eq (indent : Option ℕ) (level : ℕ) (opening closing : String) {texts : List String}
    (hne : texts ≠ []) : ∃ bs gap gap', IsBlank bs ∧ IsBlank gap ∧ IsBlank gap' ∧
      (bracketed indent level opening closing texts).toList = opening.toList ++ (gap ++
        ((',' :: bs).intercalate (texts.map String.toList) ++ (gap' ++ closing.toList))) := by
  obtain ⟨bs, hbs, hsep⟩ := exists_separator_eq indent (level + 1)
  refine ⟨bs, _, _, hbs, isBlank_breakBefore indent (level + 1), isBlank_breakBefore indent level, ?_⟩
  cases texts with
  | nil => exact absurd rfl hne
  | cons text texts =>
    rw [bracketed]
    · simp only [String.toList_append, String.toList_intercalate, hsep, List.append_assoc]
    · exact hne

/-- The empty list has nothing between its brackets. -/
theorem readBack_list_nil : ReadBack (.list []) ['[', ']'] := by
  intro steps rest hsteps _
  obtain ⟨steps, rfl⟩ := Nat.exists_eq_succ_of_ne_zero (Nat.ne_of_gt (Nat.lt_of_lt_of_le Nat.two_pos hsteps))
  change value (steps + 1) ('[' :: ']' :: rest) = _
  rw [value, skipBlanks_cons (by decide)]
  rfl

theorem readBack_map_nil : ReadBack (.map []) ['{', '}'] := by
  intro steps rest hsteps _
  obtain ⟨steps, rfl⟩ := Nat.exists_eq_succ_of_ne_zero (Nat.ne_of_gt (Nat.lt_of_lt_of_le Nat.two_pos hsteps))
  change value (steps + 1) ('{' :: '}' :: rest) = _
  rw [value, skipBlanks_cons (by decide)]
  rfl

/-- **A value is read back from its text**, wherever it stands. -/
theorem readBack_printAt {d : Data} (h : d.IsJson) (indent : Option ℕ) (level : ℕ) :
    ReadBack d (printAt indent level d).toList := by
  -- by induction on the value; the level of its parts is one more
  induction h generalizing level with
  | null => exact .of_scalar fun rest _ => scalar_word (w := ("null", .null)) (by simp [words]) rest
  | bool b =>
    cases b with
    | false => exact .of_scalar fun rest _ => scalar_word (w := ("false", .bool false)) (by simp [words]) rest
    | true => exact .of_scalar fun rest _ => scalar_word (w := ("true", .bool true)) (by simp [words]) rest
  | int hn => exact .of_scalar fun rest hrest => scalar_decimal hn hrest
  | float hx => exact .of_scalar fun rest hrest => scalar_float hx hrest
  | str s =>
    refine .of_scalar fun rest _ => ?_
    have hread := stringFrom_escaped [] s.toList rest
    have htext : (printAt indent level (.str s)).toList ++ rest =
        '"' :: (s.toList.flatMap escapeChar ++ '"' :: rest) := by
      simp [printAt, scalarText, string]
    rw [htext, scalar_string, hread]
    simp [Except.map]
  -- an empty list has a form of its own
  | @list ds _ ih =>
    rw [printAt, printItems_eq]
    cases ds with
    | nil => simpa [bracketed] using readBack_list_nil
    | cons d ds =>
      have hne : d :: ds ≠ [] := List.cons_ne_nil _ _
      have hne' : (d :: ds).map (printAt indent (level + 1)) ≠ [] := List.cons_ne_nil _ _
      obtain ⟨bs, gap, gap', hbs, hgap, hgap', htext⟩ := exists_bracketed_eq indent level "[" "]" hne'
      rw [htext, List.map_map]
      exact ReadBack.list hne (fun d hd => ih d hd (level + 1)) hbs hgap hgap'
  -- and so has an empty mapping
  | @map es htext hnodup _ ih =>
    rw [printAt]
    cases es with
    | nil => simpa [bracketed, printEntries] using readBack_map_nil
    | cons e es =>
      have hne : e :: es ≠ [] := List.cons_ne_nil _ _
      have hne' : printEntries indent (level + 1) (e :: es) ≠ [] := List.cons_ne_nil _ _
      obtain ⟨bs, gap, gap', hbs, hgap, hgap', heq⟩ := exists_bracketed_eq indent level "\x7b" "\x7d" hne'
      rw [heq, printEntries_eq]
      exact ReadBack.map hne htext hnodup (fun e he => ih e he (level + 1)) hbs hgap hgap'

/-- **A text is read as the value that it is the text of.** -/
theorem read_print {d : Data} (h : d.IsJson) (indent : Option ℕ) : read (print indent d) = .ok d := by
  have hback : ReadBack d (print indent d).toList := readBack_printAt h indent 0
  have hvalue := hback (2 * (print indent d).toList.length + 2) [] (by omega) endsNumber_nil
  rw [List.append_nil] at hvalue
  rw [read, hback.starts.skipBlanks_eq, hvalue]
  rfl

/-! ### What is read -/

/-- A number is below the power of ten with as many digits. -/
theorem ofDigitChars_lt {cs : List Char} (h : AllDigits cs) (n : ℕ) :
    Nat.ofDigitChars 10 cs n < 10 ^ cs.length * (n + 1) := by
  induction cs generalizing n with
  | nil => simp
  | cons c cs ih =>
    obtain ⟨hc, hcs⟩ := List.forall_mem_cons.mp h
    have hdigit : c.toNat - '0'.toNat < 10 := by
      simp only [isDigit, Bool.and_eq_true, decide_eq_true_eq, Char.le_def, UInt32.le_iff_toNat_le] at hc
      have hle : c.toNat ≤ 57 := hc.2
      change c.toNat - 48 < 10
      omega
    -- one digit more multiplies what was read by ten, and the bound with it
    calc Nat.ofDigitChars 10 (c :: cs) n = Nat.ofDigitChars 10 cs (10 * n + (c.toNat - '0'.toNat)) :=
          Nat.ofDigitChars_cons
      _ < 10 ^ cs.length * (10 * n + (c.toNat - '0'.toNat) + 1) := ih hcs _
      _ ≤ 10 ^ cs.length * (10 * (n + 1)) := Nat.mul_le_mul_left _ (by omega)
      _ = 10 ^ (c :: cs).length * (n + 1) := by
          rw [List.length_cons, pow_succ]
          ring

/-- What is split off before a point or an exponent is digits. -/
theorem allDigits_splitWhole (cs : List Char) : AllDigits (splitWhole cs).1 := by
  unfold splitWhole
  split
  · exact isWhole_zero.digits
  · exact List.all_eq_true.mp List.all_takeWhile

/-- Digits that are read are not too long as an integer. -/
theorem isTooLong_of_digits {whole : List Char} (hdigits : AllDigits whole) (hlength : whole.length ≤ digitLimit)
    {n : ℤ} (hn : n.natAbs = Nat.ofDigitChars 10 whole 0) : isTooLong n = false := by
  have hpos : 0 < digitLimit := by decide
  rw [isTooLong_eq_false_iff, digitsOf]
  generalize digitLimit = limit at hlength hpos
  rw [Nat.length_toDigits_le_iff (by norm_num) hpos, hn]
  calc Nat.ofDigitChars 10 whole 0 < 10 ^ whole.length * (0 + 1) := ofDigitChars_lt hdigits 0
    _ = 10 ^ whole.length := by rw [zero_add, mul_one]
    _ ≤ 10 ^ limit := Nat.pow_le_pow_right (by norm_num) hlength

/-- A number that is read is an integer within the limit, or a floating-point number. -/
theorem isJson_of_number {negative : Bool} {cs rest : List Char} {d : Data}
    (h : number negative cs = .ok (d, rest)) : d.IsJson := by
  have hdigits := allDigits_splitWhole cs
  rw [number] at h
  generalize splitWhole cs = whole at h hdigits
  obtain ⟨whole, tail⟩ := whole
  dsimp only at h hdigits
  split at h
  · cases h
  next hne =>
    generalize (fraction? tail).getD ([], tail) = fraction at h
    obtain ⟨fraction, tail⟩ := fraction
    dsimp only at h
    split at h
    · -- an integer has as many digits as were read
      split at h
      · cases h
      next hlength =>
        have hnonempty : whole ≠ [] := by
          rintro rfl
          exact hne rfl
        rw [natOfDigits?_eq hdigits hnonempty, Option.getD_some] at h
        obtain ⟨rfl, -⟩ := Prod.mk.inj (Except.ok.inj h)
        refine .int (isTooLong_of_digits hdigits (not_lt.mp hlength) ?_)
        split <;> simp
    -- a decimal is never rounded to what is not a number
    · obtain ⟨rfl, -⟩ := Prod.mk.inj (Except.ok.inj h)
      refine .float fun hnan => ?_
      rw [Binary64.isNaN_ofDecimal] at hnan
      cases hnan

/-- A scalar that is read is a word, a string or a number. -/
theorem isJson_of_scalar {cs rest : List Char} {d : Data} (h : scalar cs = .ok (d, rest)) : d.IsJson := by
  rw [scalar.eq_def] at h
  cases hword : words.findSome? fun w => (word? w.1 cs).map fun rest => (w.2, rest) with
  | some read =>
    rw [hword] at h
    obtain ⟨w, hw, hread⟩ := List.exists_of_findSome?_eq_some hword
    obtain ⟨rest', -, rfl⟩ := Option.map_eq_some_iff.mp hread
    obtain ⟨rfl, -⟩ := Prod.mk.inj (Except.ok.inj h)
    simp only [words, List.mem_cons, List.not_mem_nil, or_false] at hw
    -- each of the six words
    rcases hw with rfl | rfl | rfl | rfl | rfl | rfl
    · exact .null
    · exact .bool true
    · exact .bool false
    · exact .float fun _ => rfl
    · exact .float fun hnan => absurd hnan (by decide)
    · exact .float fun hnan => absurd hnan (by decide)
  | none =>
    rw [hword] at h
    dsimp only at h
    -- otherwise the first character tells a string from a number
    split at h
    · cases hstring : stringFrom none [] _ with
      | error e =>
        rw [hstring] at h
        cases h
      | ok read =>
        rw [hstring] at h
        obtain ⟨rfl, -⟩ := Prod.mk.inj (Except.ok.inj h)
        exact .str _
    · exact isJson_of_number h
    · exact isJson_of_number h

/-- The keys of a table of texts are texts, each there once. -/
theorem isJson_map {es : List (Data × Data)} (h : ∀ e ∈ es, e.1.IsText ∧ e.2.IsJson) :
    (Data.map (Table.ofPairs es)).IsJson := by
  have hall := Table.forall_ofPairs h
  exact .map (fun e he => (hall e he).1) (Table.keys_putAll_nodup (fun e he => (h e he).1) List.nodup_nil)
    fun e he => (hall e he).2

/-- What is read in so many steps can stand in a JSON text: a value, the rest of a list and the rest of a
mapping, if what was read of them before can. -/
structure ReadsJson (steps : ℕ) : Prop where
  ofValue : ∀ {cs d rest}, value steps cs = .ok (d, rest) → d.IsJson
  ofItems : ∀ {read cs d rest}, (∀ item ∈ read, item.IsJson) → items steps read cs = .ok (d, rest) → d.IsJson
  ofEntries : ∀ {read cs d rest}, (∀ e ∈ read, e.1.IsText ∧ e.2.IsJson) →
    entries steps read cs = .ok (d, rest) → d.IsJson

namespace ReadsJson

variable {steps : ℕ} {cs rest : List Char} {d : Data}

/-- **A value** is a list or mapping of what is read in fewer steps, or a scalar. -/
theorem value_succ (ih : ReadsJson steps) (h : value (steps + 1) cs = .ok (d, rest)) : d.IsJson := by
  unfold value at h
  split at h
  · -- a list
    split at h
    · obtain ⟨rfl, -⟩ := Prod.mk.inj (Except.ok.inj h)
      exact .list fun d hd => absurd hd List.not_mem_nil
    · exact ih.ofItems (fun d hd => absurd hd List.not_mem_nil) h
  · -- a mapping
    split at h
    · obtain ⟨rfl, -⟩ := Prod.mk.inj (Except.ok.inj h)
      exact .map (fun e he => absurd he List.not_mem_nil) List.nodup_nil fun e he => absurd he List.not_mem_nil
    · exact ih.ofEntries (fun e he => absurd he List.not_mem_nil) h
  · exact isJson_of_scalar h

/-- **The rest of a list**, after one item more. -/
theorem items_succ (ih : ReadsJson steps) {read : List Data} (hread : ∀ item ∈ read, item.IsJson)
    (h : items (steps + 1) read cs = .ok (d, rest)) : d.IsJson := by
  rw [items] at h
  split at h
  · cases h
  next item more hitem =>
    have hall : ∀ d ∈ item :: read, d.IsJson := List.forall_mem_cons.mpr ⟨ih.ofValue hitem, hread⟩
    split at h
    · exact ih.ofItems hall h
    · obtain ⟨rfl, -⟩ := Prod.mk.inj (Except.ok.inj h)
      exact .list fun d hd => hall d (List.mem_reverse.mp hd)
    · cases h

/-- **The rest of a mapping**, after one entry more. -/
theorem entries_succ (ih : ReadsJson steps) {read : List (Data × Data)}
    (hread : ∀ e ∈ read, e.1.IsText ∧ e.2.IsJson) (h : entries (steps + 1) read cs = .ok (d, rest)) :
    d.IsJson := by
  unfold entries at h
  split at h
  · split at h
    · cases h
    next key more hkey =>
      split at h
      · split at h
        · cases h
        next item more hitem =>
          -- the key is a text since a string was read, and the value is by the steps before
          have hall : ∀ e ∈ (Data.str key, item) :: read, e.1.IsText ∧ e.2.IsJson :=
            List.forall_mem_cons.mpr ⟨⟨Data.isText_str key, ih.ofValue hitem⟩, hread⟩
          split at h
          · exact ih.ofEntries hall h
          · obtain ⟨rfl, -⟩ := Prod.mk.inj (Except.ok.inj h)
            exact isJson_map fun e he => hall e (List.mem_reverse.mp he)
          · cases h
      · cases h
  · cases h

end ReadsJson

/-- By induction on the steps. -/
theorem readsJson (steps : ℕ) : ReadsJson steps := by
  induction steps with
  | zero =>
    refine ⟨fun h => ?_, fun _ h => ?_, fun _ h => ?_⟩
    · cases h
    · cases h
    · cases h
  | succ steps ih => exact ⟨ih.value_succ, ih.items_succ, ih.entries_succ⟩

/-- **Every value that is read can stand in a JSON text.** -/
theorem isJson_of_read {text : String} {d : Data} (h : read text = .ok d) : d.IsJson := by
  rw [read] at h
  split at h
  · cases h
  next d' rest hvalue =>
    split at h
    · obtain rfl := Except.ok.inj h
      exact (readsJson _).ofValue hvalue
    · cases h

end Json

end HomeAutomaton
