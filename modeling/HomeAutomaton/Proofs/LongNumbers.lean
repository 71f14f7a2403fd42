import HomeAutomaton.Proofs.JsonReading
import HomeAutomaton.Returns

/-!
# Numbers that are too long

A JSON text that is refused for the length of a number is not wrong in any other way up to there, and the
number stands in it: so many digits in a row as no integer may have (`Json.hasLongNumber_of_read`).

The readers are looked at one by one. What each of them leaves is the end of what it was given
(`Json.Consumes`), so a number that a reader meets later on stands in the whole text. `Json.consuming` puts
together values, lists and mappings, by induction on the steps.
-/

namespace HomeAutomaton.Json

open Text

variable {α : Type} {cs ds rest : List Char} {c : Char} {steps : ℕ}

/-- The text holds more digits in a row than an integer may have. -/
def HasLongNumber (cs : List Char) : Prop :=
  ∃ digits, digits <:+: cs ∧ AllDigits digits ∧ digitLimit < digits.length

/-- A reader of what a text starts with: it leaves the end of the text, and refuses a number for its length
only if the text holds such a number. -/
def Consumes (cs : List Char) (step : Step α) : Prop :=
  Ends (fun e => e = .tooManyDigits → HasLongNumber cs) step fun read => read.2 <:+ cs

/-- What stands in the end of a text stands in the text. -/
theorem HasLongNumber.mono (h : HasLongNumber cs) (hsuffix : cs <:+ ds) : HasLongNumber ds := by
  obtain ⟨digits, hinfix, hdigits, hlength⟩ := h
  exact ⟨digits, hinfix.trans hsuffix.isInfix, hdigits, hlength⟩

/-- What is true of the end of a text is true of the text. -/
theorem Consumes.mono {step : Step α} (h : Consumes cs step) (hsuffix : cs <:+ ds) : Consumes ds step := by
  cases step with
  | ok read => exact List.IsSuffix.trans h hsuffix
  | error e => exact fun he => (h he).mono hsuffix

/-- A text may be refused for any other reason. -/
theorem Consumes.malformed (cs : List Char) : Consumes cs (.error .malformed : Step α) := by
  intro h
  cases h

/-- Blanks before a value do not matter. -/
theorem Consumes.ofSkipBlanks {step : Step α} (h : Consumes (skipBlanks cs) step) : Consumes cs step :=
  h.mono (List.dropWhile_suffix _)

/-- What is left after reading is the end of the text. -/
theorem Consumes.suffix {step : Step α} (h : Consumes cs step) {a : α} (hread : step = .ok (a, rest)) :
    rest <:+ cs := by
  subst hread
  exact h

/-- A reader that fails where its first step does. -/
theorem Consumes.failed {β : Type} {step : Step α} (h : Consumes cs step) {e : ReadError}
    (hfailed : step = .error e) : Consumes cs (.error e : Step β) := by
  subst hfailed
  exact h

/-- So is what is left behind the first character after blanks. -/
theorem suffix_of_skipBlanks (h : skipBlanks cs = c :: rest) : rest <:+ cs :=
  (List.suffix_cons c rest).trans (h ▸ List.dropWhile_suffix _)

/-! ### Strings and numbers -/

/-- A string leaves what stands behind its closing quote. -/
theorem stringFrom_consumes (high : Option ℕ) (read cs : List Char) : Consumes cs (stringFrom high read cs) := by
  have hunit : ∀ (a b c d : Char) (rest : List Char), rest <:+ '\\' :: 'u' :: a :: b :: c :: d :: rest :=
    fun a b c d rest => List.suffix_append ['\\', 'u', a, b, c, d] rest
  fun_induction stringFrom high read cs with
  | case1 => exact .malformed _
  | case2 => exact List.suffix_cons _ _
  | case3 => exact .malformed _
  -- an escape by four digits, behind half a pair or not
  | case4 _ _ _ _ _ _ _ _ _ ih => exact ih.mono (hunit ..)
  | case5 _ _ _ _ _ _ _ _ _ ih => exact ih.mono (hunit ..)
  | case6 _ _ _ _ _ _ _ _ _ _ _ ih => exact ih.mono (hunit ..)
  | case7 _ _ _ _ _ _ _ _ _ _ _ ih => exact ih.mono (hunit ..)
  | case8 _ _ _ _ _ _ _ _ _ _ _ ih => exact ih.mono (hunit ..)
  | case9 => exact .malformed _
  | case10 _ _ c rest _ _ _ ih => exact ih.mono (List.suffix_append ['\\', c] rest)
  | case11 => exact .malformed _
  | case12 _ _ c rest _ _ _ _ ih => exact ih.mono (List.suffix_cons c rest)

/-- Digits and what follows them make up the text. -/
theorem splitWhole_eq (cs : List Char) : (splitWhole cs).1 ++ (splitWhole cs).2 = cs := by
  unfold splitWhole
  split
  · rfl
  · exact List.takeWhile_append_dropWhile

/-- Behind a fraction the end of the text is left. -/
theorem suffix_of_fraction? {read : List Char × List Char} (h : fraction? cs = some read) : read.2 <:+ cs := by
  unfold fraction? at h
  split at h
  next rest =>
    split at h
    · cases h
    next digits after hsplit =>
      obtain rfl := Option.some.inj h
      obtain ⟨-, rfl⟩ := Prod.mk.inj hsplit
      exact (List.dropWhile_suffix _).trans (List.suffix_cons _ _)
  next => cases h

theorem suffix_of_exponent? {read : ℤ × List Char} (h : exponent? cs = some read) : read.2 <:+ cs := by
  cases cs with
  | nil => cases h
  | cons mark rest =>
    unfold exponent? at h
    dsimp only at h
    by_cases hmark : mark = 'e' ∨ mark = 'E'
    case neg =>
      rw [if_neg hmark] at h
      cases h
    rw [if_pos hmark] at h
    -- behind the mark there may be a sign, and then digits
    have hsign : (splitSign rest).2 <:+ rest := by
      unfold splitSign
      split
      · exact List.suffix_cons _ _
      · exact List.suffix_cons _ _
      · exact List.suffix_refl _
    split at h
    · cases h
    next digits after hsplit =>
      obtain rfl := Option.some.inj h
      obtain ⟨-, rfl⟩ := Prod.mk.inj hsplit
      exact ((List.dropWhile_suffix _).trans hsign).trans (List.suffix_cons _ _)

/-- **A number** that is refused for its length is the long number that the text holds. -/
theorem number_consumes (negative : Bool) (cs : List Char) : Consumes cs (number negative cs) := by
  have hwhole := splitWhole_eq cs
  have hfraction : ((fraction? (splitWhole cs).2).getD ([], (splitWhole cs).2)).2 <:+ cs := by
    refine List.IsSuffix.trans ?_ ⟨_, hwhole⟩
    cases h : fraction? (splitWhole cs).2 with
    | none => exact List.suffix_refl _
    | some read => exact suffix_of_fraction? h
  unfold number
  dsimp only
  by_cases hempty : (splitWhole cs).1.isEmpty = true
  · rw [if_pos hempty]
    exact .malformed cs
  rw [if_neg hempty]
  generalize (fraction? (splitWhole cs).2).getD ([], (splitWhole cs).2) = tail at hfraction ⊢
  split
  -- an integer
  · by_cases hlong : digitLimit < (splitWhole cs).1.length
    · rw [if_pos hlong]
      intro _
      exact ⟨_, (List.prefix_append _ _).isInfix.trans (by rw [hwhole]), allDigits_splitWhole cs, hlong⟩
    · rw [if_neg hlong]
      exact hfraction
  -- a floating-point number
  · refine List.IsSuffix.trans ?_ hfraction
    cases h : exponent? tail.2 with
    | none => exact List.suffix_refl _
    | some read => exact suffix_of_exponent? h

/-- Behind a word the end of the text is left. -/
theorem suffix_of_word? {w : String} (h : word? w cs = some rest) : rest <:+ cs := by
  unfold word? at h
  split_ifs at h
  obtain rfl := Option.some.inj h
  exact List.drop_suffix _ _

/-- A scalar is a word, a string or a number. -/
theorem scalar_consumes (cs : List Char) : Consumes cs (scalar cs) := by
  unfold scalar
  split
  next read hread =>
    obtain ⟨w, -, hw⟩ := List.exists_of_findSome?_eq_some hread
    obtain ⟨rest, hrest, rfl⟩ := Option.map_eq_some_iff.mp hw
    exact suffix_of_word? hrest
  next =>
    split
    next rest _ =>
      have hstring := (stringFrom_consumes none [] rest).mono (List.suffix_cons '"' rest)
      cases hread : stringFrom none [] rest with
      | ok read => exact hstring.suffix hread
      | error e => exact hstring.failed hread
    -- a number with a sign, and one without
    next rest _ => exact (number_consumes true rest).mono (List.suffix_cons '-' rest)
    next => exact number_consumes false cs

/-! ### Lists and mappings -/

/-- What is read with a number of steps. -/
structure Consuming (steps : ℕ) : Prop where
  value : ∀ cs, Consumes cs (Json.value steps cs)
  items : ∀ read cs, Consumes cs (Json.items steps read cs)
  entries : ∀ read cs, Consumes cs (Json.entries steps read cs)

/-- **A value**, given what holds of its parts with a step less. -/
theorem value_consumes (ih : Consuming steps) (cs : List Char) : Consumes cs (value (steps + 1) cs) := by
  unfold value
  split
  next rest =>
    split
    next after hclose => exact (suffix_of_skipBlanks hclose).trans (List.suffix_cons _ _)
    next => exact (ih.items _ _).ofSkipBlanks.mono (List.suffix_cons _ _)
  next rest =>
    split
    next after hclose => exact (suffix_of_skipBlanks hclose).trans (List.suffix_cons _ _)
    next => exact (ih.entries _ _).ofSkipBlanks.mono (List.suffix_cons _ _)
  next => exact scalar_consumes cs

theorem items_consumes (ih : Consuming steps) (read : List Data) (cs : List Char) :
    Consumes cs (items (steps + 1) read cs) := by
  have hitem := ih.value cs
  unfold items
  split
  next e hfailed => exact hitem.failed hfailed
  next item rest hread =>
    have hrest := hitem.suffix hread
    split
    -- a comma and more items, or the end of the list
    next after hcomma => exact (ih.items _ _).ofSkipBlanks.mono ((suffix_of_skipBlanks hcomma).trans hrest)
    next after hclose => exact (suffix_of_skipBlanks hclose).trans hrest
    next => exact .malformed cs

/-- The rest of a mapping: a key, a colon, a value, and what comes behind them. -/
theorem entries_consumes (ih : Consuming steps) (read : List (Data × Data)) (cs : List Char) :
    Consumes cs (entries (steps + 1) read cs) := by
  unfold entries
  split
  next rest =>
    -- the key
    have hkey := (stringFrom_consumes none [] rest).mono (List.suffix_cons '"' rest)
    split
    next e hfailed => exact hkey.failed hfailed
    next key atColon hread =>
      have hatColon := hkey.suffix hread
      split
      next after hcolon =>
        -- the value, behind the colon and its blanks
        have hitem := (ih.value (skipBlanks after)).ofSkipBlanks.mono
          ((suffix_of_skipBlanks hcolon).trans hatColon)
        split
        next e hfailed => exact hitem.failed hfailed
        next item atEnd hread =>
          have hatEnd := hitem.suffix hread
          split
          -- a comma and more entries, or the end of the mapping
          next more hcomma =>
            exact (ih.entries _ _).ofSkipBlanks.mono ((suffix_of_skipBlanks hcomma).trans hatEnd)
          next after hclose => exact (suffix_of_skipBlanks hclose).trans hatEnd
          next => exact .malformed _
      next => exact .malformed _
  next => exact .malformed cs

/-- By induction on the steps. -/
theorem consuming (steps : ℕ) : Consuming steps := by
  induction steps with
  | zero =>
    refine ⟨fun cs => ?_, fun read cs => ?_, fun read cs => ?_⟩
    · rw [value]
      exact .malformed cs
    · rw [items]
      exact .malformed cs
    · rw [entries]
      exact .malformed cs
  | succ steps ih => exact ⟨value_consumes ih, items_consumes ih, entries_consumes ih⟩

/-- A text is refused for the length of a number only if it holds so many digits in a row. -/
theorem hasLongNumber_of_read {text : String} (h : read text = .error .tooManyDigits) :
    HasLongNumber text.toList := by
  have hvalue := ((consuming (2 * text.toList.length + 2)).value (skipBlanks text.toList)).ofSkipBlanks
  unfold read at h
  dsimp only at h
  split at h
  next e hfailed =>
    obtain rfl := Except.error.inj h
    have hlong : Consumes text.toList (.error .tooManyDigits : Step Data) := hvalue.failed hfailed
    exact hlong rfl
  next d rest hread => split at h <;> cases h

end HomeAutomaton.Json
