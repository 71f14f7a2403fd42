import HomeAutomaton.Json.Printer
import HomeAutomaton.Json.Reader
import HomeAutomaton.Proofs.ShortestDecimal

/-!
# Numbers and their texts

A number is read as far as its text goes: what stands behind it in a document is no part of a number. An
integer is read back from its digits. A floating-point number has one of four texts, positional ones and one
with an exponent; each is read as a decimal of the value of the shortest one, and so as the number.

* `Json.EndsNumber` says what may stand behind a number.
* `Json.number_digitsOf` is reading back an integer, and `Json.number_magnitudeText` a floating-point number.
-/

namespace HomeAutomaton

open Text

/-! ### Runs of digits -/

/-- Digits are those of the library. -/
theorem Text.isDigit_iff {c : Char} : isDigit c = true ↔ c.isDigit = true := by
  simp [isDigit, Char.isDigit, Char.le_def]

/-- A text of digits only. -/
def Text.AllDigits (cs : List Char) : Prop := ∀ c ∈ cs, isDigit c = true

/-- The digits of a number are digits. -/
theorem Text.allDigits_digitsOf (n : ℕ) : AllDigits (digitsOf n) :=
  fun _ hc => isDigit_iff.mpr (Nat.isDigit_of_mem_toDigits (by norm_num) (by norm_num) hc)

theorem Text.AllDigits.append {cs ds : List Char} (hcs : AllDigits cs) (hds : AllDigits ds) :
    AllDigits (cs ++ ds) :=
  List.forall_mem_append.mpr ⟨hcs, hds⟩

theorem Text.allDigits_replicate_zero (n : ℕ) : AllDigits (List.replicate n '0') := by
  intro c hc
  rw [List.eq_of_mem_replicate hc]
  rfl

/-- Digits are taken one by one, each behind those before it. -/
theorem Text.foldlM_digitValue? {cs : List Char} (h : AllDigits cs) (n : ℕ) :
    cs.foldlM (fun n c => (digitValue? c).map (10 * n + ·)) n = some (Nat.ofDigitChars 10 cs n) := by
  induction cs generalizing n with
  | nil => rfl
  | cons c cs ih =>
    obtain ⟨hc, hcs⟩ := List.forall_mem_cons.mp h
    rw [List.foldlM_cons, digitValue?, if_pos hc]
    exact ih hcs _

/-- Digits are read as the number that they are the digits of. -/
theorem Text.natOfDigits?_eq {cs : List Char} (h : AllDigits cs) (hne : cs ≠ []) :
    natOfDigits? cs = some (Nat.ofDigitChars 10 cs 0) := by
  rw [natOfDigits?, if_neg (by simpa using hne), foldlM_digitValue? h]

/-- A number other than zero has no zero in front. -/
theorem Text.head?_digitsOf {n : ℕ} (hn : 0 < n) : (digitsOf n).head? ≠ some '0' := by
  induction n using Nat.strong_induction_on with
  | _ n ih =>
    rw [digitsOf]
    -- a single digit, or the digits of a tenth with one more behind them
    rcases Nat.lt_or_ge n 10 with hlt | hge
    · have hdigit : ∀ k : Fin 10, 0 < k.val → k.val.digitChar ≠ '0' := by decide
      rw [Nat.toDigits_of_lt_base hlt]
      exact fun h => hdigit ⟨n, hlt⟩ hn (Option.some.inj h)
    · rw [Nat.toDigits_of_base_le (by norm_num) hge, List.head?_append_of_ne_nil _ Nat.toDigits_ne_nil]
      exact ih (n / 10) (by omega) (by omega)

namespace Json

/-! ### Scanning -/

/-- The text does not go on with a digit. -/
def NoDigit (cs : List Char) : Prop := ∀ c ∈ cs.head?, isDigit c = false

/-- Digits are split off up to what is none. -/
theorem splitDigits_append {ds rest : List Char} (hds : AllDigits ds) (hrest : NoDigit rest) :
    splitDigits (ds ++ rest) = (ds, rest) := by
  have htake : rest.takeWhile isDigit = [] ∧ rest.dropWhile isDigit = rest := by
    cases rest with
    | nil => exact ⟨rfl, rfl⟩
    | cons c rest => simp [hrest c rfl]
  rw [splitDigits, List.takeWhile_append_of_pos hds, List.dropWhile_append_of_pos hds, htake.1, htake.2,
    List.append_nil]

/-- The text does not go on as a number does behind its first digits. -/
def EndsNumber (cs : List Char) : Prop :=
  ∀ c ∈ cs.head?, isDigit c = false ∧ c ≠ '.' ∧ c ≠ 'e' ∧ c ≠ 'E'

/-- Where a number ends there is no digit. -/
theorem EndsNumber.noDigit {cs : List Char} (h : EndsNumber cs) : NoDigit cs := fun c hc => (h c hc).1

theorem EndsNumber.fraction?_eq {cs : List Char} (h : EndsNumber cs) : fraction? cs = none := by
  unfold fraction?
  split
  next rest => exact absurd rfl (h '.' rfl).2.1
  next => rfl

theorem EndsNumber.exponent?_eq {cs : List Char} (h : EndsNumber cs) : exponent? cs = none := by
  cases cs with
  | nil => rfl
  | cons c cs =>
    exact if_neg (not_or.mpr ⟨(h c rfl).2.2.1, (h c rfl).2.2.2⟩)

/-- A fraction is its digits behind the point. -/
theorem fraction?_append {ds rest : List Char} (hds : AllDigits ds) (hne : ds ≠ []) (hrest : NoDigit rest) :
    fraction? ('.' :: (ds ++ rest)) = some (ds, rest) := by
  rw [fraction?, splitDigits_append hds hrest]
  cases ds with
  | nil => exact absurd rfl hne
  | cons d ds => rfl

/-- An exponent is read back from its sign and its digits. -/
theorem exponent?_exponentText (e : ℤ) {rest : List Char} (hrest : NoDigit rest) :
    exponent? ('e' :: (Binary64.exponentText e ++ rest)) = some (e, rest) := by
  -- the text is a sign and two digits at least, with a zero in front if need be
  have hdigits : ∃ ds, AllDigits ds ∧ ds ≠ [] ∧ Nat.ofDigitChars 10 ds 0 = e.natAbs ∧
      Binary64.exponentText e = (if e < 0 then '-' else '+') :: ds := by
    have hall := allDigits_digitsOf e.natAbs
    have hvalue : Nat.ofDigitChars 10 (digitsOf e.natAbs) 0 = e.natAbs := Nat.ofDigitChars_ten_toDigits
    refine ⟨_, ?_, ?_, ?_, rfl⟩
    · split
      · exact List.forall_mem_cons.mpr ⟨rfl, hall⟩
      · exact hall
    · split
      · exact List.cons_ne_nil _ _
      · exact Nat.toDigits_ne_nil
    · split
      · rw [Nat.ofDigitChars_cons]
        exact hvalue
      · exact hvalue
  obtain ⟨ds, hds, hne, hvalue, htext⟩ := hdigits
  -- the sign is split off, and the size has it put back
  have hsign : splitSign ((if e < 0 then '-' else '+') :: (ds ++ rest)) = (decide (e < 0), ds ++ rest) := by
    by_cases hneg : e < 0
    · rw [if_pos hneg, decide_eq_true hneg]
      rfl
    · rw [if_neg hneg, decide_eq_false hneg]
      rfl
  have hnat := natOfDigits?_eq hds hne
  rw [hvalue] at hnat
  have hsize : (if decide (e < 0) = true then -(e.natAbs : ℤ) else e.natAbs) = e := by
    simp only [decide_eq_true_eq]
    omega
  rw [htext, exponent?, if_pos (.inl rfl), List.cons_append, hsign]
  dsimp only
  rw [splitDigits_append hds hrest]
  cases ds with
  | nil => exact absurd rfl hne
  | cons d ds =>
    dsimp only
    rw [hnat, Option.getD_some, hsize]

/-! ### Numbers -/

/-- The digits in front of the point: one at least, and no zero in front of others. -/
structure IsWhole (whole : List Char) : Prop where
  digits : AllDigits whole
  nonempty : whole ≠ []
  leading : whole.head? = some '0' → whole = ['0']

/-- A zero alone is in front of a point. -/
theorem isWhole_zero : IsWhole ['0'] := ⟨by simp [AllDigits, isDigit], by decide, fun _ => rfl⟩

theorem isWhole_of_head? {whole : List Char} (hdigits : AllDigits whole) (hne : whole ≠ [])
    (hhead : whole.head? ≠ some '0') : IsWhole whole :=
  ⟨hdigits, hne, fun h => absurd h hhead⟩

theorem isWhole_digitsOf (n : ℕ) : IsWhole (digitsOf n) := by
  refine ⟨allDigits_digitsOf n, Nat.toDigits_ne_nil, fun hhead => ?_⟩
  rcases Nat.eq_zero_or_pos n with rfl | hpos
  · rfl
  · exact absurd hhead (head?_digitsOf hpos)

/-- Whole digits are split off up to what is no digit. -/
theorem IsWhole.splitWhole_append {whole rest : List Char} (h : IsWhole whole) (hrest : NoDigit rest) :
    splitWhole (whole ++ rest) = (whole, rest) := by
  obtain ⟨hdigits, hne, hleading⟩ := h
  cases whole with
  | nil => exact absurd rfl hne
  | cons c cs =>
    -- behind a zero nothing else is taken
    by_cases hc : c = '0'
    · subst hc
      rw [hleading rfl]
      rfl
    · rw [List.cons_append, splitWhole]
      · exact splitDigits_append hdigits hrest
      · rintro _ ⟨⟩
        exact hc rfl

/-- There is one of them at least. -/
theorem IsWhole.isEmpty_eq {whole : List Char} (h : IsWhole whole) : whole.isEmpty = false := by
  rw [List.isEmpty_eq_false_iff]
  exact h.nonempty

variable (negative : Bool) {whole fraction tail tail' rest : List Char}

/-- Digits alone are an integer. -/
theorem number_of_whole (hwhole : IsWhole whole) (hlength : whole.length ≤ digitLimit)
    (hrest : EndsNumber rest) : number negative (whole ++ rest) =
      .ok (.int (if negative then -(Nat.ofDigitChars 10 whole 0 : ℤ) else Nat.ofDigitChars 10 whole 0), rest) := by
  have hsplit := hwhole.splitWhole_append hrest.noDigit
  have hnat := natOfDigits?_eq hwhole.digits hwhole.nonempty
  rw [number, hsplit]
  simp only [hwhole.isEmpty_eq, hrest.fraction?_eq, hrest.exponent?_eq, hnat, Option.getD_none, Option.getD_some,
    Bool.false_eq_true, if_false]
  rw [if_neg (not_lt.mpr hlength)]

/-- Digits with a fraction, an exponent or both are a decimal. -/
theorem number_of_decimal {e : ℤ} (hwhole : IsWhole whole) (htail : NoDigit tail)
    (hfraction : (fraction? tail).getD ([], tail) = (fraction, tail')) (hdigits : AllDigits fraction)
    (hexponent : (exponent? tail').getD (0, tail') = (e, rest))
    (hsome : fraction ≠ [] ∨ exponent? tail' ≠ none) : number negative (whole ++ tail) =
      .ok (.float (.ofDecimal negative (Nat.ofDigitChars 10 (whole ++ fraction) 0) (e - fraction.length)),
        rest) := by
  have hsplit := hwhole.splitWhole_append htail
  have hne : whole ++ fraction ≠ [] := fun h => hwhole.nonempty (List.append_eq_nil_iff.mp h).1
  have hnat := natOfDigits?_eq (hwhole.digits.append hdigits) hne
  rw [number, hsplit]
  simp only [hwhole.isEmpty_eq, hfraction, Bool.false_eq_true, if_false]
  split
  next hnone => exact absurd hnone (hsome.neg_resolve_left rfl)
  next =>
    rw [hexponent, hnat]
    rfl

theorem number_of_fraction (hwhole : IsWhole whole) (hdigits : AllDigits fraction) (hne : fraction ≠ [])
    (hrest : EndsNumber rest) : number negative (whole ++ '.' :: (fraction ++ rest)) =
      .ok (.float (.ofDecimal negative (Nat.ofDigitChars 10 (whole ++ fraction) 0) (-fraction.length)),
        rest) := by
  have htail : NoDigit ('.' :: (fraction ++ rest)) := by
    intro c hc
    obtain rfl := Option.some.inj hc
    rfl
  have hfraction : (fraction? ('.' :: (fraction ++ rest))).getD ([], '.' :: (fraction ++ rest)) = (fraction, rest) := by
    rw [fraction?_append hdigits hne hrest.noDigit]
    rfl
  have hexponent : (exponent? rest).getD (0, rest) = (0, rest) := by
    rw [hrest.exponent?_eq]
    rfl
  rw [number_of_decimal negative hwhole htail hfraction hdigits hexponent (.inl hne), zero_sub]

/-- The fraction of a text with an exponent is left out if it has no digits. -/
theorem number_of_exponent {e : ℤ} (hwhole : IsWhole whole) (hdigits : AllDigits fraction)
    (hrest : EndsNumber rest) :
    number negative (whole ++ ((if fraction.isEmpty then [] else '.' :: fraction) ++
        'e' :: (Binary64.exponentText e ++ rest))) =
      .ok (.float (.ofDecimal negative (Nat.ofDigitChars 10 (whole ++ fraction) 0) (e - fraction.length)),
        rest) := by
  have hmark : NoDigit ('e' :: (Binary64.exponentText e ++ rest)) := by
    intro c hc
    obtain rfl := Option.some.inj hc
    rfl
  have hexponent := exponent?_exponentText e hrest.noDigit
  have hsome : exponent? ('e' :: (Binary64.exponentText e ++ rest)) ≠ none := by
    rw [hexponent]
    exact Option.some_ne_none _
  -- without digits there is no point either
  cases fraction with
  | nil =>
    rw [List.isEmpty_nil, if_pos rfl, List.nil_append]
    exact number_of_decimal negative hwhole hmark rfl hdigits (by rw [hexponent]; rfl) (.inr hsome)
  | cons d ds =>
    have hpoint : NoDigit ('.' :: (d :: ds ++ 'e' :: (Binary64.exponentText e ++ rest))) := by
      intro c hc
      obtain rfl := Option.some.inj hc
      rfl
    rw [List.isEmpty_cons, if_neg Bool.false_ne_true, List.cons_append]
    refine number_of_decimal negative hwhole hpoint ?_ hdigits (by rw [hexponent]; rfl) (.inr hsome)
    rw [fraction?_append hdigits (List.cons_ne_nil d ds) hmark]
    rfl

/-! ### Floating-point numbers -/

/-- The text is read up to the rest, as a decimal of the value. -/
def ReadsAs (cs rest : List Char) (v : ℚ) : Prop :=
  ∃ (digits : ℕ) (exponent : ℤ),
    number negative cs = .ok (.float (.ofDecimal negative digits exponent), rest) ∧ (digits : ℚ) * 10 ^ exponent = v

/-- A text with a fraction, whose digits together are those of the value moved by as many places. -/
theorem readsAs_of_fraction {cs : List Char} {v : ℚ} (hwhole : IsWhole whole) (hdigits : AllDigits fraction)
    (hne : fraction ≠ []) (hrest : EndsNumber rest) (hcs : cs = whole ++ '.' :: (fraction ++ rest))
    (hv : (Nat.ofDigitChars 10 (whole ++ fraction) 0 : ℚ) = v * 10 ^ fraction.length) :
    ReadsAs negative cs rest v := by
  refine ⟨_, _, hcs ▸ number_of_fraction negative hwhole hdigits hne hrest, ?_⟩
  rw [hv, mul_assoc, ← zpow_natCast, ← zpow_add₀ (by norm_num), add_neg_cancel, zpow_zero, mul_one]

/-- The digits are those of a positive number, with no zero in front. -/
structure Spells (ds : List Char) (n : ℕ) : Prop where
  digits : AllDigits ds
  ne_nil : ds ≠ []
  head : ds.head? ≠ some '0'
  value : Nat.ofDigitChars 10 ds 0 = n

/-- The digits of a positive number spell it. -/
theorem spells_digitsOf {n : ℕ} (hn : 0 < n) : Spells (digitsOf n) n where
  digits := allDigits_digitsOf n
  ne_nil := Nat.toDigits_ne_nil
  head := head?_digitsOf hn
  value := Nat.ofDigitChars_ten_toDigits

/-- A power of ten and its inverse cancel out. -/
theorem eq_mul_pow {n k : ℕ} {e : ℤ} (h : e + k = 0) : (n : ℚ) = n * 10 ^ e * 10 ^ k := by
  rw [← zpow_natCast, mul_assoc, ← zpow_add₀ (by norm_num), h, zpow_zero, mul_one]

namespace Spells

variable {ds : List Char} {n k : ℕ} {e : ℤ}

/-- The first digits can stand in front of a point. -/
theorem isWhole_take (h : Spells ds n) (hk : 0 < k) : IsWhole (ds.take k) := by
  refine isWhole_of_head? (fun c hc => h.digits c (List.mem_of_mem_take hc)) ?_ ?_
  · rw [Ne, List.take_eq_nil_iff]
    exact not_or.mpr ⟨hk.ne', h.ne_nil⟩
  · rw [List.head?_take, if_neg hk.ne']
    exact h.head

theorem allDigits_drop (h : Spells ds n) (k : ℕ) : AllDigits (ds.drop k) :=
  fun c hc => h.digits c (List.mem_of_mem_drop hc)

/-- The point stands behind the digits, and zeros between them and the point. -/
theorem readsAs_behind (h : Spells ds n) (k : ℕ) (hrest : EndsNumber rest) :
    ReadsAs negative (ds ++ List.replicate k '0' ++ ['.', '0'] ++ rest) rest (n * 10 ^ (k : ℤ)) := by
  -- the digits and the zeros are all in front of the point
  have hwhole : IsWhole (ds ++ List.replicate k '0') := by
    refine isWhole_of_head? (h.digits.append (allDigits_replicate_zero k))
      (fun hnil => h.ne_nil (List.append_eq_nil_iff.mp hnil).1) ?_
    rw [List.head?_append_of_ne_nil _ h.ne_nil]
    exact h.head
  refine readsAs_of_fraction negative hwhole (allDigits_replicate_zero 1) (List.cons_ne_nil _ _) hrest (by simp) ?_
  rw [Nat.ofDigitChars_append, Nat.ofDigitChars_append, Nat.ofDigitChars_replicate_zero,
    Nat.ofDigitChars_replicate_zero, h.value, List.length_replicate, zpow_natCast]
  push_cast
  ring

/-- The point stands between two digits. -/
theorem readsAs_between (h : Spells ds n) (hk : 0 < k) (hlt : k < ds.length)
    (he : e + ((ds.length - k : ℕ) : ℤ) = 0) (hrest : EndsNumber rest) :
    ReadsAs negative (ds.take k ++ '.' :: ds.drop k ++ rest) rest (n * 10 ^ e) := by
  have hne : ds.drop k ≠ [] := by
    rw [Ne, List.drop_eq_nil_iff]
    exact Nat.not_le.mpr hlt
  refine readsAs_of_fraction negative (h.isWhole_take hk) (h.allDigits_drop k) hne hrest (by simp) ?_
  rw [List.take_append_drop, h.value, List.length_drop]
  exact eq_mul_pow he

/-- The point stands before the digits, and zeros between it and them. -/
theorem readsAs_before (h : Spells ds n) (he : e + ((k + ds.length : ℕ) : ℤ) = 0) (hrest : EndsNumber rest) :
    ReadsAs negative ('0' :: '.' :: List.replicate k '0' ++ ds ++ rest) rest (n * 10 ^ e) := by
  -- the zeros and the digits are all behind the point
  have hdigits : AllDigits (List.replicate k '0' ++ ds) := (allDigits_replicate_zero k).append h.digits
  have hne : List.replicate k '0' ++ ds ≠ [] := fun hnil => h.ne_nil (List.append_eq_nil_iff.mp hnil).2
  have hzeros : Nat.ofDigitChars 10 (['0'] ++ (List.replicate k '0' ++ ds)) 0 = n := by
    rw [Nat.ofDigitChars_append, Nat.ofDigitChars_append, Nat.ofDigitChars_replicate_zero]
    exact h.value
  refine readsAs_of_fraction negative isWhole_zero hdigits hne hrest (by simp) ?_
  rw [hzeros, List.length_append, List.length_replicate]
  exact eq_mul_pow he

/-- The point stands behind the first digit, and an exponent says where it belongs. -/
theorem readsAs_exponent (h : Spells ds n) (e : ℤ) (hrest : EndsNumber rest) :
    ReadsAs negative (ds.take 1 ++ (if (ds.drop 1).isEmpty then [] else '.' :: ds.drop 1) ++
      'e' :: Binary64.exponentText ((ds.length : ℤ) - 1 + e) ++ rest) rest (n * 10 ^ e) := by
  have hlength : 0 < ds.length := List.length_pos_iff.mpr h.ne_nil
  have htext := number_of_exponent negative (e := (ds.length : ℤ) - 1 + e)
    (h.isWhole_take Nat.one_pos) (h.allDigits_drop 1) hrest
  -- the exponent counts from the point, the decimal from its last digit
  have hexponent : (ds.length : ℤ) - 1 + e - ((ds.length - 1 : ℕ) : ℤ) = e := by omega
  rw [List.take_append_drop, h.value, List.length_drop, hexponent] at htext
  refine ⟨n, e, ?_, rfl⟩
  rw [← htext]
  simp only [List.append_assoc, List.cons_append]

end Spells

/-- The text of a decimal is read as a decimal of the same value. -/
theorem readsAs_layout {d : Decimal} (hd : 0 < d.digits) (hrest : EndsNumber rest) :
    ReadsAs negative (Binary64.layout d ++ rest) rest d.value := by
  have hspells := spells_digitsOf hd
  have hlength : 0 < (digitsOf d.digits).length := List.length_pos_iff.mpr hspells.ne_nil
  rw [Binary64.layout, Decimal.value]
  dsimp only
  -- near enough to the point the text is positional, by where the point falls; else it has an exponent
  split
  · split
    · next hnonneg =>
      have hread := hspells.readsAs_behind negative d.exponent.toNat hrest
      rwa [Int.toNat_of_nonneg hnonneg] at hread
    · split
      · exact hspells.readsAs_between negative (Nat.succ_pos _) (by omega) (by omega) hrest
      · exact hspells.readsAs_before negative (by omega) hrest
  · exact hspells.readsAs_exponent negative d.exponent hrest

/-- An integer that is not too long has no more digits than are read. -/
theorem isTooLong_eq_false_iff {n : ℤ} : isTooLong n = false ↔ (digitsOf n.natAbs).length ≤ digitLimit := by
  have hpos : 0 < digitLimit := by decide
  rw [isTooLong, decide_eq_false_iff_not, Nat.not_le]
  generalize digitLimit = limit at hpos
  exact (Nat.length_toDigits_le_iff (by norm_num) hpos).symm

/-- The digits of a number are read back, unless there are too many. -/
theorem number_digitsOf {n : ℕ} (hlength : (digitsOf n).length ≤ digitLimit) (hrest : EndsNumber rest) :
    number negative (digitsOf n ++ rest) = .ok (.int (if negative then -(n : ℤ) else n), rest) := by
  rw [number_of_whole negative (isWhole_digitsOf n) hlength hrest, digitsOf, Nat.ofDigitChars_ten_toDigits]

/-- The text of a finite number behind its sign. -/
def magnitudeText (x : Binary64) : List Char :=
  if x.isZero then ['0', '.', '0'] else Binary64.layout (Decimal.shortest x.magnitude)

/-- A finite number is written as its sign and its magnitude. -/
theorem text_eq {x : Binary64} (hfinite : x.exponentField ≠ 2047) :
    x.text = String.ofList ((if x.isNegative then ['-'] else []) ++ magnitudeText x) := by
  have hfield : (x.exponentField == 2047) = false := beq_eq_false_iff_ne.mpr hfinite
  rw [Binary64.text, Binary64.isNaN, Binary64.isInfinite, hfield, Bool.false_and, Bool.false_and, magnitudeText]
  cases x.isZero <;> rfl

/-- **A finite number is read back from its text.** -/
theorem number_magnitudeText {x : Binary64} (hfinite : x.exponentField ≠ 2047) (hrest : EndsNumber rest) :
    number x.isNegative (magnitudeText x ++ rest) = .ok (.float x, rest) := by
  rw [magnitudeText]
  -- zero has a text of its own; else the shortest decimal is one that the number catches
  cases hzero : x.isZero with
  | true =>
    have hread : ReadsAs x.isNegative (['0', '.', '0'] ++ rest) rest 0 :=
      readsAs_of_fraction _ isWhole_zero (allDigits_replicate_zero 1) (List.cons_ne_nil _ _) hrest rfl
        (by simp [Nat.ofDigitChars])
    obtain ⟨digits, exponent, hnumber, hvalue⟩ := hread
    have hdigits : digits = 0 := by
      have hcast := (mul_eq_zero.mp hvalue).resolve_right (by positivity)
      exact_mod_cast hcast
    rw [if_pos rfl, hnumber, hdigits, Binary64.ofDecimal_zero hzero]
  | false =>
    have hproper : x.magnitude.Proper := Binary64.proper_magnitude hfinite hzero
    obtain ⟨digits, exponent, hnumber, hvalue⟩ :=
      readsAs_layout x.isNegative (Decimal.digits_shortest_pos hproper) hrest
    rw [if_neg Bool.false_ne_true, hnumber, Binary64.ofDecimal_eq hfinite hzero]
    rw [hvalue]
    exact Decimal.catches_shortest hproper

/-- What a number is read from starts with a digit. -/
theorem head_isDigit_of_number {negative : Bool} {cs : List Char} {read : Data × List Char}
    (h : number negative cs = .ok read) :
    ∃ c ds, cs = c :: ds ∧ isDigit c = true := by
  cases cs with
  | nil => cases h
  | cons c cs =>
    refine ⟨c, cs, rfl, ?_⟩
    by_contra hc
    -- no digits are split off, and that is no number
    have hsplit : splitWhole (c :: cs) = ([], c :: cs) := by
      rw [splitWhole, splitDigits, List.takeWhile_cons_of_neg hc, List.dropWhile_cons_of_neg hc]
      rintro _ ⟨⟩
      exact hc rfl
    rw [number, hsplit] at h
    cases h

end Json

end HomeAutomaton
