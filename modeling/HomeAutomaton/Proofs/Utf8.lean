import HomeAutomaton.Text.Utf8
import Mathlib.Data.Nat.Notation
import Mathlib.Tactic.SplitIfs

/-!
# UTF-8 is read back

Bytes are read as a text exactly if they are the bytes of that text (`Text.ofUtf8?_eq_some_iff`). So there
are two ways for bytes to be no text: a byte stands where it cannot, or a character is written with more
bytes than it needs.

* `Text.Spells` says which bytes a character has, in numbers. Writing and reading are both compared with it:
  `Text.spells_iff` says that these are the bytes that are written, and `Text.charsOfUtf8?_append` and
  `Text.exists_spells_of_charsOfUtf8?` that these are the bytes that are read.
-/

namespace HomeAutomaton.Text

variable {b : UInt8} {c : Char} {cs : List Char} {bytes : List UInt8} {least code n : ℕ}

/-! ### The bytes of a character -/

/-- The bytes of a character: one, or a first byte that tells how many there are, with six bits in each of
the others. No character has more bytes than it needs. -/
inductive Spells (c : Char) : List UInt8 → Prop where
  | one {a : UInt8} (ha : a.toNat = c.toNat) (hc : c.toNat < 0x80) : Spells c [a]
  | two {a b : UInt8} {m n : ℕ} (ha : a.toNat = m + 0xC0) (hb : b.toNat = n + 0x80) (hm : m < 0x20)
      (hn : n < 0x40) (hleast : 0x80 ≤ c.toNat) (hc : c.toNat = m * 64 + n) : Spells c [a, b]
  | three {a b b' : UInt8} {m n n' : ℕ} (ha : a.toNat = m + 0xE0) (hb : b.toNat = n + 0x80)
      (hb' : b'.toNat = n' + 0x80) (hm : m < 0x10) (hn : n < 0x40) (hn' : n' < 0x40)
      (hleast : 0x800 ≤ c.toNat) (hc : c.toNat = (m * 64 + n) * 64 + n') : Spells c [a, b, b']
  | four {a b b' b'' : UInt8} {m n n' n'' : ℕ} (ha : a.toNat = m + 0xF0) (hb : b.toNat = n + 0x80)
      (hb' : b'.toNat = n' + 0x80) (hb'' : b''.toNat = n'' + 0x80) (hm : m < 0x08) (hn : n < 0x40)
      (hn' : n' < 0x40) (hn'' : n'' < 0x40) (hleast : 0x10000 ≤ c.toNat)
      (hc : c.toNat = ((m * 64 + n) * 64 + n') * 64 + n'') : Spells c [a, b, b', b'']

/-- A byte is told by its number. -/
theorem eq_ofNat_of_toNat_eq (h : b.toNat = n) : b = UInt8.ofNat n := by
  rw [← h, UInt8.ofNat_toNat]

/-- No character has a code beyond the last plane. -/
theorem toNat_lt_of_char (c : Char) : c.toNat < 0x110000 := by
  rcases c.valid with h | h
  · exact Nat.lt_trans h (by decide)
  · exact h.2

/-- The bytes of a character are those that it is written with. -/
theorem spells_iff : Spells c bytes ↔ bytes = String.utf8EncodeChar c := by
  have hlast := toNat_lt_of_char c
  have hcode : c.val.toNat = c.toNat := rfl
  rw [String.utf8EncodeChar, hcode]
  constructor
  · intro h
    -- each form has a range of codes of its own, and the writer asks for the ranges in order
    cases h with
    | one ha hc =>
      rw [if_pos (by omega), eq_ofNat_of_toNat_eq ha]
    | two ha hb hm hn hleast hc =>
      rw [if_neg (by omega), if_pos (by omega), eq_ofNat_of_toNat_eq ha, eq_ofNat_of_toNat_eq hb]
      congr <;> omega
    | three ha hb hb' hm hn hn' hleast hc =>
      rw [if_neg (by omega), if_neg (by omega), if_pos (by omega), eq_ofNat_of_toNat_eq ha,
        eq_ofNat_of_toNat_eq hb, eq_ofNat_of_toNat_eq hb']
      congr <;> omega
    | four ha hb hb' hb'' hm hn hn' hn'' hleast hc =>
      rw [if_neg (by omega), if_neg (by omega), if_neg (by omega), eq_ofNat_of_toNat_eq ha,
        eq_ofNat_of_toNat_eq hb, eq_ofNat_of_toNat_eq hb', eq_ofNat_of_toNat_eq hb'']
      congr <;> omega
  · intro h
    -- the numbers that are written are those of bytes
    have hbyte : ∀ n, n < 0x100 → (UInt8.ofNat n).toNat = n := fun n hn => UInt8.toNat_ofNat_of_lt' hn
    split_ifs at h with hone htwo hthree <;> subst h
    · exact .one (hbyte _ (by omega)) (by omega)
    · exact .two (hbyte _ (by omega)) (hbyte _ (by omega)) (by omega) (by omega) (by omega) (by omega)
    · exact .three (hbyte _ (by omega)) (hbyte _ (by omega)) (hbyte _ (by omega)) (by omega) (by omega)
        (by omega) (by omega) (by omega)
    · exact .four (hbyte _ (by omega)) (hbyte _ (by omega)) (hbyte _ (by omega)) (hbyte _ (by omega))
        (by omega) (by omega) (by omega) (by omega) (by omega) (by omega)

/-! ### Reading -/

/-- A continuation byte carries six bits. -/
theorem continuation?_eq_some_iff : continuation? b = some n ↔ b.toNat = n + 0x80 ∧ n < 0x40 := by
  rw [continuation?]
  split_ifs with h
  · rw [Option.some.injEq]
    omega
  · simp only [false_iff]
    omega

/-- A code is that of a character if it needs as many bytes as there are. -/
theorem charFrom?_eq_some_iff : charFrom? least code = some c ↔ least ≤ code ∧ c.toNat = code := by
  rw [charFrom?]
  constructor
  · intro h
    by_cases hvalid : code.isValidChar
    · rw [dif_pos hvalid] at h
      obtain ⟨hleast, h⟩ := Option.ite_none_right_eq_some.mp h
      obtain rfl := Option.some.inj h
      exact ⟨hleast, rfl⟩
    · rw [dif_neg hvalid] at h
      cases h
  · rintro ⟨hleast, rfl⟩
    have hvalid : c.toNat.isValidChar := c.valid
    rw [dif_pos hvalid, if_pos hleast]
    exact congrArg some (Char.toNat_inj.mp rfl)

/-- The bytes of a character are read as the character, whatever follows. -/
theorem charsOfUtf8?_append {start : List UInt8} (h : Spells c start) (rest : List UInt8) :
    charsOfUtf8? (start ++ rest) = (charsOfUtf8? rest).map (c :: ·) := by
  -- the range of the first byte tells the form, and the code is put together from the others
  cases h with
  | one ha hc =>
    rw [List.cons_append, List.nil_append, charsOfUtf8?.eq_def]
    dsimp only
    rw [if_pos (by omega), ha, Char.ofNat_toNat]
    cases charsOfUtf8? rest <;> rfl
  | @two a b m n ha hb hm hn hleast hc =>
    have hcode : charFrom? 0x80 ((a.toNat - 0xC0) * 64 + n) = some c :=
      charFrom?_eq_some_iff.mpr ⟨by omega, by omega⟩
    rw [List.cons_append, List.cons_append, List.nil_append, charsOfUtf8?.eq_def]
    dsimp only
    rw [if_neg (by omega), if_pos (by omega), continuation?_eq_some_iff.mpr ⟨hb, hn⟩]
    show (charFrom? 0x80 ((a.toNat - 0xC0) * 64 + n) >>= fun c => _) = _
    rw [hcode]
    cases charsOfUtf8? rest <;> rfl
  | @three a b b' m n n' ha hb hb' hm hn hn' hleast hc =>
    have hcode : charFrom? 0x800 (((a.toNat - 0xE0) * 64 + n) * 64 + n') = some c :=
      charFrom?_eq_some_iff.mpr ⟨by omega, by omega⟩
    rw [List.cons_append, List.cons_append, List.cons_append, List.nil_append, charsOfUtf8?.eq_def]
    dsimp only
    rw [if_neg (by omega), if_neg (by omega), if_pos (by omega), continuation?_eq_some_iff.mpr ⟨hb, hn⟩,
      continuation?_eq_some_iff.mpr ⟨hb', hn'⟩]
    show (charFrom? 0x800 (((a.toNat - 0xE0) * 64 + n) * 64 + n') >>= fun c => _) = _
    rw [hcode]
    cases charsOfUtf8? rest <;> rfl
  | @four a b b' b'' m n n' n'' ha hb hb' hb'' hm hn hn' hn'' hleast hc =>
    have hcode : charFrom? 0x10000 ((((a.toNat - 0xF0) * 64 + n) * 64 + n') * 64 + n'') = some c :=
      charFrom?_eq_some_iff.mpr ⟨by omega, by omega⟩
    rw [List.cons_append, List.cons_append, List.cons_append, List.cons_append, List.nil_append,
      charsOfUtf8?.eq_def]
    dsimp only
    rw [if_neg (by omega), if_neg (by omega), if_neg (by omega), if_pos (by omega),
      continuation?_eq_some_iff.mpr ⟨hb, hn⟩, continuation?_eq_some_iff.mpr ⟨hb', hn'⟩,
      continuation?_eq_some_iff.mpr ⟨hb'', hn''⟩]
    show (charFrom? 0x10000 ((((a.toNat - 0xF0) * 64 + n) * 64 + n') * 64 + n'') >>= fun c => _) = _
    rw [hcode]
    cases charsOfUtf8? rest <;> rfl

/-- What is read first are the bytes of a character. -/
theorem exists_spells_of_charsOfUtf8? (h : charsOfUtf8? bytes = some cs) (hne : bytes ≠ []) :
    ∃ c start rest more, bytes = start ++ rest ∧ cs = c :: more ∧ Spells c start ∧
      charsOfUtf8? rest = some more := by
  cases bytes with
  | nil => exact absurd rfl hne
  | cons a bytes =>
    rw [charsOfUtf8?.eq_def] at h
    dsimp only at h
    -- a result needs a first byte in one of the ranges and all bytes that it announces
    split_ifs at h with hone htwo hthree hfour
    -- one byte, which is the code of the character
    · obtain ⟨more, hmore, h⟩ := Option.bind_eq_some_iff.mp h
      obtain rfl := Option.some.inj h
      have hvalid : a.toNat.isValidChar := .inl (by omega)
      have hcode : (Char.ofNat a.toNat).toNat = a.toNat := by
        rw [Char.ofNat, dif_pos hvalid]
        rfl
      exact ⟨_, [a], bytes, more, rfl, rfl, .one hcode.symm (by omega), hmore⟩
    · split at h
      -- two bytes; the second one adds six bits
      next b rest =>
        obtain ⟨n, hb, h⟩ := Option.bind_eq_some_iff.mp h
        obtain ⟨c, hc, h⟩ := Option.bind_eq_some_iff.mp h
        obtain ⟨more, hmore, h⟩ := Option.bind_eq_some_iff.mp h
        obtain rfl := Option.some.inj h
        obtain ⟨hb, hn⟩ := continuation?_eq_some_iff.mp hb
        obtain ⟨hleast, hc⟩ := charFrom?_eq_some_iff.mp hc
        have ha : a.toNat = a.toNat - 0xC0 + 0xC0 := by omega
        refine ⟨c, [a, b], rest, more, rfl, rfl, ?_, hmore⟩
        exact .two ha hb (by omega) hn (by omega) hc
      next => cases h
    · split at h
      -- three bytes
      next b b' rest =>
        obtain ⟨n, hb, h⟩ := Option.bind_eq_some_iff.mp h
        obtain ⟨n', hb', h⟩ := Option.bind_eq_some_iff.mp h
        obtain ⟨c, hc, h⟩ := Option.bind_eq_some_iff.mp h
        obtain ⟨more, hmore, h⟩ := Option.bind_eq_some_iff.mp h
        obtain rfl := Option.some.inj h
        obtain ⟨hb, hn⟩ := continuation?_eq_some_iff.mp hb
        obtain ⟨hb', hn'⟩ := continuation?_eq_some_iff.mp hb'
        obtain ⟨hleast, hc⟩ := charFrom?_eq_some_iff.mp hc
        have ha : a.toNat = a.toNat - 0xE0 + 0xE0 := by omega
        refine ⟨c, [a, b, b'], rest, more, rfl, rfl, ?_, hmore⟩
        exact .three ha hb hb' (by omega) hn hn' (by omega) hc
      next => cases h
    · split at h
      -- four bytes
      next b b' b'' rest =>
        obtain ⟨n, hb, h⟩ := Option.bind_eq_some_iff.mp h
        obtain ⟨n', hb', h⟩ := Option.bind_eq_some_iff.mp h
        obtain ⟨n'', hb'', h⟩ := Option.bind_eq_some_iff.mp h
        obtain ⟨c, hc, h⟩ := Option.bind_eq_some_iff.mp h
        obtain ⟨more, hmore, h⟩ := Option.bind_eq_some_iff.mp h
        obtain rfl := Option.some.inj h
        obtain ⟨hb, hn⟩ := continuation?_eq_some_iff.mp hb
        obtain ⟨hb', hn'⟩ := continuation?_eq_some_iff.mp hb'
        obtain ⟨hb'', hn''⟩ := continuation?_eq_some_iff.mp hb''
        obtain ⟨hleast, hc⟩ := charFrom?_eq_some_iff.mp hc
        have ha : a.toNat = a.toNat - 0xF0 + 0xF0 := by omega
        refine ⟨c, [a, b, b', b''], rest, more, rfl, rfl, ?_, hmore⟩
        exact .four ha hb hb' hb'' (by omega) hn hn' hn'' (by omega) hc
      next => cases h

/-- Bytes are read as the characters that they are the bytes of. -/
theorem charsOfUtf8?_eq_some_iff : charsOfUtf8? bytes = some cs ↔ bytes = cs.flatMap String.utf8EncodeChar := by
  constructor
  · intro h
    -- along the characters that are read
    induction cs generalizing bytes with
    | nil =>
      by_cases hne : bytes = []
      · exact hne
      · obtain ⟨c, start, rest, more, -, hcs, -⟩ := exists_spells_of_charsOfUtf8? h hne
        cases hcs
    | cons c cs ih =>
      have hne : bytes ≠ [] := by
        rintro rfl
        cases h
      obtain ⟨c, start, rest, more, rfl, hcs, hspells, hrest⟩ := exists_spells_of_charsOfUtf8? h hne
      obtain ⟨rfl, rfl⟩ := List.cons.inj hcs
      rw [List.flatMap_cons, spells_iff.mp hspells, ih hrest]
  -- and along those that are written
  · rintro rfl
    induction cs with
    | nil => rfl
    | cons c cs ih =>
      rw [List.flatMap_cons, charsOfUtf8?_append (spells_iff.mpr rfl), ih]
      rfl

/-- **UTF-8 is read back.** Bytes are read as the text that they are the bytes of, and not otherwise. -/
theorem ofUtf8?_eq_some_iff {s : String} : ofUtf8? bytes = some s ↔ bytes = utf8 s := by
  rw [ofUtf8?, Option.map_eq_some_iff, utf8]
  constructor
  · rintro ⟨cs, hcs, rfl⟩
    rw [String.toList_ofList]
    exact charsOfUtf8?_eq_some_iff.mp hcs
  · intro h
    exact ⟨s.toList, charsOfUtf8?_eq_some_iff.mpr h, String.ofList_toList⟩

/-- Bytes are those of no text if they are not read as one. -/
theorem ofUtf8?_eq_none_iff : ofUtf8? bytes = none ↔ ∀ s, bytes ≠ utf8 s := by
  rw [Option.eq_none_iff_forall_ne_some]
  exact forall_congr' fun s => not_congr ofUtf8?_eq_some_iff

/-- Every character has a byte of its own. -/
theorem length_le_length_utf8 (s : String) : s.length ≤ (utf8 s).length := by
  rw [← String.length_toList, utf8]
  induction s.toList with
  | nil => exact Nat.le_refl _
  | cons c cs ih =>
    have hpos := List.length_pos_iff.mpr (String.utf8EncodeChar_ne_nil (c := c))
    rw [List.flatMap_cons, List.length_append, List.length_cons]
    omega

end HomeAutomaton.Text
