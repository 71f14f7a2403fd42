/-!
# UTF-8

Texts as bytes. Reading is strict: a character has exactly one form, its shortest, the halves of
surrogate pairs have none, and nothing lies beyond the last code point.

* `Text.utf8` writes a text, `Text.ofUtf8?` reads one.
-/

namespace HomeAutomaton.Text

/-- The bytes of a text. -/
def utf8 (s : String) : List UInt8 := s.toList.flatMap String.utf8EncodeChar

/-- The six bits of a continuation byte. -/
def continuation? (b : UInt8) : Option Nat :=
  if 0x80 ≤ b.toNat ∧ b.toNat < 0xC0 then some (b.toNat - 0x80) else none

/-- The character of a code point that is written with a certain number of bytes, of which `least` is
the smallest. -/
def charFrom? (least code : Nat) : Option Char :=
  if h : code.isValidChar then
    if least ≤ code then some (Char.ofNatAux code h) else none
  else none

/-- The characters that bytes stand for. -/
def charsOfUtf8? : List UInt8 → Option (List Char)
  | [] => some []
  | a :: rest =>
    if a.toNat < 0x80 then do
      let cs ← charsOfUtf8? rest
      pure (Char.ofNat a.toNat :: cs)
    else if 0xC0 ≤ a.toNat ∧ a.toNat < 0xE0 then
      match rest with
      | b :: rest => do
        let c ← charFrom? 0x80 ((a.toNat - 0xC0) * 64 + (← continuation? b))
        let cs ← charsOfUtf8? rest
        pure (c :: cs)
      | _ => none
    else if 0xE0 ≤ a.toNat ∧ a.toNat < 0xF0 then
      match rest with
      | b :: b' :: rest => do
        let c ← charFrom? 0x800
          (((a.toNat - 0xE0) * 64 + (← continuation? b)) * 64 + (← continuation? b'))
        let cs ← charsOfUtf8? rest
        pure (c :: cs)
      | _ => none
    else if 0xF0 ≤ a.toNat ∧ a.toNat < 0xF8 then
      match rest with
      | b :: b' :: b'' :: rest => do
        let c ← charFrom? 0x10000
          ((((a.toNat - 0xF0) * 64 + (← continuation? b)) * 64 + (← continuation? b')) * 64 +
            (← continuation? b''))
        let cs ← charsOfUtf8? rest
        pure (c :: cs)
      | _ => none
    else none

/-- The text that bytes stand for. -/
def ofUtf8? (bytes : List UInt8) : Option String := (charsOfUtf8? bytes).map String.ofList

end HomeAutomaton.Text
