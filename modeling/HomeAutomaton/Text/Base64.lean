/-!
# Base 64

Bytes as text over an alphabet of sixty-four characters, four for every three bytes.

* `Base64.encodeLines` writes lines of seventy-six characters, each ended by a line feed.
* `Base64.decode?` ignores every character outside the alphabet, stops at the padding that completes
  a group of four, and refuses a last group that is not complete.
-/

namespace HomeAutomaton.Text.Base64

/-- The character of a number below sixty-four. -/
def digit (n : Nat) : Char :=
  if n < 26 then Char.ofNat (65 + n)
  else if n < 52 then Char.ofNat (71 + n)
  else if n < 62 then Char.ofNat (n - 4)
  else if n = 62 then '+' else '/'

/-- The number of a character of the alphabet. -/
def value? (c : Char) : Option Nat :=
  if 'A' ≤ c ∧ c ≤ 'Z' then some (c.toNat - 65)
  else if 'a' ≤ c ∧ c ≤ 'z' then some (c.toNat - 71)
  else if '0' ≤ c ∧ c ≤ '9' then some (c.toNat + 4)
  else if c = '+' then some 62
  else if c = '/' then some 63
  else none

/-- The characters of some bytes, padded to a multiple of four. -/
def encode : List UInt8 → List Char
  | [] => []
  | [a] =>
    let n := a.toNat * 16
    [digit (n / 64), digit (n % 64), '=', '=']
  | [a, b] =>
    let n := (a.toNat * 256 + b.toNat) * 4
    [digit (n / 4096), digit (n / 64 % 64), digit (n % 64), '=']
  | a :: b :: c :: rest =>
    let n := (a.toNat * 256 + b.toNat) * 256 + c.toNat
    digit (n / 262144) :: digit (n / 4096 % 64) :: digit (n / 64 % 64) :: digit (n % 64) ::
      encode rest

/-- The lines of the encoding; each holds fifty-seven bytes. The first argument bounds their number. -/
def encodeLinesUpTo : Nat → List UInt8 → List Char
  | 0, _ => []
  | _, [] => []
  | lines + 1, bytes =>
    encode (bytes.take 57) ++ '\n' :: encodeLinesUpTo lines (bytes.drop 57)

/-- The lines of the encoding. -/
def encodeLines (bytes : List UInt8) : List Char := encodeLinesUpTo bytes.length bytes

/-- The bytes of a text. `place` counts the characters read of a group of four, `bits` holds what they
leave over for the next byte, and `pads` counts the padding directly before. -/
def decodeFrom (place bits pads : Nat) : List Char → Option (List UInt8)
  | [] => if place = 0 then some [] else none
  | c :: rest =>
    if c = '=' then
      if 2 ≤ place then
        if 4 ≤ place + pads + 1 then some [] else decodeFrom place bits (pads + 1) rest
      else decodeFrom place bits pads rest
    else
      match value? c with
      | none => decodeFrom place bits pads rest
      | some n =>
        match place with
        | 0 => decodeFrom 1 n 0 rest
        | 1 => (decodeFrom 2 (n % 16) 0 rest).map (UInt8.ofNat (bits * 4 + n / 16) :: ·)
        | 2 => (decodeFrom 3 (n % 4) 0 rest).map (UInt8.ofNat (bits * 16 + n / 4) :: ·)
        | _ => (decodeFrom 0 0 0 rest).map (UInt8.ofNat (bits * 64 + n) :: ·)

/-- The bytes of a text. -/
def decode? (cs : List Char) : Option (List UInt8) := decodeFrom 0 0 0 cs

end HomeAutomaton.Text.Base64
