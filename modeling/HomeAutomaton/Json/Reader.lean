import HomeAutomaton.Data.Basic
import HomeAutomaton.Text.Digits
import HomeAutomaton.Text.Hex

/-!
# Reading JSON

The reader keeps the order of the entries of an object; of several entries with one key the last value
wins, at the place of the first. It accepts `NaN`, `Infinity` and `-Infinity` for numbers. Text that
is not JSON is `malformed`; an integer of more than 4300 digits is refused on its own account.

Each function takes the characters that are left and gives back what it read and the rest.

* `Json.read` reads a whole text.
-/

namespace HomeAutomaton.Json

open Text

/-- Why a text cannot be read. -/
inductive ReadError where
  | malformed
  /-- An integer has more digits than are accepted. -/
  | tooManyDigits
  deriving DecidableEq, Repr

/-- What was read, and the characters that are left. -/
abbrev Step (α : Type) := Except ReadError (α × List Char)

/-- Blanks between the parts of a text. -/
def skipBlanks (cs : List Char) : List Char :=
  cs.dropWhile fun c => c = ' ' || c = '\t' || c = '\n' || c = '\r'

/-- The digits that a text starts with, and the rest. -/
def splitDigits (cs : List Char) : List Char × List Char :=
  (cs.takeWhile isDigit, cs.dropWhile isDigit)

/-- The character of an escape by a single letter. -/
def escaped? : Char → Option Char
  | '"' => some '"'
  | '\\' => some '\\'
  | '/' => some '/'
  | 'b' => some '\x08'
  | 'f' => some '\x0c'
  | 'n' => some '\n'
  | 'r' => some '\r'
  | 't' => some '\t'
  | _ => none

/-- A 16-bit unit that starts a pair. -/
def isHighUnit (n : Nat) : Bool := 0xD800 ≤ n && n < 0xDC00

/-- A 16-bit unit that ends a pair. -/
def isLowUnit (n : Nat) : Bool := 0xDC00 ≤ n && n < 0xE000

/-- The character of a 16-bit unit that is not part of a pair; half a pair on its own is no character
and is replaced. -/
def charOfUnit (n : Nat) : Char :=
  if isHighUnit n || isLowUnit n then Char.ofNat 0xFFFD else Char.ofNat n

/-- What was read of a string, backwards, with the half of a pair that nothing completed. -/
def settle (high : Option Nat) (read : List Char) : List Char :=
  match high with
  | none => read
  | some unit => charOfUnit unit :: read

/-- The rest of a string after its opening quote. What was read of it is `read`, backwards, followed
by `high` if the first half of a pair was read last. -/
def stringFrom (high : Option Nat) (read : List Char) : List Char → Step String
  | [] => .error .malformed
  | '"' :: rest => .ok (String.ofList (settle high read).reverse, rest)
  | '\\' :: 'u' :: a :: b :: c :: d :: rest =>
    match ofHex? [a, b, c, d], high with
    | none, _ => .error .malformed
    | some unit, none =>
      if isHighUnit unit then stringFrom (some unit) read rest
      else stringFrom none (charOfUnit unit :: read) rest
    | some unit, some first =>
      if isLowUnit unit then
        let code := 0x10000 + (first - 0xD800) * 0x400 + (unit - 0xDC00)
        stringFrom none (Char.ofNat code :: read) rest
      else if isHighUnit unit then stringFrom (some unit) (settle high read) rest
      else stringFrom none (charOfUnit unit :: settle high read) rest
  | '\\' :: c :: rest =>
    match escaped? c with
    | none => .error .malformed
    | some c => stringFrom none (c :: settle high read) rest
  | c :: rest =>
    if c.toNat < 0x20 then .error .malformed else stringFrom none (c :: settle high read) rest

/-- The fraction that a text starts with, if it does: its digits and the rest. -/
def fraction? : List Char → Option (List Char × List Char)
  | '.' :: rest =>
    match splitDigits rest with
    | ([], _) => none
    | (digits, rest) => some (digits, rest)
  | _ => none

/-- Does the text start with a minus? And the rest after its sign, if it has one. -/
def splitSign : List Char → Bool × List Char
  | '-' :: rest => (true, rest)
  | '+' :: rest => (false, rest)
  | cs => (false, cs)

/-- The exponent that a text starts with, if it does, and the rest. -/
def exponent? : List Char → Option (Int × List Char)
  | [] => none
  | mark :: rest =>
    if mark = 'e' ∨ mark = 'E' then
      let (negative, digits) := splitSign rest
      match splitDigits digits with
      | ([], _) => none
      | (digits, rest) =>
        let size : Int := (natOfDigits? digits).getD 0
        some (if negative then -size else size, rest)
    else none

/-- The digits in front of the point, and the rest. A zero in front stands alone. -/
def splitWhole : List Char → List Char × List Char
  | '0' :: rest => (['0'], rest)
  | cs => splitDigits cs

/-- A number after its sign. -/
def number (negative : Bool) (cs : List Char) : Step Data :=
  let (whole, rest) := splitWhole cs
  if whole.isEmpty then .error .malformed
  else
    let (fraction, rest) := (fraction? rest).getD ([], rest)
    match fraction, exponent? rest with
    | [], none =>
      if digitLimit < whole.length then .error .tooManyDigits
      else
        let size : Int := (natOfDigits? whole).getD 0
        .ok (.int (if negative then -size else size), rest)
    | fraction, exponent =>
      let (e, rest) := exponent.getD (0, rest)
      let digits := (natOfDigits? (whole ++ fraction)).getD 0
      .ok (.float (Binary64.ofDecimal negative digits (e - fraction.length)), rest)

/-- A literal word, if the text starts with it. -/
def word? (w : String) (cs : List Char) : Option (List Char) :=
  if w.toList.isPrefixOf cs then some (cs.drop w.toList.length) else none

/-- The values of the literal words. -/
def words : List (String × Data) :=
  [("null", .null), ("true", .bool true), ("false", .bool false), ("NaN", .float .notANumber),
   ("Infinity", .float .infinity), ("-Infinity", .float Binary64.infinity.negate)]

/-- A value that is neither an array nor an object. -/
def scalar (cs : List Char) : Step Data :=
  match words.findSome? fun w => (word? w.1 cs).map fun rest => (w.2, rest) with
  | some read => .ok read
  | none =>
    match cs with
    | '"' :: rest => (stringFrom none [] rest).map fun (s, rest) => (.str s, rest)
    | '-' :: rest => number true rest
    | cs => number false cs

mutual

/-- A value. The first argument bounds the number of steps. -/
def value : Nat → List Char → Step Data
  | 0, _ => .error .malformed
  | steps + 1, cs =>
    match cs with
    | '[' :: rest =>
      match skipBlanks rest with
      | ']' :: rest => .ok (.list [], rest)
      | rest => items steps [] rest
    | '{' :: rest =>
      match skipBlanks rest with
      | '}' :: rest => .ok (.map [], rest)
      | rest => entries steps [] rest
    | cs => scalar cs

/-- The rest of an array, from the next item on; `read` holds the items before it, backwards. -/
def items : Nat → List Data → List Char → Step Data
  | 0, _, _ => .error .malformed
  | steps + 1, read, cs =>
    match value steps cs with
    | .error e => .error e
    | .ok (item, rest) =>
      match skipBlanks rest with
      | ',' :: rest => items steps (item :: read) (skipBlanks rest)
      | ']' :: rest => .ok (.list (item :: read).reverse, rest)
      | _ => .error .malformed

/-- The rest of an object, from the next entry on; `read` holds the entries before it, backwards. -/
def entries : Nat → List (Data × Data) → List Char → Step Data
  | 0, _, _ => .error .malformed
  | steps + 1, read, cs =>
    match cs with
    | '"' :: rest =>
      match stringFrom none [] rest with
      | .error e => .error e
      | .ok (key, rest) =>
        match skipBlanks rest with
        | ':' :: rest =>
          match value steps (skipBlanks rest) with
          | .error e => .error e
          | .ok (item, rest) =>
            match skipBlanks rest with
            | ',' :: rest => entries steps ((.str key, item) :: read) (skipBlanks rest)
            | '}' :: rest =>
              .ok (.map (Table.ofPairs ((.str key, item) :: read).reverse), rest)
            | _ => .error .malformed
        | _ => .error .malformed
    | _ => .error .malformed

end

/-- The value of a text. A byte order mark is not accepted. -/
def read (text : String) : Except ReadError Data :=
  let cs := text.toList
  match value (2 * cs.length + 2) (skipBlanks cs) with
  | .error e => .error e
  | .ok (d, rest) => if (skipBlanks rest).isEmpty then .ok d else .error .malformed

end HomeAutomaton.Json
