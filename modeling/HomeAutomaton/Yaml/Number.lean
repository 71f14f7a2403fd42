import HomeAutomaton.Number.Binary64
import HomeAutomaton.Text.Blank
import HomeAutomaton.Text.Digits
import HomeAutomaton.Yaml.Error

/-!
# Numbers in a YAML text

Which plain scalars are numbers, and what number a scalar stands for. Integers are written in decimal,
binary (`0b`), octal (a leading zero) or hexadecimal (`0x`), floating-point numbers with a point; both
may be written in base sixty, the places separated by colons, and underscores may be put anywhere
among the digits.

* `looksLikeInt` and `looksLikeFloat` decide for a plain scalar.
* `intOfText` and `floatOfText` give the value. They accept more than the plain forms, since a tag can
  ask for a number whatever its text: blanks around it, and decimal digits of any script.
-/

namespace HomeAutomaton.Yaml

open Text

/-! ### The plain forms -/

/-- The text behind a sign. -/
def dropSign : List Char → List Char
  | '-' :: rest => rest
  | '+' :: rest => rest
  | cs => cs

/-- An ASCII digit or an underscore. -/
def isDigitOrGap (c : Char) : Bool := isDigit c || c = '_'

/-- A hexadecimal digit of either case. -/
def isHexDigit (c : Char) : Bool :=
  isDigit c || ('a' ≤ c && c ≤ 'f') || ('A' ≤ c && c ≤ 'F')

/-- Digits in a base up to ten, or underscores; at least one. -/
def areDigits (base : Nat) (cs : List Char) : Bool :=
  !cs.isEmpty && cs.all fun c => c = '_' || (digitValue? c).any (· < base)

/-- The places of a base-sixty number behind the first: each a colon and one or two digits below
sixty. At least one place; gives what follows. -/
def sixtiethPlaces : List Char → Option (List Char)
  | ':' :: a :: b :: rest =>
    if isDigit a && isDigit b && a ≤ '5' then some ((sixtiethPlaces rest).getD rest)
    else if isDigit a then some ((sixtiethPlaces (b :: rest)).getD (b :: rest))
    else none
  | [':', a] => if isDigit a then some [] else none
  | _ => none

/-- A digit, digits or underscores, and places in base sixty; gives what follows. -/
def sixtieths? (cs : List Char) : Option (List Char) :=
  match cs with
  | c :: rest => if isDigit c then sixtiethPlaces (rest.dropWhile isDigitOrGap) else none
  | [] => none

/-- Is the plain scalar an integer? -/
def looksLikeInt (text : List Char) : Bool :=
  match dropSign text with
  | '0' :: 'b' :: digits => areDigits 2 digits
  | '0' :: 'x' :: digits =>
    !digits.isEmpty && digits.all fun c => c = '_' || isHexDigit c
  | ['0'] => true
  | '0' :: digits => areDigits 8 digits
  | c :: rest =>
    isDigit c && (rest.all isDigitOrGap || sixtieths? (c :: rest) == some [])
  | [] => false

/-- Nothing, or an exponent: a letter, a sign and digits. -/
def isExponentPart : List Char → Bool
  | [] => true
  | mark :: sign :: digits =>
    (mark = 'e' || mark = 'E') && (sign = '-' || sign = '+') && !digits.isEmpty && digits.all isDigit
  | _ => false

/-- Is the plain scalar a floating-point number? -/
def looksLikeFloat (text : List Char) : Bool :=
  let signless := dropSign text
  let withPoint :=
    match signless with
    | c :: rest =>
      isDigit c &&
        match rest.dropWhile isDigitOrGap with
        | '.' :: fraction => isExponentPart (fraction.dropWhile isDigitOrGap)
        | _ => false
    | [] => false
  let pointFirst :=
    match text with
    | '.' :: c :: fraction => isDigit c && isExponentPart (fraction.dropWhile isDigitOrGap)
    | _ => false
  let inSixtieths :=
    match sixtieths? signless with
    | some ('.' :: fraction) => fraction.all isDigitOrGap
    | _ => false
  withPoint || pointFirst || inSixtieths ||
    [".inf", ".Inf", ".INF"].any (·.toList == signless) ||
    [".nan", ".NaN", ".NAN"].any (·.toList == text)

/-! ### Values -/

/-- The value of a digit in bases up to sixteen. -/
def digitIn? (base : Nat) (c : Char) : Option Nat :=
  let value :=
    if 'a' ≤ c ∧ c ≤ 'f' then some (c.toNat - 87)
    else if 'A' ≤ c ∧ c ≤ 'F' then some (c.toNat - 55)
    else unicodeDigitValue? c
  value.filter (· < base)

/-- The letter that may stand behind a zero before digits in a base. -/
def baseLetter? : Nat → Option Char
  | 2 => some 'b'
  | 8 => some 'o'
  | 16 => some 'x'
  | _ => none

/-- The digits behind the mark of their base, if they have one. -/
def dropBaseMark (base : Nat) : List Char → List Char
  | '0' :: letter :: digits =>
    if (baseLetter? base).any fun l => letter = l || letter = Char.ofNat (l.toNat - 32) then digits
    else '0' :: letter :: digits
  | cs => cs

/-- The integer that a text stands for in a base: blanks around it, a sign, the mark of the base, and
digits. -/
def readInt? (base : Nat) (text : List Char) : Option Int :=
  let text := trimChars text
  let negative := text.head? == some '-'
  let digits := dropBaseMark base (dropSign text)
  if digits.isEmpty || (base == 10 && digitLimit < digits.length) then none
  else
    let size := digits.foldlM (fun n c => (digitIn? base c).map (base * n + ·)) 0
    size.map fun (n : Nat) => if negative then -(n : Int) else (n : Int)

/-- The parts of a text between colons. -/
def splitColons : List Char → List (List Char)
  | [] => [[]]
  | c :: cs =>
    if c = ':' then [] :: splitColons cs
    else
      match splitColons cs with
      | [] => [[c]]
      | part :: parts => (c :: part) :: parts

/-- The sign and the rest of a text, of which underscores do not count. -/
def signAndRest (text : List Char) : Except LoadError (Bool × List Char) :=
  let text := text.filter (· ≠ '_')
  if text.isEmpty then .error .emptyNumber else .ok (text.head? == some '-', dropSign text)

/-- A number that was read, or the failure of a text that is none. -/
def orBadNumber {α : Type} : Option α → Except LoadError α
  | some x => .ok x
  | none => .error .badNumber

/-- The integer that a scalar stands for. -/
def intOfText (text : List Char) : Except LoadError Int := do
  let (negative, digits) ← signAndRest text
  let size ←
    match digits with
    | [] => .error .emptyNumber
    | ['0'] => .ok 0
    | '0' :: 'b' :: rest => orBadNumber (readInt? 2 rest)
    | '0' :: 'x' :: rest => orBadNumber (readInt? 16 rest)
    | '0' :: _ => orBadNumber (readInt? 8 digits)
    | digits =>
      if digits.contains ':' then
        (splitColons digits).foldlM (fun n part =>
          (orBadNumber (readInt? 10 part)).map (60 * n + ·)) 0
      else orBadNumber (readInt? 10 digits)
  .ok (if negative then -size else size)

/-- The unsigned decimal that a text stands for, with or without a point and an exponent. -/
def readDecimal? (cs : List Char) : Option Binary64 :=
  let value (c : Char) : Option Nat := unicodeDigitValue? c
  let isDigit (c : Char) : Bool := (value c).isSome
  let whole := cs.takeWhile isDigit
  let rest := cs.dropWhile isDigit
  let (fraction, rest) := match rest with
    | '.' :: rest => (rest.takeWhile isDigit, rest.dropWhile isDigit)
    | rest => ([], rest)
  let number (digits : List Char) : Nat := digits.foldl (fun n c => 10 * n + (value c).getD 0) 0
  let exponent : Option Int := match rest with
    | [] => some 0
    | mark :: rest =>
      let digits := dropSign rest
      if (mark = 'e' || mark = 'E') && !digits.isEmpty && digits.all isDigit then
        some (if rest.head? = some '-' then -(number digits : Int) else number digits)
      else none
  if whole.isEmpty && fraction.isEmpty then none
  else
    exponent.map fun e => .ofDecimal false (number (whole ++ fraction)) (e - fraction.length)

/-- The floating-point number that a text in lower case stands for, with blanks around it. -/
def readFloat? (text : List Char) : Option Binary64 :=
  let text := trimChars text
  let signless := dropSign text
  let size :=
    if ["inf", "infinity"].any (·.toList == signless) then some .infinity
    else if signless == "nan".toList then some .notANumber
    else readDecimal? signless
  size.map fun x => if text.head? == some '-' then x.negate else x

/-- The most places that a floating-point number in base sixty may have: `60 ^ 173` is still a number. -/
def placeLimit : Nat := 174

/-- The floating-point number that a scalar stands for. In base sixty the places are added up from the
last one. What comes out as not a number has the mark `mark`, unless it is written `.nan`, which is the
same wherever it stands. -/
def floatOfText (mark : Nat) (text : List Char) : Except LoadError Binary64 := do
  let (negative, text) ← signAndRest text
  let size : Binary64 ←
    if text == ".inf".toList then .ok .infinity
    else if text == ".nan".toList then .ok .notANumber
    else if text.contains ':' then do
      let places ← (splitColons text).mapM fun part => orBadNumber (readFloat? part)
      if placeLimit < places.length then .error .tooManyPlaces
      let add (total : Float × Nat) (place : Binary64) : Float × Nat :=
        (total.1 + place.toFloat * Float.ofNat total.2, total.2 * 60)
      .ok (marked (.ofFloat (places.reverse.foldl add (0.0, 1)).1))
    else (orBadNumber (readFloat? text)).map marked
  .ok (if negative && !size.isNaN then size.negate else size)
where
  /-- The number, or the mark on what is none. -/
  marked (x : Binary64) : Binary64 := if x.isNaN then .notANumber mark else x

end HomeAutomaton.Yaml
