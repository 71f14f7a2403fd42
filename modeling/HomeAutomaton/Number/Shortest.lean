import HomeAutomaton.Number.Binary64
import HomeAutomaton.Text.Digits

/-!
# The shortest decimal that reads back

Of all decimals that round to a given floating-point number, the one with the fewest digits, and of
several with as few the one nearest to the number. The search works on exact natural numbers: the
reals that round to a number form an interval around it, whose ends belong to it when the significand
is even, and for one digit, two digits and so on up to seventeen the two neighbours of the number on
that decimal grid are tried.
-/

namespace HomeAutomaton

/-- The decimal `digits * 10 ^ exponent`. -/
structure Decimal where
  digits : Nat
  exponent : Int
  deriving DecidableEq, Repr

namespace Decimal

/-- Compares `a * 10 ^ i` with `n * 2 ^ j`. -/
def compareBinary (a : Nat) (i : Int) (n : Nat) (j : Int) : Ordering :=
  compare (a * Nat.pow 10 i.toNat * Nat.pow 2 (-j).toNat)
    (n * Nat.pow 2 j.toNat * Nat.pow 10 (-i).toNat)

/-- Does the decimal round to the magnitude? -/
def readsBack (x : Binary64.Magnitude) (d : Decimal) : Bool :=
  let low := if x.narrowBelow then 4 * x.significand - 1 else 4 * x.significand - 2
  let high := 4 * x.significand + 2
  let closed := x.significand % 2 == 0
  let atLow := compareBinary d.digits d.exponent low (x.exponent - 2)
  let atHigh := compareBinary d.digits d.exponent high (x.exponent - 2)
  (atLow == .gt || (closed && atLow == .eq)) && (atHigh == .lt || (closed && atHigh == .eq))

/-- The least `k` from the candidate `k` on, at most `fuel` steps away, with `x < 10 ^ k`. -/
def scaleFrom (x : Binary64.Magnitude) : Nat → Int → Int
  | 0, k => k
  | fuel + 1, k =>
    if compareBinary 1 k x.significand x.exponent == .gt then k else scaleFrom x fuel (k + 1)

/-- The least `k` with `x < 10 ^ k`, for a magnitude that is not zero. The first candidate is taken
from the binary logarithm, of which the decimal one is `30103 / 100000`, rounded down. -/
def scale (x : Binary64.Magnitude) : Int :=
  let binary : Int := (x.significand.log2 : Int) + x.exponent
  scaleFrom x 4 (Int.fdiv (binary * 30103) 100000 - 1)

/-- The neighbour below the magnitude on the grid of multiples of `10 ^ grid`. -/
def below (x : Binary64.Magnitude) (grid : Int) : Nat :=
  (x.significand * Nat.pow 2 x.exponent.toNat * Nat.pow 10 (-grid).toNat) /
    (Nat.pow 2 (-x.exponent).toNat * Nat.pow 10 grid.toNat)

/-- The neighbour on the grid that reads back and is nearer; on a tie the even one. -/
def nearest? (x : Binary64.Magnitude) (grid : Int) : Option Decimal :=
  let low : Decimal := ⟨below x grid, grid⟩
  let high : Decimal := ⟨below x grid + 1, grid⟩
  match readsBack x low, readsBack x high with
  | true, false => some low
  | false, true => some high
  | false, false => none
  | true, true =>
    match compareBinary (2 * low.digits + 1) grid x.significand (x.exponent + 1) with
    | .lt => some high
    | .gt => some low
    | .eq => some (if low.digits % 2 = 0 then low else high)

/-- The exact decimal value of a magnitude. -/
def exact (x : Binary64.Magnitude) : Decimal :=
  if 0 ≤ x.exponent then ⟨x.significand * Nat.pow 2 x.exponent.toNat, 0⟩
  else ⟨x.significand * Nat.pow 5 (-x.exponent).toNat, x.exponent⟩

/-- The decimal without trailing zeros among its digits, at most `fuel` of them. -/
def stripZeros : Nat → Decimal → Decimal
  | 0, d => d
  | fuel + 1, d =>
    if d.digits ≠ 0 ∧ d.digits % 10 = 0 then stripZeros fuel ⟨d.digits / 10, d.exponent + 1⟩ else d

/-- The shortest decimal that reads back, for a magnitude that is not zero. -/
def shortest (x : Binary64.Magnitude) : Decimal :=
  let k := scale x
  let found := (List.range 17).findSome? fun (n : Nat) => nearest? x (k - ((n : Int) + 1))
  stripZeros 400 (found.getD (exact x))

end Decimal

namespace Binary64

open Text

/-- An exponent with its sign and at least two digits. -/
def exponentText (e : Int) : List Char :=
  let digits := digitsOf e.natAbs
  (if e < 0 then '-' else '+') :: (if digits.length < 2 then '0' :: digits else digits)

/-- A decimal that is not zero as text: positional, with at least one digit on either side of the
point, when the exponent of the leading digit is from -4 to 15, and otherwise with an exponent. -/
def layout (d : Decimal) : List Char :=
  let digits := digitsOf d.digits
  let lead : Int := (digits.length : Int) - 1 + d.exponent
  if -4 ≤ lead ∧ lead < 16 then
    if 0 ≤ d.exponent then digits ++ List.replicate d.exponent.toNat '0' ++ ['.', '0']
    else if 0 ≤ lead then
      digits.take (lead.toNat + 1) ++ '.' :: digits.drop (lead.toNat + 1)
    else '0' :: '.' :: List.replicate ((-lead).toNat - 1) '0' ++ digits
  else
    let fraction := digits.drop 1
    digits.take 1 ++ (if fraction.isEmpty then [] else '.' :: fraction) ++ 'e' :: exponentText lead

/-- The shortest text that reads back to the number. -/
def text (x : Binary64) : String :=
  if x.isNaN then "nan"
  else
    let sign := if x.isNegative then ['-'] else []
    if x.isInfinite then String.ofList (sign ++ "inf".toList)
    else if x.isZero then String.ofList (sign ++ "0.0".toList)
    else String.ofList (sign ++ layout (Decimal.shortest x.magnitude))

example : (ofFloat 0.1).text = "0.1" := by decide +kernel
example : (ofFloat 1e16).text = "1e+16" := by decide +kernel
example : (ofFloat 1.5e-7).text = "1.5e-07" := by decide +kernel

end Binary64

end HomeAutomaton
