/-!
# Binary floating-point numbers

A floating-point number of 64 bits, held by its bits, so that equality of numbers is decidable and a
number is data like any other. Arithmetic is that of the core library.

* `Binary64.parts` decodes a finite number into sign, significand and exponent.
* `Binary64.toInt?` is the integer that a number stands for, if it stands for one.
* `Binary64.same` is equality of value: the two zeros are one.

What is not a number has no value. There are many such things, each with a mark of its own, and each is
the same only as itself.
-/

namespace HomeAutomaton

/-- A floating-point number of 64 bits. -/
structure Binary64 where
  /-- Sign, exponent and fraction. -/
  bits : UInt64
  deriving DecidableEq, Repr

namespace Binary64

/-- The number of the core library with these bits. -/
def toFloat (x : Binary64) : Float := Float.ofBits x.bits

/-- The bits of a number of the core library. -/
def ofFloat (x : Float) : Binary64 := ⟨x.toBits⟩

/-- Is the sign bit set? -/
def isNegative (x : Binary64) : Bool := x.bits >>> 63 == 1

/-- The exponent field, eleven bits. -/
def exponentField (x : Binary64) : Nat := ((x.bits >>> 52) &&& 0x7FF).toNat

/-- The fraction field, fifty-two bits. -/
def fractionField (x : Binary64) : Nat := (x.bits &&& 0xFFFFFFFFFFFFF).toNat

/-- Is this not a number? -/
def isNaN (x : Binary64) : Bool := x.exponentField == 2047 && x.fractionField != 0

/-- Is this one of the infinities? -/
def isInfinite (x : Binary64) : Bool := x.exponentField == 2047 && x.fractionField == 0

/-- Is this one of the zeros? -/
def isZero (x : Binary64) : Bool := x.exponentField == 0 && x.fractionField == 0

/-- Positive infinity. -/
def infinity : Binary64 := ⟨0x7FF0000000000000⟩

/-- Not a number, with a mark that tells it apart from others. -/
def notANumber (mark : Nat := 0) : Binary64 :=
  ⟨0x7FF8000000000000 ||| UInt64.ofNat (mark % 0x8000000000000)⟩

/-- The number with the other sign. -/
def negate (x : Binary64) : Binary64 := ⟨x.bits ^^^ 0x8000000000000000⟩

/-- The magnitude of a finite number as `significand * 2 ^ exponent`. -/
structure Magnitude where
  significand : Nat
  exponent : Int
  /-- The next smaller magnitude is half as far away as the next larger one. -/
  narrowBelow : Bool

/-- The magnitude of a finite number. -/
def magnitude (x : Binary64) : Magnitude :=
  if x.exponentField = 0 then ⟨x.fractionField, -1074, false⟩
  else ⟨0x10000000000000 + x.fractionField, (x.exponentField : Int) - 1075,
    x.fractionField == 0 && x.exponentField > 1⟩

/-- The integer that the number stands for, if it stands for one. -/
def toInt? (x : Binary64) : Option Int :=
  if x.exponentField = 2047 then none
  else
    let m := x.magnitude
    let signed (n : Nat) : Int := if x.isNegative then -(n : Int) else n
    if 0 ≤ m.exponent then some (signed (m.significand * Nat.pow 2 m.exponent.toNat))
    else
      let unit := Nat.pow 2 (-m.exponent).toNat
      if m.significand % unit = 0 then some (signed (m.significand / unit)) else none

/-- Are the two the same? The two zeros are, and what is not a number is the same as what has its
mark. -/
def same (x y : Binary64) : Bool := x == y || (x.isZero && y.isZero)

/-- The magnitude nearest to `digits * 10 ^ exponent`, ties to even. What lies far beyond the range of
the numbers on either side is settled without computing the power of ten. -/
def ofMagnitude (digits : Nat) (exponent : Int) : Binary64 :=
  let lead : Int := ((Nat.toDigits 10 digits).length : Int) + exponent
  if digits = 0 ∨ lead < -400 then ⟨0⟩
  else if 400 < lead then infinity
  else ofFloat (Float.ofScientific digits (exponent < 0) exponent.natAbs)

/-- The number nearest to `digits * 10 ^ exponent`, with the sign. -/
def ofDecimal (negative : Bool) (digits : Nat) (exponent : Int) : Binary64 :=
  if negative then (ofMagnitude digits exponent).negate else ofMagnitude digits exponent

end Binary64

end HomeAutomaton
