import HomeAutomaton.Text.Digits

/-!
# Dates and times of day

Dates of the Gregorian calendar from year 1 to year 9999, and points in time given by a date, a time
of day to the microsecond and, optionally, an offset from universal time.

* `Date.of?` and `DateTime.of?` build only what exists: the thirtieth of February does not.
* `Date.ordinal` and `Date.ofOrdinal` count days; `DateTime.ofSeconds` counts seconds.
* `Date.text` and `DateTime.text` write the usual form `2024-01-02T03:04:05.500000+02:00`, without the
  fraction when it is zero.
* `DateTime.same` compares points in time: two with an offset by their instant, two without by what
  they show, and one with never equals one without.
-/

namespace HomeAutomaton

open Text

/-- A day of the Gregorian calendar. -/
structure Date where
  year : Nat
  month : Nat
  day : Nat
  deriving DecidableEq, Repr

/-- A point in time, as a calendar and a clock show it. -/
structure DateTime where
  date : Date
  hour : Nat
  minute : Nat
  second : Nat
  microsecond : Nat
  /-- Microseconds by which the clock is ahead of universal time, if that is known. -/
  offset : Option Int
  deriving DecidableEq, Repr

namespace Date

/-- Does the year have a twenty-ninth of February? -/
def isLeap (year : Nat) : Bool := (year % 4 == 0 && year % 100 != 0) || year % 400 == 0

/-- The number of days of a month. -/
def daysInMonth (year month : Nat) : Nat :=
  if month = 2 then (if isLeap year then 29 else 28)
  else if month = 4 ∨ month = 6 ∨ month = 9 ∨ month = 11 then 30 else 31

/-- Does the calendar have this day? -/
def exists? (d : Date) : Bool :=
  1 ≤ d.year && d.year ≤ 9999 && 1 ≤ d.month && d.month ≤ 12 && 1 ≤ d.day &&
    d.day ≤ daysInMonth d.year d.month

/-- The day, if the calendar has it. -/
def of? (year month day : Nat) : Option Date :=
  let d : Date := ⟨year, month, day⟩
  if d.exists? then some d else none

/-- The number of days before this one, counted from the first of January of year 1. -/
def ordinal (d : Date) : Nat :=
  let past := d.year - 1
  let months := (List.range (d.month - 1)).map fun m => daysInMonth d.year (m + 1)
  past * 365 + past / 4 - past / 100 + past / 400 + months.foldl (· + ·) 0 + (d.day - 1)

/-- The day with so many days before it, counted from the first of January of year 1. -/
def ofOrdinal (n : Nat) : Date :=
  let day := n % 146097
  let centuries := min 3 (day / 36524)
  let day := day - centuries * 36524
  let fours := day / 1461
  let day := day % 1461
  let years := min 3 (day / 365)
  let day := day - years * 365
  let year := n / 146097 * 400 + centuries * 100 + fours * 4 + years + 1
  let before (month : Nat) : Nat := ordinal ⟨year, month, 1⟩ - ordinal ⟨year, 1, 1⟩
  let month := ((List.range 12).filter fun m => before (m + 1) ≤ day).length
  ⟨year, month, day - before month + 1⟩

/-- The date as `2024-01-02`. -/
def chars (d : Date) : List Char :=
  padded 4 d.year ++ '-' :: padded 2 d.month ++ '-' :: padded 2 d.day

/-- The date as `2024-01-02`. -/
def text (d : Date) : String := String.ofList d.chars

end Date

namespace DateTime

/-- Microseconds of a day. -/
def dayLength : Int := 86400000000

/-- The point in time, if the calendar has the day, the clock shows the time, and the offset is less
than a day. -/
def of? (date : Option Date) (hour minute second microsecond : Nat) (offset : Option Int) :
    Option DateTime :=
  match date with
  | none => none
  | some date =>
    let near : Bool := match offset with
      | none => true
      | some o => -dayLength < o && o < dayLength
    if hour < 24 ∧ minute < 60 ∧ second < 60 ∧ microsecond < 1000000 ∧ near then
      some ⟨date, hour, minute, second, microsecond, offset⟩
    else none

/-- Microseconds from the start of year 1 to what the clock shows. -/
def shown (t : DateTime) : Int :=
  t.date.ordinal * dayLength +
    (((t.hour * 60 + t.minute) * 60 + t.second) * 1000000 + t.microsecond : Nat)

/-- Do the two stand for the same point in time? -/
def same (s t : DateTime) : Bool :=
  match s.offset, t.offset with
  | none, none => s.shown == t.shown
  | some a, some b => s.shown - a == t.shown - b
  | _, _ => false

/-- The point in time so many seconds and microseconds after the start of 1970, in universal time. -/
def ofSeconds (seconds microseconds : Nat) : DateTime :=
  let days := seconds / 86400
  let second := seconds % 86400
  { date := Date.ofOrdinal (Date.ordinal ⟨1970, 1, 1⟩ + days)
    hour := second / 3600
    minute := second / 60 % 60
    second := second % 60
    microsecond := microseconds
    offset := some 0 }

/-- An offset as `+02:00`, with seconds and a fraction where they are not zero. -/
def offsetChars (offset : Int) : List Char :=
  let n := offset.natAbs
  let seconds := n / 1000000
  let fraction := n % 1000000
  let tail :=
    if fraction ≠ 0 then ':' :: padded 2 (seconds % 60) ++ '.' :: padded 6 fraction
    else if seconds % 60 ≠ 0 then ':' :: padded 2 (seconds % 60)
    else []
  (if offset < 0 then '-' else '+') :: padded 2 (seconds / 3600) ++ ':' ::
    padded 2 (seconds / 60 % 60) ++ tail

/-- The point in time, with `separator` between date and time of day. -/
def chars (separator : Char) (t : DateTime) : List Char :=
  let fraction := if t.microsecond = 0 then [] else '.' :: padded 6 t.microsecond
  t.date.chars ++ separator :: padded 2 t.hour ++ ':' :: padded 2 t.minute ++ ':' ::
    padded 2 t.second ++ fraction ++ (t.offset.map offsetChars).getD []

/-- The point in time as `2024-01-02T03:04:05`. -/
def text (t : DateTime) : String := String.ofList (t.chars 'T')

/-- The point in time with a blank between date and time of day. -/
def spacedText (t : DateTime) : String := String.ofList (t.chars ' ')

end DateTime

/-- The microseconds that the digits behind the point stand for: the first six count. -/
def microsecondsOf? (fraction : List Char) : Option Nat :=
  natOfDigits? ((fraction ++ List.replicate 6 '0').take 6)

end HomeAutomaton
