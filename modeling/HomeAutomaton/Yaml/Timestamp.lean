import HomeAutomaton.Calendar
import HomeAutomaton.Yaml.Error

/-!
# Dates in a YAML text

A date is written as `2024-01-02`, a point in time as a date, a `T` or blanks, and a time of day, with
an optional fraction of the second and an optional offset from universal time.

* `Timestamp.ofText?` recognises the form; the numbers in it may still not exist.
* `Timestamp.isPlainForm` says which forms a plain scalar may have: the month and the day of a date on
  its own have two digits.
* `Timestamp.value` looks the numbers up in the calendar.
-/

namespace HomeAutomaton.Yaml

open Text

/-- A time of day, as it is written. -/
structure ClockText where
  hour : Nat
  minute : Nat
  second : Nat
  fraction : List Char
  /-- The offset from universal time: its sign, hours and minutes. -/
  offset : Option (Bool × Nat × Nat)

/-- A date or a point in time, as it is written. -/
structure Timestamp where
  year : Nat
  month : Nat
  day : Nat
  /-- Month and day are written with two digits each. -/
  twoDigits : Bool
  clock : Option ClockText

namespace Timestamp

/-- A number of one or two digits, of how many, and the rest. -/
def shortNumber? : List Char → Option (Nat × Nat × List Char)
  | a :: b :: rest => do
    let x ← digitValue? a
    match digitValue? b with
    | some y => pure (10 * x + y, 2, rest)
    | none => pure (x, 1, b :: rest)
  | [a] => do
    let x ← digitValue? a
    pure (x, 1, [])
  | [] => none

/-- A number of two digits, and the rest. -/
def pair? : List Char → Option (Nat × List Char)
  | a :: b :: rest => do
    let n ← natOfDigits? [a, b]
    pure (n, rest)
  | _ => none

/-- The offset at the end of a text, behind blanks and tabs. -/
def offset? (cs : List Char) : Option (Option (Bool × Nat × Nat)) :=
  if cs.isEmpty then some none
  else
    match cs.dropWhile fun c => c = ' ' || c = '\t' with
    | ['Z'] => some (some (false, 0, 0))
    | sign :: rest =>
      if sign = '-' ∨ sign = '+' then
        match shortNumber? rest with
        | some (hours, _, []) => some (some (sign == '-', hours, 0))
        | some (hours, _, ':' :: rest) =>
          match pair? rest with
          | some (minutes, []) => some (some (sign == '-', hours, minutes))
          | _ => none
        | _ => none
      else none
    | [] => none

/-- A time of day at the end of a text. -/
def clock? (cs : List Char) : Option ClockText := do
  let (hour, _, rest) ← shortNumber? cs
  match rest with
  | ':' :: rest =>
    let (minute, rest) ← pair? rest
    match rest with
    | ':' :: rest =>
      let (second, rest) ← pair? rest
      let (fraction, rest) := match rest with
        | '.' :: rest => (rest.takeWhile isDigit, rest.dropWhile isDigit)
        | rest => ([], rest)
      let offset ← offset? rest
      pure ⟨hour, minute, second, fraction, offset⟩
    | _ => none
  | _ => none

/-- The date or point in time that a text looks like. -/
def ofText? (cs : List Char) : Option Timestamp :=
  match cs with
  | a :: b :: c :: d :: '-' :: rest => do
    let year ← natOfDigits? [a, b, c, d]
    let (month, monthWidth, rest) ← shortNumber? rest
    match rest with
    | '-' :: rest =>
      let (day, dayWidth, rest) ← shortNumber? rest
      let twoDigits := monthWidth == 2 && dayWidth == 2
      match rest with
      | [] => pure ⟨year, month, day, twoDigits, none⟩
      | mark :: after =>
        let time :=
          if mark = 'T' ∨ mark = 't' then after
          else if mark = ' ' ∨ mark = '\t' then after.dropWhile fun c => c = ' ' || c = '\t'
          else []
        let clock ← clock? time
        pure ⟨year, month, day, twoDigits, some clock⟩
    | _ => none
  | _ => none

/-- Is this one of the forms of a plain scalar? -/
def isPlainForm (t : Timestamp) : Bool := t.clock.isSome || t.twoDigits

/-- The point in time, or the date when there is no time of day. -/
def value (t : Timestamp) : Except LoadError (Date ⊕ DateTime) :=
  let date := Date.of? t.year t.month t.day
  match t.clock with
  | none =>
    match date with
    | some date => .ok (.inl date)
    | none => .error .badDate
  | some clock =>
    let microsecond :=
      if clock.fraction.isEmpty then some 0 else microsecondsOf? clock.fraction
    let offset : Option Int := clock.offset.map fun (behind, hours, minutes) =>
      let size : Int := ((hours * 60 + minutes) * 60000000 : Nat)
      if behind then -size else size
    match DateTime.of? date clock.hour clock.minute clock.second (microsecond.getD 0) offset with
    | some time => .ok (.inr time)
    | none => .error .badDate

end Timestamp

end HomeAutomaton.Yaml
