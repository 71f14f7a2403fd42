/-!
# What can be wrong with a YAML text

A text is read in two steps. First it has to be one well-formed document whose nodes can be put
together; a failure of this step is `malformed`, apart from a few codes and numbers that are out of
bounds. Then its scalars get their values, and a scalar that looks like a value of a type may still not
be one: a date that the calendar does not have, or a number that was asked for by a tag and is none.
These failures are told apart. A mapping can be meant as a scalar, with its text under the key `=`; if it stands
there itself, it has none.
-/

namespace HomeAutomaton.Yaml

/-- Why a text has no value. -/
inductive LoadError where
  /-- The text is not one well-formed document, or its nodes do not fit together. -/
  | malformed
  /-- A date, time or offset that does not exist. -/
  | badDate
  /-- A text that is tagged as a number and is none. -/
  | badNumber
  /-- A floating-point number in base sixty with so many places that the first is worth infinitely
  much. -/
  | tooManyPlaces
  /-- An empty text that is tagged as a number. -/
  | emptyNumber
  /-- A text that is tagged as a truth value and is none. -/
  | badTruthValue
  /-- A text that is tagged as a date and does not look like one. -/
  | badTimestamp
  /-- A mapping that is tagged as a date. -/
  | timestampNotText
  /-- The number of a version has too many digits. -/
  | versionTooLong
  /-- An escape for a code point beyond the last one. -/
  | noSuchCharacter
  /-- An escape for a number too large to be a code point at all. -/
  | characterTooLarge
  /-- A mapping that is meant as a scalar leads from key `=` to key `=` without end. -/
  | endless
  deriving DecidableEq, Repr

end HomeAutomaton.Yaml
