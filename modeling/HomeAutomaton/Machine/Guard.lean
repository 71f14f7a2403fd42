import HomeAutomaton.Text.Blank

/-!
# Guards

A guard is a condition in square brackets, as a diagram shows it, or without them. The predicate that
is evaluated is the guard without its blanks and without one bracket at either end.
-/

namespace HomeAutomaton

/-- The text without an opening bracket at its start. -/
def dropOpening : List Char → List Char
  | '[' :: rest => rest
  | cs => cs

/-- The text without a closing bracket at its end. -/
def dropClosing (cs : List Char) : List Char :=
  if cs.getLast? = some ']' then cs.dropLast else cs

/-- The predicate of a guard. -/
def guardPredicate (guard : String) : String :=
  String.ofList (Text.trimChars (dropClosing (dropOpening (Text.trimChars guard.toList))))

end HomeAutomaton
