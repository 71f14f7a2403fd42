/-!
# Line ends

A line of a text file ends with a line feed, a carriage return, or both. The file is read with every
line end written as a single line feed, which is what `Text.unifyLineEnds` does.
-/

namespace HomeAutomaton.Text

/-- Every carriage return, with the line feed behind it if there is one, becomes a line feed. -/
def unifyLineEnds : List Char → List Char
  | [] => []
  | '\r' :: '\n' :: cs => '\n' :: unifyLineEnds cs
  | '\r' :: cs => '\n' :: unifyLineEnds cs
  | c :: cs => c :: unifyLineEnds cs

end HomeAutomaton.Text
