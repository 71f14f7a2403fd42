import HomeAutomaton.Text.Lowercase

/-!
# Slugs

The form in which free text becomes part of an identifier: the lower-cased runs of letters `a` to `z`
and digits, joined by single underscores. Everything between two runs, however long, becomes one
underscore, and nothing stands before the first run or after the last.

* `Text.slugRuns` lists the runs of a lower-cased text.
* `Text.slug` joins them.
-/

namespace HomeAutomaton.Text

/-- Is this a character that a slug keeps? -/
def isSlugChar (c : Char) : Bool := ('a' ≤ c && c ≤ 'z') || ('0' ≤ c && c ≤ '9')

/-- A run, unless it is empty. -/
def closeRun : List Char → List (List Char)
  | [] => []
  | c :: cs => [c :: cs]

/-- The maximal runs of slug characters, of which `run` is the part already read of the first. -/
def slugRunsFrom (run : List Char) : List Char → List (List Char)
  | [] => closeRun run
  | c :: cs =>
    if isSlugChar c then slugRunsFrom (run ++ [c]) cs else closeRun run ++ slugRunsFrom [] cs

/-- The maximal runs of slug characters of a text. -/
def slugRuns (cs : List Char) : List (List Char) := slugRunsFrom [] cs

/-- Runs joined by single underscores. -/
def joinRuns : List (List Char) → List Char
  | [] => []
  | [run] => run
  | run :: next :: rest => run ++ '_' :: joinRuns (next :: rest)

/-- The slug of a text. -/
def slug (s : String) : String := String.ofList (joinRuns (slugRuns (lowercase s.toList)))

/-- The non-empty ones of the texts, joined by single underscores. -/
def joinNonEmpty (parts : List String) : String :=
  String.intercalate "_" (parts.filter (· ≠ ""))

@[simp] theorem slugRuns_nil : slugRuns [] = [] := rfl

example : slug "  Hall -- Lights (2) " = "hall_lights_2" := by decide +kernel

end HomeAutomaton.Text
