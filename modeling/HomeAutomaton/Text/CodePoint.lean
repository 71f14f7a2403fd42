/-!
# Sets of characters as ranges of code points

Properties of characters that come from the Unicode character database are kept as lists of closed
ranges, ascending and apart, and looked up with `Text.inRanges`.
-/

namespace HomeAutomaton.Text

/-- Closed ranges of code points. -/
abbrev CodeRanges := List (Nat × Nat)

/-- Does the code point lie in one of the ranges? -/
def inRanges (ranges : CodeRanges) (n : Nat) : Bool :=
  ranges.any fun r => r.1 ≤ n && n ≤ r.2

@[simp] theorem inRanges_nil (n : Nat) : inRanges [] n = false := rfl

@[simp] theorem inRanges_cons (r : Nat × Nat) (ranges : CodeRanges) (n : Nat) :
    inRanges (r :: ranges) n = ((r.1 ≤ n && n ≤ r.2) || inRanges ranges n) := rfl

end HomeAutomaton.Text
