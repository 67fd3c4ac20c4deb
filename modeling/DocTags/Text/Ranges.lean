/-!
# Sets of code points

A class of characters is written as a list of closed intervals of code points.
-/

namespace DocTags.Text

/-- Closed intervals of code points. -/
abbrev CodeRanges := List (Nat × Nat)

namespace CodeRanges

/-- Some interval holds the code point. -/
def contains (ranges : CodeRanges) (code : Nat) : Bool :=
  ranges.any fun r => r.1 ≤ code && code ≤ r.2

theorem contains_iff (ranges : CodeRanges) (code : Nat) :
    ranges.contains code = true ↔ ∃ r ∈ ranges, r.1 ≤ code ∧ code ≤ r.2 := by
  simp [contains]

end CodeRanges

/-- Looks the code point up in consecutive tables. -/
def inTables (tables : List CodeRanges) (code : Nat) : Bool :=
  tables.any (·.contains code)

end DocTags.Text
