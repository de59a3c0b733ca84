/-!
# Character classes given by ranges

A class of characters is a list of ranges of code points, both ends included. `mem_iff` says
when a character belongs to one.
-/

namespace StatementOutline.Text

/-- A run of code points, both ends included. -/
structure CharRange where
  first : Nat
  last : Nat

/-- Whether a character lies in one of the ranges. -/
def CharRange.mem (ranges : List CharRange) (c : Char) : Bool :=
  ranges.any fun r => decide (r.first ≤ c.toNat ∧ c.toNat ≤ r.last)

theorem CharRange.mem_iff {ranges : List CharRange} {c : Char} :
    CharRange.mem ranges c = true ↔ ∃ r ∈ ranges, r.first ≤ c.toNat ∧ c.toNat ≤ r.last := by
  simp [CharRange.mem]

end StatementOutline.Text
