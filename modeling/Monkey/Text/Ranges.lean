/-!
# Character classes given by ranges

A class of characters is written down as the list of its maximal runs of code points, each as a
pair of first and last code point, in increasing order.
-/

namespace Monkey.Text

/-- Whether a character lies in one of the given runs of code points. -/
def inRanges (ranges : List (Nat × Nat)) (c : Char) : Bool :=
  ranges.any fun (first, last) => first ≤ c.toNat && c.toNat ≤ last

theorem inRanges_iff {ranges : List (Nat × Nat)} {c : Char} :
    inRanges ranges c = true ↔ ∃ r ∈ ranges, r.1 ≤ c.toNat ∧ c.toNat ≤ r.2 := by
  simp [inRanges, List.any_eq_true]

end Monkey.Text
