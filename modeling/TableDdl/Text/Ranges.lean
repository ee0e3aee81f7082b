/-!
# Classes of characters given by ranges

A class of characters is a list of closed intervals of code points. The tables of this folder are
lists of this form, and membership is one scan through the list.
-/

namespace TableDdl

namespace Text

/-- The code point of the character lies in one of the closed intervals. -/
def inRanges (ranges : List (Nat × Nat)) (character : Char) : Bool :=
  ranges.any fun range => range.1 ≤ character.toNat && character.toNat ≤ range.2

theorem inRanges_iff (ranges : List (Nat × Nat)) (character : Char) :
    inRanges ranges character = true ↔
      ∃ range ∈ ranges, range.1 ≤ character.toNat ∧ character.toNat ≤ range.2 := by
  simp [inRanges]

end Text

end TableDdl
