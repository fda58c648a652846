/-!
# Tables of code point ranges

A character property is stored as a list of inclusive ranges in increasing order.  The
tables of this folder hold the code points from `0x80` on; below that each property has a
rule of its own, so that facts about plain text never look into a table.
-/

namespace MarkupLayout.Unicode

/-- Whether `n` lies in one of the ranges.  The ranges increase, so the first one that does
not end before `n` decides. -/
def inRanges (n : Nat) : List (Nat × Nat) → Bool
  | [] => false
  | (low, high) :: rest => if n ≤ high then decide (low ≤ n) else inRanges n rest

theorem inRanges_cons_of_le {n low high : Nat} (rest : List (Nat × Nat)) (h : n ≤ high) :
    inRanges n ((low, high) :: rest) = decide (low ≤ n) := by
  simp [inRanges, h]

end MarkupLayout.Unicode
