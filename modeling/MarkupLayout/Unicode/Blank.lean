import MarkupLayout.Unicode.Ranges
/-!
# White space

The property White_Space.  A line all of whose characters are blank counts as empty, and a
jump ends on the first character that is not.
-/

namespace MarkupLayout.Unicode

/-- Code points of property White_Space from `0x80` on. -/
def blankRanges : List (Nat × Nat) :=
  [(0x85, 0x85), (0xa0, 0xa0), (0x1680, 0x1680), (0x2000, 0x200a), (0x2028, 0x2029),
   (0x202f, 0x202f), (0x205f, 0x205f), (0x3000, 0x3000)]

def isBlank (c : Char) : Bool :=
  c == ' ' || (0x9 ≤ c.toNat && c.toNat ≤ 0xd) || inRanges c.toNat blankRanges

end MarkupLayout.Unicode
