/-!
White space and trimming.  Blank characters are the twenty-five code points
with the White_Space property; a byte order mark and the zero-width space are
not among them, so trimming leaves both in place.
-/

namespace DependencyAudit.Text

/-- White_Space as inclusive ranges of code points. -/
def blankRanges : List (Nat × Nat) :=
  [(0x09, 0x0D), (0x20, 0x20), (0x85, 0x85), (0xA0, 0xA0), (0x1680, 0x1680),
   (0x2000, 0x200A), (0x2028, 0x2029), (0x202F, 0x202F), (0x205F, 0x205F),
   (0x3000, 0x3000)]

def isBlank (c : Char) : Bool :=
  blankRanges.any fun r => r.1 ≤ c.toNat && c.toNat ≤ r.2

def trimStart (cs : List Char) : List Char :=
  cs.dropWhile isBlank

def trimEnd (cs : List Char) : List Char :=
  (cs.reverse.dropWhile isBlank).reverse

/-- Blank characters go from both ends and nowhere else. -/
def trim (cs : List Char) : List Char :=
  trimEnd (trimStart cs)

end DependencyAudit.Text
