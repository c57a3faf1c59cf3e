/-!
# Ranges of code points

A property of characters is given by the code points that have it, as closed
ranges in ascending order.
-/

namespace SymbolicTape
namespace Text

/-- Closed ranges of code points, in ascending order. -/
abbrev CodeRanges := List (Nat × Nat)

namespace CodeRanges

/-- Whether a code point lies in one of the ranges.  The search ends at the
first range that lies behind it. -/
def contains : CodeRanges -> Nat -> Bool
  | [], _ => false
  | (first, last) :: rest, code =>
      first ≤ code && (code ≤ last || contains rest code)

end CodeRanges
end Text
end SymbolicTape
