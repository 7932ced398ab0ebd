/-!
# Sets of characters as sorted boundaries

A set of code points is a list of increasing boundaries: the first starts a run of members, the
second ends it, the third starts the next, and so on.

* `Unicode.inRanges` — membership: an odd number of boundaries is at most the code point.
-/

set_option autoImplicit false

namespace Descramble.Unicode

/-- Is the code point inside one of the runs? -/
def inRanges (boundaries : List Nat) (code : Nat) : Bool :=
  boundaries.foldl (fun inside b => if b ≤ code then !inside else inside) false

end Descramble.Unicode
