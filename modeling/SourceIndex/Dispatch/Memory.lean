import SourceIndex.Number.Binary64
/-!
# Memory in use

How much of the memory of the system a program holds, as a share that workers are given up by.
-/

namespace SourceIndex

/-- The share of the system's memory that is resident: zero if either is not known or the system
has none, and none if it is too large for a floating-point number. -/
def memoryShare? (resident total : Option Int) : Option Binary64 :=
  match resident, total with
  | some used, some whole =>
    if whole ≤ 0 then some .zero
    else
      match Binary64.ofRatio (used < 0) used.natAbs whole.natAbs with
      | .infinite _ => none
      | share => some share
  | _, _ => some .zero

end SourceIndex
