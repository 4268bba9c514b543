/-! Sets of characters, given by ranges of their code points. -/

namespace Script.Unicode

/-- Ranges of code points, each from its first member to its last. -/
abbrev Ranges := List (Nat × Nat)

namespace Ranges

/-- Whether one of the ranges holds a code point. -/
def covers (ranges : Ranges) (code : Nat) : Bool :=
  ranges.any fun (first, last) => first ≤ code && code ≤ last

/-- Whether the ranges ascend, none of them empty and no two of them adjacent. -/
def ascend : Ranges → Bool
  | [] => true
  | [(first, last)] => first ≤ last
  | (first, last) :: (next, limit) :: rest =>
    first ≤ last && last + 1 < next && ascend ((next, limit) :: rest)

theorem covers_iff (ranges : Ranges) (code : Nat) :
    ranges.covers code = true ↔ ∃ range ∈ ranges, range.1 ≤ code ∧ code ≤ range.2 := by
  simp [covers]

end Ranges

end Script.Unicode
