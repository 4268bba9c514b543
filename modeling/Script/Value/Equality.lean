import Script.Value.Heap

/-! Equality of values. Arrays are equal if they are one array or have equal elements in order; a
pair of arrays that is met again while it is compared counts as equal. -/

namespace Script.Value

/-- The pairs of arrays that exist. -/
def arrayPairs (heap : Heap) : List (ArrayId × ArrayId) :=
  (List.range heap.size).flatMap fun left => (List.range heap.size).map fun right => (left, right)

theorem mem_arrayPairs {heap : Heap} {left right : ArrayId} (leftInside : left < heap.size)
    (rightInside : right < heap.size) : (left, right) ∈ arrayPairs heap := by
  simp [arrayPairs, leftInside, rightInside]

/-- Equality where the pairs of `assumed` are taken to be equal. Functions are equal only to
themselves, and numbers compare as IEEE 754 has it. -/
def equalAssuming (heap : Heap) (assumed : List (ArrayId × ArrayId)) : Value → Value → Bool
  | .nil, .nil => true
  | .boolean left, .boolean right => left == right
  | .number left, .number right => left == right
  | .string left, .string right => left == right
  | .function left _, .function right _ => left == right
  | .array left, .array right =>
    if left = right then true
    else if (left, right) ∈ assumed then true
    else if left < heap.size ∧ right < heap.size then
      (heap.elements left).size == (heap.elements right).size &&
        ((heap.elements left).toList.zip (heap.elements right).toList).all fun pair =>
          equalAssuming heap ((left, right) :: assumed) pair.1 pair.2
    else (heap.elements left).size == (heap.elements right).size
  | _, _ => false
termination_by unseen (arrayPairs heap) assumed
decreasing_by
  rename_i inside
  exact unseen_cons_lt (mem_arrayPairs inside.1 inside.2) ‹_›

def equals (heap : Heap) (left right : Value) : Bool := equalAssuming heap [] left right

end Script.Value
