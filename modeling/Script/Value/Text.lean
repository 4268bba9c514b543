import Script.Value.Heap

/-! The canonical text of a value. An array that is still being written shows as an ellipsis in
its own text, so the text of an array that contains itself is finite. -/

namespace Script.Value

/-- Whole numbers show no fraction. -/
def numberStyle : NumberStyle :=
  { infinity := "Infinity", wholeSuffix := "", wholeLimit := none, signedZero := true }

/-- The text of a value inside the arrays of `opened`. -/
def textWithin (heap : Heap) (opened : List ArrayId) : Value → String
  | .nil => "nil"
  | .boolean value => toString value
  | .number value => numberStyle.write value
  | .string text => text
  | .function _ callable => callable.text
  | .array id =>
    if id ∈ opened then "[...]"
    else if id < heap.size then
      let items := (heap.elements id).toList.map fun item => item.textWithin heap (id :: opened)
      "[" ++ ", ".intercalate items ++ "]"
    else "[]"
termination_by unseen (List.range heap.size) opened
decreasing_by exact unseen_cons_lt (List.mem_range.2 ‹_›) ‹_›

def text (heap : Heap) (value : Value) : String := value.textWithin heap []

end Script.Value
