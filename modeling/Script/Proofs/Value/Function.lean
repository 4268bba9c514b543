import Script.Evaluation.Operator
import Script.Proofs.Value.Map

/-! Values under a change of what their functions run. Functions are known by their numbers, so the
values compare and calculate alike, and they show alike but for the texts of functions. -/

namespace Script

namespace Value

/-- The same value with other functions, under the same numbers. -/
def mapCallable (change : Callable → Callable) : Value → Value
  | .function id callable => .function id (change callable)
  | value => value

/-- The text of a value inside the arrays of `opened`, where functions show otherwise. -/
def textShowing (shows : Callable → String) (heap : Heap) (opened : List ArrayId) : Value → String
  | .nil => "nil"
  | .boolean value => toString value
  | .number value => numberStyle.write value
  | .string text => text
  | .function _ callable => shows callable
  | .array id =>
    if id ∈ opened then "[...]"
    else if id < heap.size then
      let items := (heap.elements id).toList.map fun item =>
        item.textShowing shows heap (id :: opened)
      "[" ++ ", ".intercalate items ++ "]"
    else "[]"
termination_by unseen (List.range heap.size) opened
decreasing_by exact unseen_cons_lt (List.mem_range.2 ‹_›) ‹_›

variable (change : Callable → Callable)

@[simp] theorem mapCallable_array (id : ArrayId) :
    (Value.array id).mapCallable change = .array id := rfl

theorem isTruthy_mapCallable (value : Value) :
    (value.mapCallable change).isTruthy = value.isTruthy := by
  cases value <;> rfl

theorem typeName_mapCallable (value : Value) :
    (value.mapCallable change).typeName = value.typeName := by
  cases value <;> rfl

theorem mapCallable_literal (literal : Literal) :
    literal.value.mapCallable change = literal.value := by
  cases literal <;> rfl

/-- Values are equal exactly if they were before. -/
theorem equalAssuming_mapCallable (heap : Heap) (assumed : List (ArrayId × ArrayId))
    (left right : Value) :
    equalAssuming (heap.map (mapCallable change)) assumed (left.mapCallable change)
        (right.mapCallable change) = equalAssuming heap assumed left right := by
  -- The induction is on the pairs of arrays that are not compared yet.
  induction count : unseen (arrayPairs heap) assumed using Nat.strongRecOn
    generalizing assumed left right with
  | ind count ih =>
    cases left with
    | array first =>
      cases right with
      | array second =>
        simp only [mapCallable_array, equalAssuming, Heap.size_map, Heap.elements_map,
          Array.size_map, Array.toList_map]
        by_cases compared : (first, second) ∈ assumed
        · simp only [if_pos compared]
        · by_cases inside : first < heap.size ∧ second < heap.size
          · have fewer := unseen_cons_lt (mem_arrayPairs inside.1 inside.2) compared
            have inner (pair : Value × Value) := ih _ (count ▸ fewer) _ pair.1 pair.2 rfl
            simp only [List.zip_map, List.all_map, Function.comp_def, Prod.map, inner]
          · simp only [if_neg inside]
      | _ => simp only [mapCallable, equalAssuming]
    | _ => cases right <;> simp only [mapCallable, equalAssuming]

theorem equals_mapCallable (heap : Heap) (left right : Value) :
    (left.mapCallable change).equals (heap.map (mapCallable change)) (right.mapCallable change) =
      left.equals heap right := equalAssuming_mapCallable change heap [] left right

/-- Functions that are changed show their new texts. -/
theorem textWithin_mapCallable (heap : Heap) (opened : List ArrayId) (shown : Value) :
    (shown.mapCallable change).textWithin (heap.map (mapCallable change)) opened =
      shown.textShowing (Callable.text ∘ change) heap opened := by
  -- The induction is on the arrays that are not being written yet.
  induction count : unseen (List.range heap.size) opened using Nat.strongRecOn
    generalizing opened shown with
  | ind count ih =>
    cases shown with
    | array id =>
      simp only [mapCallable_array, textWithin, textShowing, Heap.size_map, Heap.elements_map,
        Array.toList_map, List.map_map, Function.comp_def]
      by_cases written : id ∈ opened
      · simp only [if_pos written]
      · by_cases inside : id < heap.size
        · have fewer := unseen_cons_lt (List.mem_range.mpr inside) written
          have inner (item : Value) := ih _ (count ▸ fewer) (id :: opened) item rfl
          simp only [Function.comp_def] at inner
          simp only [inner]
        · simp only [if_neg inside]
    | _ => simp only [mapCallable, textWithin, textShowing, Function.comp]

/-- Functions that show as they do. -/
theorem textShowing_text (heap : Heap) (opened : List ArrayId) (shown : Value) :
    shown.textShowing Callable.text heap opened = shown.textWithin heap opened := by
  induction count : unseen (List.range heap.size) opened using Nat.strongRecOn
    generalizing opened shown with
  | ind count ih =>
    cases shown with
    | array id =>
      simp only [textWithin, textShowing]
      by_cases written : id ∈ opened
      · simp only [if_pos written]
      · by_cases inside : id < heap.size
        · have fewer := unseen_cons_lt (List.mem_range.mpr inside) written
          have inner (item : Value) := ih _ (count ▸ fewer) (id :: opened) item rfl
          simp only [inner]
        · simp only [if_neg inside]
    | _ => simp only [textWithin, textShowing]

end Value

namespace Operator

variable (change : Callable → Callable)

theorem settles_mapCallable (operator : Token) (left : Value) :
    settles operator (left.mapCallable change) = settles operator left := by
  simp only [settles, Value.isTruthy_mapCallable]

theorem unary_mapCallable (operator : Token) (right : Value) :
    unary operator (right.mapCallable change) =
      (unary operator right).map (Value.mapCallable change) := by
  have truthy := Value.isTruthy_mapCallable change right
  by_cases bang : operator.kind.tag? = some .bang
  · simp only [unary, bang, truthy]
    rfl
  · by_cases minus : operator.kind.tag? = some .minus
    · simp only [unary, minus]
      cases right <;> rfl
    · have invalid (operand : Value) :
          unary operator operand = .error (.invalidUnary operator.lexeme) := by
        unfold unary
        split <;> simp_all
      rw [invalid, invalid]
      rfl

theorem add_mapCallable (left right : Value) :
    add (left.mapCallable change) (right.mapCallable change) =
      (add left right).map (Value.mapCallable change) := by
  cases left with
  | number | string => cases right <;> rfl
  | _ => rfl

theorem isZero_mapCallable (right : Value) :
    isZero (right.mapCallable change) = isZero right := by
  cases right <;> rfl

theorem ofNumbers_mapCallable {tag : Tag} {apply : Float → Float → Value} (operator : Token)
    (found : arithmetic? tag = some apply) (left right : Value) :
    ofNumbers operator apply (left.mapCallable change) (right.mapCallable change) =
      (ofNumbers operator apply left right).map (Value.mapCallable change) := by
  cases left with
  | number first =>
    cases right with
    | number second =>
      cases tag <;> simp only [arithmetic?, Option.some.injEq, reduceCtorEq] at found <;>
        subst found <;> rfl
    | _ => rfl
  | _ => rfl

theorem binary_mapCallable (heap : Heap) (operator : Token) (left right : Value) :
    binary (heap.map (Value.mapCallable change)) operator (left.mapCallable change)
        (right.mapCallable change) =
      (binary heap operator left right).map (Value.mapCallable change) := by
  unfold binary
  rw [Value.equals_mapCallable, isZero_mapCallable, add_mapCallable]
  split
  · rfl
  · rfl
  · rfl
  · split
    · rename_i found
      split
      · rfl
      · exact ofNumbers_mapCallable change operator found left right
    · rfl
  · rfl

end Operator

theorem arrayPlace_mapCallable (change : Callable → Callable) (heap : Heap) (array : ArrayId)
    (index : Float) :
    arrayPlace (heap.map (Value.mapCallable change)) array index = arrayPlace heap array index := by
  simp only [arrayPlace, Heap.elements_map, Array.size_map]

end Script
