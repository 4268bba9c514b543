import Mathlib
import Script.Value.Equality

/-! Equality of values as bisimilarity: the largest relation under which related arrays have related
elements in order. Arrays may hold themselves, so it is no relation on finite trees. -/

namespace Script.Value

variable {heap : Heap} {left middle right : Value}

/-- Values that are equal whatever the arrays hold. -/
inductive Alike : Value → Value → Prop where
  | nil : Alike .nil .nil
  | boolean (value : Bool) : Alike (.boolean value) (.boolean value)
  | number {left right : Float} (same : (left == right) = true) :
      Alike (.number left) (.number right)
  | string (text : String) : Alike (.string text) (.string text)
  | function (id : FunctionId) (left right : Callable) :
      Alike (.function id left) (.function id right)
  | array (id : ArrayId) : Alike (.array id) (.array id)

/-- Values that are alike, and arrays of equal length whose elements are related in order. -/
inductive Matches (heap : Heap) (related : Value → Value → Prop) : Value → Value → Prop where
  | alike {left right : Value} (same : Alike left right) : Matches heap related left right
  | elements {left right : ArrayId}
      (each : List.Forall₂ related (heap.elements left).toList (heap.elements right).toList) :
      Matches heap related (.array left) (.array right)

/-- Related values match, with elements that are related again. -/
def Bisimulation (heap : Heap) (related : Value → Value → Prop) : Prop :=
  ∀ left right, related left right → Matches heap related left right

/-- Values that some bisimulation relates. -/
def Bisimilar (heap : Heap) (left right : Value) : Prop :=
  ∃ related, Bisimulation heap related ∧ related left right

theorem Alike.symm (same : Alike left right) : Alike right left := by
  cases same with
  | number same => exact .number (PartialEquivBEq.symm same)
  | nil => exact .nil
  | boolean value => exact .boolean value
  | string text => exact .string text
  | function id left right => exact .function id right left
  | array id => exact .array id

theorem Alike.trans (first : Alike left middle) (second : Alike middle right) :
    Alike left right := by
  cases first with
  | number same =>
    cases second with
    | number others => exact .number (PartialEquivBEq.trans same others)
  | nil => exact second
  | boolean value => exact second
  | string text => exact second
  | function id left middle =>
    cases second with
    | function id middle right => exact .function id left right
  | array id => exact second

theorem beq_self_iff_not_isNaN (number : Float) :
    (number == number) = true ↔ ¬number.isNaN = true := by
  rw [Float.beq_self_iff, Float.isNaN_eq_decide_eq_nan, decide_eq_true_iff]

/-- Only a number that differs from itself is not alike to itself. -/
theorem alike_self_iff (value : Value) :
    Alike value value ↔ ∀ number, value = .number number → ¬number.isNaN = true := by
  constructor
  · rintro same number rfl
    cases same with
    | number same => exact (beq_self_iff_not_isNaN number).mp same
  · intro isNumber
    cases value with
    | nil => exact .nil
    | boolean value => exact .boolean value
    | number number => exact .number ((beq_self_iff_not_isNaN number).mpr (isNumber number rfl))
    | string text => exact .string text
    | array id => exact .array id
    | function id callable => exact .function id callable callable

section Matching

variable {related weaker : Value → Value → Prop}

theorem Matches.mono (found : Matches heap related left right)
    (weaken : ∀ left right, related left right → weaker left right) :
    Matches heap weaker left right := by
  cases found with
  | alike same => exact .alike same
  | elements each => exact .elements (each.imp weaken)

theorem Matches.symm (found : Matches heap related left right) :
    Matches heap (flip related) right left := by
  cases found with
  | alike same => exact .alike same.symm
  | elements each => exact .elements (List.Forall₂.flip each)

/-- Elements related to those in between are related across. -/
theorem forall₂_across {further : Value → Value → Prop} {first second third : List Value}
    (before : List.Forall₂ related first second) (after : List.Forall₂ further second third) :
    List.Forall₂ (fun left right => ∃ middle, related left middle ∧ further middle right) first
      third := by
  induction before generalizing third with
  | nil =>
    cases after
    exact .nil
  | cons same _ ih =>
    cases after with
    | cons same' others => exact .cons ⟨_, same, same'⟩ (ih others)

/-- Matches across a value in between: elements are related, or related across one in between. -/
theorem Matches.across (first : Matches heap related left middle)
    (second : Matches heap related middle right) :
    Matches heap (fun left right => related left right ∨
      ∃ middle, related left middle ∧ related middle right) left right := by
  cases first with
  | alike same =>
    cases second with
    | alike same' => exact .alike (same.trans same')
    | elements each =>
      cases same
      exact .elements (each.imp fun _ _ => .inl)
  | elements each =>
    cases second with
    | alike same =>
      cases same
      exact .elements (each.imp fun _ _ => .inl)
    | elements each' => exact .elements ((forall₂_across each each').imp fun _ _ => .inr)

end Matching

/-- Bisimilarity is a bisimulation itself. -/
theorem bisimulation_bisimilar (heap : Heap) : Bisimulation heap (Bisimilar heap) := by
  rintro left right ⟨related, closed, found⟩
  exact (closed left right found).mono fun left right found => ⟨related, closed, found⟩

theorem Alike.bisimilar (same : Alike left right) : Bisimilar heap left right :=
  ⟨Alike, fun _ _ same => .alike same, same⟩

theorem Bisimilar.symm (found : Bisimilar heap left right) : Bisimilar heap right left := by
  refine ⟨flip (Bisimilar heap), ?_, found⟩
  intro left right found
  exact (bisimulation_bisimilar heap right left found).symm

theorem Bisimilar.trans (first : Bisimilar heap left middle)
    (second : Bisimilar heap middle right) : Bisimilar heap left right := by
  refine ⟨fun left right => Bisimilar heap left right ∨
    ∃ middle, Bisimilar heap left middle ∧ Bisimilar heap middle right, ?_, .inr ⟨_, first, second⟩⟩
  rintro left right (found | ⟨middle, first, second⟩)
  · exact (bisimulation_bisimilar heap left right found).mono fun _ _ => .inl
  · exact (bisimulation_bisimilar heap left middle first).across
      (bisimulation_bisimilar heap middle right second)

theorem bisimilar_self_iff (value : Value) :
    Bisimilar heap value value ↔ ∀ number, value = .number number → ¬number.isNaN = true := by
  rw [← alike_self_iff]
  constructor
  · intro found
    cases value with
    | array id => exact .array id
    | _ =>
      cases bisimulation_bisimilar heap _ _ found with
      | alike same => exact same
  · exact Alike.bisimilar

end Script.Value
