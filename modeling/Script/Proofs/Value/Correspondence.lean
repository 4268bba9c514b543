import Script.Evaluation.Operator
import Script.Proofs.Value.Equality

/-! Values that are the same but for the scopes and arrays they refer to and the code of functions.
Programs cannot tell them apart as long as arrays that stand for each other have elements that do,
and pieces of code that stand for each other run alike. -/

namespace Script

variable {code : List Stmt → List Stmt → Prop} {scopes : ScopeId → ScopeId → Prop}
  {arrays : ArrayId → ArrayId → Prop} {left right : Heap} {value value' other other' : Value}

/-- The same value, where bodies of functions, scopes and arrays stand for others. -/
inductive Value.Corresponds (code : List Stmt → List Stmt → Prop)
    (scopes : ScopeId → ScopeId → Prop) (arrays : ArrayId → ArrayId → Prop) :
    Value → Value → Prop where
  | nil : Corresponds code scopes arrays .nil .nil
  | boolean (value : Bool) : Corresponds code scopes arrays (.boolean value) (.boolean value)
  | number (value : Float) : Corresponds code scopes arrays (.number value) (.number value)
  | string (text : String) : Corresponds code scopes arrays (.string text) (.string text)
  | array {left right : ArrayId} (same : arrays left right) :
      Corresponds code scopes arrays (.array left) (.array right)
  | host (id : FunctionId) (name : String) (arity : Nat) (native : Native) :
      Corresponds code scopes arrays (.function id (.host name arity native))
        (.function id (.host name arity native))
  | declared (id : FunctionId) (name : Token) (parameters : List Token) {body body' : List Stmt}
      (runs : code body body') {left right : ScopeId} (same : scopes left right) :
      Corresponds code scopes arrays (.function id (.declared ⟨name, parameters, body⟩ left))
        (.function id (.declared ⟨name, parameters, body'⟩ right))

/-- Arrays that stand for each other have corresponding elements in order, and each stands for
one other only. -/
structure Heap.Corresponds (code : List Stmt → List Stmt → Prop) (scopes : ScopeId → ScopeId → Prop)
    (arrays : ArrayId → ArrayId → Prop) (left right : Heap) : Prop where
  elements : ∀ {first second}, arrays first second →
    List.Forall₂ (Value.Corresponds code scopes arrays) (left.elements first).toList
      (right.elements second).toList
  made : ∀ {first second}, arrays first second → (first < left.size ↔ second < right.size)
  apart : ∀ {first second third fourth}, arrays first second → arrays third fourth →
    (first = third ↔ second = fourth)

namespace Value

theorem Corresponds.mono {scopes' : ScopeId → ScopeId → Prop} {arrays' : ArrayId → ArrayId → Prop}
    (same : Corresponds code scopes arrays value value')
    (scopesGrow : ∀ first second, scopes first second → scopes' first second)
    (arraysGrow : ∀ first second, arrays first second → arrays' first second) :
    Corresponds code scopes' arrays' value value' := by
  cases same with
  | nil => exact .nil
  | boolean value => exact .boolean value
  | number value => exact .number value
  | string text => exact .string text
  | array same => exact .array (arraysGrow _ _ same)
  | host id name arity native => exact .host id name arity native
  | declared id name parameters runs same =>
    exact .declared id name parameters runs (scopesGrow _ _ same)

theorem Corresponds.flip (same : Corresponds code scopes arrays value value') :
    Corresponds (flip code) (flip scopes) (flip arrays) value' value := by
  cases same with
  | nil => exact .nil
  | boolean value => exact .boolean value
  | number value => exact .number value
  | string text => exact .string text
  | array same => exact .array same
  | host id name arity native => exact .host id name arity native
  | declared id name parameters runs same =>
    refine .declared id name parameters ?_ ?_
    · exact runs
    · exact same

theorem Corresponds.isTruthy_eq (same : Corresponds code scopes arrays value value') :
    value.isTruthy = value'.isTruthy := by
  cases same <;> rfl

theorem Corresponds.typeName_eq (same : Corresponds code scopes arrays value value') :
    value.typeName = value'.typeName := by
  cases same <;> rfl

/-- A value corresponds to itself if what it refers to stands for itself. -/
theorem corresponds_self (same : ∀ body, code body body)
    (arraysSame : ∀ id, value = .array id → arrays id id)
    (scopesSame : ∀ id declaration closure,
      value = .function id (.declared declaration closure) → scopes closure closure) :
    Corresponds code scopes arrays value value := by
  cases value with
  | nil => exact .nil
  | boolean value => exact .boolean value
  | number value => exact .number value
  | string text => exact .string text
  | array id => exact .array (arraysSame id rfl)
  | function id callable =>
    cases callable with
    | host name arity native => exact .host id name arity native
    | declared declaration closure =>
      exact .declared id declaration.name declaration.parameters (same declaration.body)
        (scopesSame id declaration closure rfl)

theorem corresponds_literal (literal : Literal) :
    Corresponds code scopes arrays literal.value literal.value := by
  cases literal with
  | number value => exact .number value
  | string text => exact .string text
  | boolean value => exact .boolean value
  | nil => exact .nil

end Value

theorem Heap.Corresponds.flip (same : Heap.Corresponds code scopes arrays left right) :
    Heap.Corresponds (flip code) (flip scopes) (flip arrays) right left where
  elements found := List.Forall₂.flip ((same.elements found).imp fun _ _ related => related.flip)
  made found := (same.made found).symm
  apart found found' := (same.apart found found').symm

theorem Heap.elements_add (heap : Heap) (items : Array Value) (id : ArrayId) :
    (heap.add items).elements id = if id = heap.size then items else heap.elements id := by
  by_cases fresh : id = heap.arrays.size <;>
    simp [elements, add, size, Array.getElem?_push, fresh]

theorem Heap.elements_modify (heap : Heap) (id other : ArrayId)
    (change : Array Value → Array Value) : (⟨heap.arrays.modify id change⟩ : Heap).elements other =
      if id = other ∧ id < heap.size then change (heap.elements other)
      else heap.elements other := by
  simp only [elements, size, Array.getElem?_modify]
  by_cases hit : id = other
  · subst hit
    by_cases made : id < heap.arrays.size <;> simp [made]
  · simp [hit]

/-- Corresponding elements in all arrays stay so when corresponding arrays are made. -/
theorem Heap.forall₂_add {related : Value → Value → Prop} {items items' : List Value}
    (same : left.size = right.size) (elements : ∀ array,
      List.Forall₂ related (left.elements array).toList (right.elements array).toList)
    (more : List.Forall₂ related items items') (array : ArrayId) :
    List.Forall₂ related ((left.add items.toArray).elements array).toList
      ((right.add items'.toArray).elements array).toList := by
  rw [elements_add, elements_add, same]
  split
  · exact more
  · exact elements array

/-- They stay so when the same array is changed in the same way. -/
theorem Heap.forall₂_modify {related : Value → Value → Prop} {id : ArrayId}
    {change change' : Array Value → Array Value} (same : left.size = right.size)
    (elements : ∀ array,
      List.Forall₂ related (left.elements array).toList (right.elements array).toList)
    (changed : ∀ items items' : Array Value, List.Forall₂ related items.toList items'.toList →
      List.Forall₂ related (change items).toList (change' items').toList) (array : ArrayId) :
    List.Forall₂ related ((⟨left.arrays.modify id change⟩ : Heap).elements array).toList
      ((⟨right.arrays.modify id change'⟩ : Heap).elements array).toList := by
  rw [elements_modify, elements_modify, same]
  split
  · exact changed _ _ (elements array)
  · exact elements array

namespace Value

/-- What is alike stays so. -/
theorem Alike.across (same : Heap.Corresponds code scopes arrays left right)
    (first : Corresponds code scopes arrays value value')
    (second : Corresponds code scopes arrays other other') (alike : Alike value other) :
    Alike value' other' := by
  cases alike with
  | nil =>
    cases first
    cases second
    exact .nil
  | boolean value =>
    cases first
    cases second
    exact .boolean value
  | number equal =>
    cases first
    cases second
    exact .number equal
  | string text =>
    cases first
    cases second
    exact .string text
  | function id callable callable' =>
    cases first <;> cases second <;> exact .function id _ _
  | array id =>
    cases first with
    | array found =>
      cases second with
      | array found' =>
        obtain rfl := (same.apart found found').mp rfl
        exact .array _

/-- Values that correspond to bisimilar ones are bisimilar. -/
theorem Bisimilar.across (same : Heap.Corresponds code scopes arrays left right)
    (first : Corresponds code scopes arrays value value')
    (second : Corresponds code scopes arrays other other') (found : Bisimilar left value other) :
    Bisimilar right value' other' := by
  refine ⟨fun value' other' => ∃ value other, Corresponds code scopes arrays value value' ∧
    Corresponds code scopes arrays other other' ∧ Bisimilar left value other, ?_,
    value, other, first, second, found⟩
  rintro value' other' ⟨value, other, first, second, found⟩
  cases bisimulation_bisimilar left value other found with
  | alike alike => exact .alike (alike.across same first second)
  | elements each =>
    cases first with
    | array first =>
      cases second with
      | array second =>
        have before := List.Forall₂.flip (R := flip (Corresponds code scopes arrays))
          (same.elements first)
        have after := forall₂_across (forall₂_across before each) (same.elements second)
        refine .elements (after.imp ?_)
        rintro x y ⟨b, ⟨a, ax, ab⟩, yb⟩
        exact ⟨a, b, ax, yb, ab⟩

theorem equals_across (same : Heap.Corresponds code scopes arrays left right)
    (first : Corresponds code scopes arrays value value')
    (second : Corresponds code scopes arrays other other') :
    value.equals left other = value'.equals right other' := by
  rw [Bool.eq_iff_iff, equals_iff_bisimilar, equals_iff_bisimilar]
  exact ⟨Bisimilar.across same first second, Bisimilar.across same.flip first.flip second.flip⟩

/-- An array is being written on one side exactly if the one it stands for is on the other. -/
theorem mem_opened_iff (same : Heap.Corresponds code scopes arrays left right)
    {opened opened' : List ArrayId} (open_same : List.Forall₂ arrays opened opened')
    {first second : ArrayId} (found : arrays first second) : first ∈ opened ↔ second ∈ opened' := by
  induction open_same with
  | nil => simp
  | cons head _ ih => simp only [List.mem_cons, same.apart found head, ih]

theorem textWithin_across (same : Heap.Corresponds code scopes arrays left right)
    {opened opened' : List ArrayId} (open_same : List.Forall₂ arrays opened opened')
    (first : Corresponds code scopes arrays value value') :
    value.textWithin left opened = value'.textWithin right opened' := by
  -- The induction is on the arrays of one heap that are not being written yet.
  induction count : unseen (List.range left.size) opened using Nat.strongRecOn
    generalizing opened opened' value value' with
  | ind count ih =>
    cases first with
    | @array array array' found =>
      have opened_iff := mem_opened_iff same open_same found
      have made_iff := same.made found
      simp only [textWithin, ← opened_iff, ← made_iff]
      by_cases shown : array ∈ opened
      · simp only [if_pos shown]
      · by_cases made : array < left.size
        · have fewer := unseen_cons_lt (List.mem_range.mpr made) shown
          have items : (left.elements array).toList.map (textWithin left (array :: opened)) =
              (right.elements array').toList.map (textWithin right (array' :: opened')) := by
            refine List.forall₂_eq_eq_eq ▸ List.forall₂_map_left_iff.mpr
              (List.forall₂_map_right_iff.mpr ?_)
            exact (same.elements found).imp fun _ _ related =>
              ih _ (count ▸ fewer) (.cons found open_same) related rfl
          simp only [if_neg shown, if_pos made, items]
        · simp only [if_neg shown, if_neg made]
    | _ => simp only [textWithin, Callable.text]

theorem text_across (same : Heap.Corresponds code scopes arrays left right)
    (first : Corresponds code scopes arrays value value') : value.text left = value'.text right :=
  textWithin_across same .nil first

end Value
end Script
