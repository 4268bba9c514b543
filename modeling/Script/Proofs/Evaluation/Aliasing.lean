import Script.Proofs.Number.Truncation
import Script.Proofs.Value.Correspondence
import Script.Proofs.Evaluation.DeadCode
import Script.Proofs.Evaluation.Advance

/-! Arrays as storage that all who hold it share. A write through one holder is read through every
other, and changes one element of one array and nothing else. -/

namespace Script

namespace Heap

variable {heap : Heap} {array : ArrayId} {number : Float} {place : Nat}

/-- What a read of an array at a number gives. -/
def read (heap : Heap) (array : ArrayId) (number : Float) : Except RuntimeCause Value :=
  (arrayPlace heap array number).map fun place => (heap.elements array).getD place .nil

theorem arrayPlace_eq_ok_iff : arrayPlace heap array number = .ok place ↔
    (Binary64.ofFloat number).truncated? = some (place : ℤ) ∧
      place < (heap.elements array).size := by
  rw [← Binary64.place?_eq_some_iff, arrayPlace]
  cases (Binary64.ofFloat number).place? (heap.elements array).size <;> simp

theorem arrayPlace_eq_error {cause : RuntimeCause}
    (failed : arrayPlace heap array number = .error cause) : cause = .indexOutOfRange := by
  unfold arrayPlace at failed
  split at failed <;> cases failed
  rfl

@[simp] theorem size_write (heap : Heap) (array : ArrayId) (place : Nat) (value : Value) :
    (heap.write array place value).size = heap.size := Array.size_modify

@[simp] theorem size_append (heap : Heap) (array : ArrayId) (value : Value) :
    (heap.append array value).size = heap.size := Array.size_modify

theorem elements_write (heap : Heap) (array other : ArrayId) (place : Nat) (value : Value) :
    (heap.write array place value).elements other =
      if array = other then (heap.elements other).setIfInBounds place value
      else heap.elements other := by
  rw [write, elements_modify]
  by_cases same : array = other
  · subst same
    by_cases made : array < heap.size
    · rw [if_pos ⟨rfl, made⟩, if_pos rfl]
    · rw [if_neg fun hit => made hit.2, if_pos rfl, elements_eq_empty (Nat.le_of_not_lt made)]
      rfl
  · rw [if_neg fun hit => same hit.1, if_neg same]

@[simp] theorem size_elements_write (heap : Heap) (array other : ArrayId) (place : Nat)
    (value : Value) :
    ((heap.write array place value).elements other).size = (heap.elements other).size := by
  rw [elements_write]
  split
  · exact Array.size_setIfInBounds
  · rfl

theorem arrayPlace_write (heap : Heap) (array other : ArrayId) (place : Nat) (value : Value) :
    arrayPlace (heap.write array place value) other = arrayPlace heap other := by
  funext number
  rw [arrayPlace, arrayPlace, size_elements_write]

/-- A write is seen at the numbers that are cut off to the same place, and at no other. -/
theorem read_write (named : arrayPlace heap array number = .ok place) (value : Value)
    (other : Float) : (heap.write array place value).read array other =
      if (Binary64.ofFloat other).truncated? = (Binary64.ofFloat number).truncated? then .ok value
      else heap.read array other := by
  obtain ⟨truncated, inside⟩ := arrayPlace_eq_ok_iff.mp named
  rw [read, arrayPlace_write, elements_write, if_pos rfl, read]
  split
  · rename_i same
    rw [arrayPlace_eq_ok_iff.mpr ⟨same.trans truncated, inside⟩]
    simp [Except.map, inside]
  · rename_i apart
    cases spotted : arrayPlace heap array other with
    | error cause => rfl
    | ok spot =>
      have elsewhere : place ≠ spot := by
        rintro rfl
        exact apart ((arrayPlace_eq_ok_iff.mp spotted).1.trans truncated.symm)
      simp [Except.map, elsewhere]

/-- Arrays may be made, and those that exist have as many elements as before. -/
structure KeepsLengths (before after : Heap) : Prop where
  size : before.size ≤ after.size
  length : ∀ array, array < before.size →
    (after.elements array).size = (before.elements array).size

/-- No array is ever lost. -/
theorem order_size : Order fun before after => before.size ≤ after.size where
  refl _ := Nat.le_refl _
  trans := Nat.le_trans
  add heap items := by
    change heap.arrays.size ≤ (heap.arrays.push items).size
    rw [Array.size_push]
    exact Nat.le_succ _
  write heap array place value := (heap.size_write array place value).ge

theorem order_keepsLengths : Order KeepsLengths where
  refl _ := ⟨Nat.le_refl _, fun _ _ => rfl⟩
  trans first second := ⟨first.size.trans second.size, fun array made =>
    (second.length array (made.trans_le first.size)).trans (first.length array made)⟩
  add heap items := by
    refine ⟨order_size.add heap items, fun array made => ?_⟩
    rw [elements_add, if_neg made.ne]
  write heap array place value :=
    ⟨order_size.write heap array place value, fun other _ =>
      heap.size_elements_write array other place value⟩

end Heap

/-- What the host at hand does to the arrays that exist is to lengthen one. -/
theorem HostOperation.run_advances {later : Heap → Heap → Prop} (order : Heap.Order later)
    (appends : ∀ heap array value, later heap (Heap.append heap array value))
    (operation : HostOperation) (arguments : List Value) :
    (operation.run arguments).Advances later := by
  cases operation with
  | typeName | double | refuse => exact order.pure _
  | text | same => exact order.bind (order.inspect _) fun seen => order.pure _
  | length =>
    simp only [run]
    split
    · exact order.bind (order.inspect _) fun size => order.pure _
    · exact order.pure _
  | append =>
    simp only [run]
    split
    · refine order.bind (fun machine after ended => ?_) fun _ => order.pure _
      cases ended
      exact appends _ _ _
    · exact order.pure _
  | collect => exact order.bind (order.newArray arguments) fun made => order.pure _

/-- The host at hand loses no array. -/
theorem Host.atHand_advances : Host.Advances fun before after => before.size ≤ after.size := by
  intro key arguments
  simp only [Host.call]
  split
  · exact HostOperation.run_advances Heap.order_size
      (fun heap array value => (heap.size_append array value).ge) _ arguments
  · exact Heap.order_size.pure _

/-- The same ending on another machine. -/
def Result.onto {α : Type} (machine : Machine) : Result α → Result α
  | .done value _ => .done value machine
  | .failed failure _ => .failed failure machine
  | .exhausted => .exhausted

section Subscript

variable {machine after : Machine} {steps : Nat} {object index operand : Expr} {array : ArrayId}
  {number : Float} {value : Value} {place : Nat} {cause : RuntimeCause}

theorem locate_of_ok (named : arrayPlace machine.heap array number = .ok place) (bracket : Token) :
    locate array bracket number machine = .done place machine := by
  change Eval.require bracket (arrayPlace machine.heap array number) machine = _
  rw [named]
  rfl

theorem locate_of_error (failed : arrayPlace machine.heap array number = .error cause)
    (bracket : Token) :
    locate array bracket number machine = .failed (.runtime ⟨cause, bracket.line⟩) machine := by
  change Eval.require bracket (arrayPlace machine.heap array number) machine = _
  rw [failed]
  rfl

variable [Host]

/-- The operands of a subscript are worth this array and this number, and have no effect. -/
structure Targets (machine : Machine) (steps : Nat) (object index : Expr) (array : ArrayId)
    (number : Float) : Prop where
  object : evaluate steps object machine = .done (.array array) machine
  index : evaluate steps index machine = .done (.number number) machine

namespace Targets

theorem subscriptTarget_eq (targets : Targets machine steps object index array number)
    (bracket : Token) : subscriptTarget (evaluate steps) object bracket index machine =
      .done (array, number) machine := by
  rw [subscriptTarget, Eval.bind_of_done targets.object]
  exact Eval.bind_of_done targets.index

/-- A read looks at the array as it is. -/
theorem subscript_eq (targets : Targets machine steps object index array number)
    (bracket : Token) : evaluate (steps + 1) (.subscript object bracket index) machine =
      Eval.require bracket (machine.heap.read array number) machine := by
  rw [evaluate, Eval.bind_of_done (targets.subscriptTarget_eq bracket), Heap.read]
  cases named : arrayPlace machine.heap array number with
  | ok place => exact Eval.bind_of_done (locate_of_ok named bracket)
  | error cause => exact Eval.bind_of_failed (locate_of_error named bracket)

theorem store_of_ok (targets : Targets machine steps object index array number)
    (gives : evaluate steps operand machine = .done value machine)
    (named : arrayPlace machine.heap array number = .ok place) (bracket : Token) :
    evaluate (steps + 1) (.store object bracket index operand) machine =
      .done value { machine with heap := machine.heap.write array place value } := by
  rw [evaluate, Eval.bind_of_done (targets.subscriptTarget_eq bracket)]
  refine (Eval.bind_of_done gives).trans ?_
  exact Eval.bind_of_done (locate_of_ok named bracket)

theorem store_of_error (targets : Targets machine steps object index array number)
    (gives : evaluate steps operand machine = .done value machine)
    (failed : arrayPlace machine.heap array number = .error cause) (bracket : Token) :
    evaluate (steps + 1) (.store object bracket index operand) machine =
      .failed (.runtime ⟨cause, bracket.line⟩) machine := by
  rw [evaluate, Eval.bind_of_done (targets.subscriptTarget_eq bracket)]
  refine (Eval.bind_of_done gives).trans ?_
  exact Eval.bind_of_failed (locate_of_error failed bracket)

end Targets

/-- What the write of a value at a number leads to: at numbers that are cut off to the same place
every read finds the value, from every scope and by every way to the array, and all else is as
before. -/
structure Written (machine after : Machine) (array : ArrayId) (number : Float) (value : Value) :
    Prop where
  reads : ∀ viewer steps holder bracket index other,
    Targets { machine with active := viewer } steps holder index array other →
    Targets { after with active := viewer } steps holder index array other →
    evaluate (steps + 1) (.subscript holder bracket index) { after with active := viewer } =
      if (Binary64.ofFloat other).truncated? = (Binary64.ofFloat number).truncated? then
        .done value { after with active := viewer }
      else (evaluate (steps + 1) (.subscript holder bracket index)
        { machine with active := viewer }).onto { after with active := viewer }
  length : (after.heap.elements array).size = (machine.heap.elements array).size
  others : ∀ other, other ≠ array → after.heap.elements other = machine.heap.elements other
  arrays : after.heap.size = machine.heap.size
  kept : after = { machine with heap := after.heap }

theorem written_write (named : arrayPlace machine.heap array number = .ok place) (value : Value) :
    Written machine { machine with heap := machine.heap.write array place value } array number
      value where
  reads viewer steps holder bracket index other before now := by
    rw [now.subscript_eq, before.subscript_eq, Heap.read_write named]
    split
    · rfl
    · cases machine.heap.read array other <;> rfl
  length := machine.heap.size_elements_write array array place value
  others other apart := by
    rw [Heap.elements_write, if_neg apart.symm]
  arrays := machine.heap.size_write array place value
  kept := rfl

end Subscript

/-- Unless the host loses arrays, a literal makes one that is newer than all there were. -/
theorem evaluate_array [Host] (hosts : Host.Advances fun before after => before.size ≤ after.size)
    {steps : Nat} {bracket : Token} {elements : List Expr} {machine after : Machine} {value : Value}
    (ended : evaluate steps (.array bracket elements) machine = .done value after) :
    ∃ array, value = .array array ∧ machine.heap.size ≤ array ∧ after.heap.size = array + 1 := by
  cases steps with
  | zero => cases ended
  | succ steps =>
    obtain ⟨values, middle, evaluated, made⟩ := Eval.bind_eq_done.mp ended
    cases made
    refine ⟨middle.heap.size, rfl, ?_, Array.size_push _⟩
    have kept := (Heap.order_size.runs hosts steps).1
    have advances := Heap.order_size.evaluateAll kept elements
    exact advances machine middle (by rw [evaluated]; rfl)

/-- A read and a write of an array at a number succeed together, where the number is cut off to a
place in the array, and otherwise fail alike. A write changes that one element and is seen by all
who hold the array. A literal makes a new array unless the host loses arrays, and no array changes
its length unless a function of the host does that. -/
theorem arrays_are_shared [Host] :
    (∀ machine steps object bracket index operand array number value,
      Targets machine steps object index array number →
      evaluate steps operand machine = .done value machine →
      let read := evaluate (steps + 1) (.subscript object bracket index) machine
      let write := evaluate (steps + 1) (.store object bracket index operand) machine
      let length := (machine.heap.elements array).size
      (∃ (place : Nat) (old : Value) (after : Machine),
        (Binary64.ofFloat number).truncated? = some (place : ℤ) ∧
        (machine.heap.elements array)[place]? = some old ∧ read = .done old machine ∧
        write = .done value after ∧ Written machine after array number value) ∨
      ((∀ place : Nat, (Binary64.ofFloat number).truncated? = some (place : ℤ) → length ≤ place) ∧
        read = .failed (.runtime ⟨.indexOutOfRange, bracket.line⟩) machine ∧
        write = .failed (.runtime ⟨.indexOutOfRange, bracket.line⟩) machine)) ∧
    (Host.Advances (fun before after => before.size ≤ after.size) →
      ∀ steps bracket elements machine value after,
      evaluate steps (.array bracket elements) machine = .done value after →
      ∃ array, value = .array array ∧ machine.heap.size ≤ array ∧ after.heap.size = array + 1) ∧
    (Host.Advances Heap.KeepsLengths →
      ∀ steps, (∀ expr, (evaluate steps expr).Advances Heap.KeepsLengths) ∧
        ∀ stmt, (execute steps stmt).Advances Heap.KeepsLengths) := by
  refine ⟨?_, fun hosts _ _ _ _ _ _ => evaluate_array hosts, Heap.order_keepsLengths.runs⟩
  intro machine steps object bracket index operand array number value targets gives
  dsimp only
  rw [targets.subscript_eq]
  cases named : arrayPlace machine.heap array number with
  | ok place =>
    obtain ⟨truncated, inside⟩ := Heap.arrayPlace_eq_ok_iff.mp named
    refine .inl ⟨place, (machine.heap.elements array)[place], _, truncated, ?_, ?_,
      targets.store_of_ok gives named bracket, written_write named value⟩
    · exact Array.getElem?_eq_getElem inside
    · rw [Heap.read, named]
      simp [Except.map, inside]
      rfl
  | error cause =>
    cases Heap.arrayPlace_eq_error named
    refine .inr ⟨fun place truncated => ?_, ?_, targets.store_of_error gives named bracket⟩
    · by_contra inside
      have found := Heap.arrayPlace_eq_ok_iff.mpr ⟨truncated, Nat.lt_of_not_le inside⟩
      rw [named] at found
      cases found
    · rw [Heap.read, named]
      rfl

/-- A literal whose element lengthens an array by the host at hand and then holds it: the literal is
a new array all the same. -/
theorem arrays_are_shared_behind_append :
    let append : Value := .function 1 (.host "push" 2 HostOperation.append)
    let bare : Machine := .fresh (fun _ => 0) .unlimited
    let machine : Machine := { bare with
      scopes := (bare.scopes.define globalScope "push" append).define globalScope "a" (.array 0)
      heap := ⟨#[#[.nil]]⟩
      functions := 2 }
    let name (lexeme : String) : Token := ⟨.plain .identifier, lexeme, 1⟩
    let call : Expr := .call (.reference (name "push")) (name ")")
      [.reference (name "a"), .literal .nil]
    ∃ array after, evaluate 3 (.array (name "]") [call]) machine = .done (.array array) after ∧
      machine.heap.size ≤ array ∧ after.heap.size = array + 1 ∧
      after.heap.elements 0 = #[.nil, .nil] ∧ after.heap.elements array = #[.array 0] := by
  intro append bare machine name call
  let lengthened := { machine with heap := machine.heap.append 0 .nil }
  let after := { lengthened with heap := lengthened.heap.add #[.array 0] }
  have operation : evaluate 1 (.reference (name "push")) machine = .done append machine :=
    Eval.lookUp_of_found (ScopeTree.get?_of_bound rfl)
  have operand : evaluate 1 (.reference (name "a")) machine = .done (.array 0) machine :=
    Eval.lookUp_of_found (ScopeTree.get?_of_bound rfl)
  have given : evaluateAll (evaluate 1) [.reference (name "a"), .literal .nil] machine =
      .done [.array 0, .nil] machine := Eval.bind_of_done operand
  have called : evaluate 2 call machine = .done (.array 0) lengthened :=
    (Eval.bind_of_done operation).trans (Eval.bind_of_done given)
  have evaluated : evaluateAll (evaluate 2) [call] machine = .done [.array 0] lengthened :=
    Eval.bind_of_done called
  have ended : evaluate 3 (.array (name "]") [call]) machine = .done (.array 1) after :=
    Eval.bind_of_done evaluated
  obtain ⟨_, fresh, _⟩ := arrays_are_shared
  obtain ⟨array, same, newer, size⟩ := fresh Host.atHand_advances _ _ _ _ _ _ ended
  obtain rfl := Value.array.inj same
  exact ⟨1, after, ended, newer, size, rfl, rfl⟩

end Script
