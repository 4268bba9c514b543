import Script.Proofs.Evaluation.Purity
import Script.Proofs.Scope.Activity

/-! A plain expression evaluated twice. The arrays that the first run made move up the numbers of
those that the second one makes, and nothing else differs: the two runs are simulated by one another
under this renumbering. -/

namespace Script

/-- The number of an array if `gap` more arrays had been made behind the first `old`. -/
def renumber (old gap id : Nat) : Nat :=
  if id < old then id else id + gap

/-- The same value, but for the numbers of the arrays behind the first `old`. -/
def Value.shift (old gap : Nat) : Value → Value
  | .array id => .array (renumber old gap id)
  | value => value

section Renumbering

variable {old gap : Nat}

theorem renumber_of_lt {id : Nat} (known : id < old) : renumber old gap id = id := if_pos known

theorem renumber_of_le {id : Nat} (new : old ≤ id) : renumber old gap id = id + gap :=
  if_neg (Nat.not_lt.mpr new)

theorem renumber_lt_iff {id size : Nat} (started : old ≤ size) :
    renumber old gap id < size + gap ↔ id < size := by
  unfold renumber
  split <;> omega

theorem renumber_inj {id other : Nat} :
    renumber old gap id = renumber old gap other ↔ id = other := by
  unfold renumber
  split <;> split <;> omega

namespace Value

theorem corresponds_shift_iff {value other : Value} :
    Corresponds Eq Eq (fun id id' => renumber old gap id = id') value other ↔
      value.shift old gap = other := by
  constructor
  · rintro (_ | _ | _ | _ | rfl | _ | ⟨_, _, _, rfl, rfl⟩) <;> rfl
  · rintro rfl
    cases value with
    | array id => exact .array rfl
    | _ => exact corresponds_self (fun _ => rfl) (fun _ same => nomatch same) fun _ _ _ _ => rfl

theorem forall₂_corresponds_shift_iff {values others : List Value} :
    List.Forall₂ (Corresponds Eq Eq fun id id' => renumber old gap id = id') values others ↔
      values.map (shift old gap) = others := by
  have same : (Corresponds Eq Eq fun id id' => renumber old gap id = id') =
      fun value other => value.shift old gap = other := by
    funext value other
    exact propext corresponds_shift_iff
  rw [same, ← List.forall₂_map_left_iff (R := Eq), List.forall₂_eq_eq_eq]

/-- A value that refers to old arrays only is not shifted. -/
theorem shift_eq_self {value : Value} (known : ∀ id, .array id ∈ value.cells → id < old) :
    value.shift old gap = value := by
  cases value with
  | array id => exact congrArg array (renumber_of_lt (known id (List.mem_singleton_self _)))
  | _ => rfl

end Value
end Renumbering

/-- The second store is the first with all arrays behind the first `old` renumbered. -/
structure Store.Shifted (old gap : Nat) (left right : Store) : Prop where
  scopes : right.scopes.size = left.scopes.size
  own : ∀ id name,
    right.scopes.own? id name = (left.scopes.own? id name).map (Value.shift old gap)
  linked : ∀ id, right.scopes.parent? id = left.scopes.parent? id
  started : old ≤ left.heap.size
  arrays : right.heap.size = left.heap.size + gap
  elements : ∀ id, right.heap.elements (renumber old gap id) =
    (left.heap.elements id).map (Value.shift old gap)

namespace Store.Shifted

variable {old gap : Nat} {left right : Store} {id : ScopeId} {value : Value}

theorem owner?_eq (shifted : Shifted old gap left right) (id : ScopeId) (name : String) :
    right.scopes.owner? id name = left.scopes.owner? id name := by
  induction id using left.scopes.enclosing_induction with
  | step id ih =>
    rw [ScopeTree.owner?_eq, ScopeTree.owner?_eq left.scopes, shifted.own, shifted.linked,
      Option.isSome_map]
    cases found : left.scopes.parent? id with
    | none => rfl
    | some parent => rw [Option.bind_some, Option.bind_some, ih parent found]

theorem define (shifted : Shifted old gap left right) (id : ScopeId) (name : String)
    (value : Value) : Shifted old gap ⟨left.scopes.define id name value, left.heap⟩
      ⟨right.scopes.define id name (value.shift old gap), right.heap⟩ := by
  refine { shifted with
    scopes := by simp [shifted.scopes]
    own := fun other sought => ?_
    linked := fun other => by simp [shifted.linked] }
  by_cases made : id < left.scopes.size
  · rw [ScopeTree.own?_define _ _ _ _ _ _ made,
      ScopeTree.own?_define _ _ _ _ _ _ (shifted.scopes ▸ made), shifted.own]
    split <;> rfl
  · have absent := Nat.le_of_not_lt made
    rw [ScopeTree.own?_define_of_absent absent,
      ScopeTree.own?_define_of_absent (shifted.scopes ▸ absent), shifted.own]

theorem enter (shifted : Shifted old gap left right) (parent : Option ScopeId) :
    Shifted old gap ⟨left.scopes.add parent, left.heap⟩
      ⟨right.scopes.add parent, right.heap⟩ :=
  { shifted with
    scopes := by simp [shifted.scopes]
    own := fun other sought => by simp [shifted.own]
    linked := fun other => by
      rw [ScopeTree.parent?_add, ScopeTree.parent?_add, shifted.scopes, shifted.linked] }

theorem makeArray (shifted : Shifted old gap left right) (items : List Value) :
    Shifted old gap ⟨left.scopes, left.heap.add items.toArray⟩
      ⟨right.scopes, right.heap.add (items.map (Value.shift old gap)).toArray⟩ := by
  have sizes (heap : Heap) (made : Array Value) : (heap.add made).size = heap.size + 1 := by
    simp [Heap.add, Heap.size]
  have fresh : right.heap.size = renumber old gap left.heap.size :=
    shifted.arrays.trans (renumber_of_le shifted.started).symm
  refine { shifted with
    started := by rw [sizes]; exact Nat.le_succ_of_le shifted.started
    arrays := by rw [sizes, sizes, shifted.arrays, Nat.add_right_comm]
    elements := fun other => ?_ }
  rw [Heap.elements_add, Heap.elements_add, fresh]
  simp only [renumber_inj]
  split
  · simp
  · exact shifted.elements other

/-- The same change of an array on both sides. -/
theorem modify (shifted : Shifted old gap left right) (array : ArrayId)
    {change change' : Array Value → Array Value}
    (same : ∀ items, change' (items.map (Value.shift old gap)) =
      (change items).map (Value.shift old gap)) :
    Shifted old gap ⟨left.scopes, ⟨left.heap.arrays.modify array change⟩⟩
      ⟨right.scopes, ⟨right.heap.arrays.modify (renumber old gap array) change'⟩⟩ := by
  refine { shifted with
    started := by simpa [Heap.size] using shifted.started
    arrays := by simpa [Heap.size] using shifted.arrays
    elements := fun other => ?_ }
  rw [Heap.elements_modify, Heap.elements_modify, shifted.arrays, shifted.elements]
  simp only [renumber_inj, renumber_lt_iff shifted.started]
  split
  · exact same _
  · rfl

end Store.Shifted

/-- A run beside one on a machine where `gap` more arrays were made behind the first `old`. -/
def repetition (old gap : Nat) : Simulation where
  Stage := Unit
  grows _ _ := True
  grows_refl _ := trivial
  grows_trans _ _ := trivial
  scopes _ := Eq
  arrays _ id id' := renumber old gap id = id'
  scopes_grow _ _ _ same := same
  arrays_grow _ _ _ same := same
  stores _ := Store.Shifted old gap
  declares _ _ _ := True
  declares_grow _ _ _ _ _ _ := trivial
  heaps shifted :=
    { elements := by
        rintro first _ rfl
        rw [shifted.elements, Array.toList_map]
        exact Value.forall₂_corresponds_shift_iff.mpr rfl
      made := by
        rintro first _ rfl
        rw [shifted.arrays, renumber_lt_iff shifted.started]
      apart := by
        rintro first _ third _ rfl rfl
        exact renumber_inj.symm }
  get := by
    rintro _ left right id _ shifted rfl name
    unfold ScopeTree.get?
    rw [shifted.owner?_eq]
    cases left.scopes.owner? id name with
    | none => exact .none
    | some owner =>
      rw [Option.bind_some, Option.bind_some, shifted.own]
      cases left.scopes.own? owner name with
      | none => exact .none
      | some value => exact .some (Value.corresponds_shift_iff.mpr rfl)
  assign := by
    rintro _ left right id _ value _ shifted rfl same name
    obtain rfl := Value.corresponds_shift_iff.mp same
    unfold ScopeTree.assign?
    rw [shifted.owner?_eq]
    cases left.scopes.owner? id name with
    | none => exact .none
    | some owner => exact .some ⟨(), trivial, shifted.define owner name value⟩
  define := by
    rintro _ left right id _ value _ shifted rfl same name _
    obtain rfl := Value.corresponds_shift_iff.mp same
    exact ⟨(), trivial, shifted.define id name value⟩
  enter := by
    rintro _ left right parent _ shifted rfl
    exact ⟨(), trivial, shifted.enter (some parent), shifted.scopes.symm, fun _ => trivial⟩
  makeArray := by
    rintro _ left right items _ shifted same
    obtain rfl := Value.forall₂_corresponds_shift_iff.mp same
    exact ⟨(), trivial, shifted.makeArray items,
      (renumber_of_le shifted.started).trans shifted.arrays.symm⟩
  write := by
    rintro _ left right array _ value _ shifted rfl same place
    obtain rfl := Value.corresponds_shift_iff.mp same
    exact shifted.modify array fun items => by simp
  append := by
    rintro _ left right array _ value _ shifted rfl same
    obtain rfl := Value.corresponds_shift_iff.mp same
    exact shifted.modify array fun items => by simp

namespace Machine

variable {machine : Machine} {made more again : Array (Array Value)}

/-- In a sound machine nothing refers to arrays to come, so all is as before when some are made. -/
theorem Sound.shifted (sound : machine.Sound) (made : Array (Array Value)) :
    Store.Shifted machine.heap.size made.size machine.store (machine.make made).store := by
  have kept {cell : Cell} {value : Value} (leads : ∀ target ∈ value.cells,
      machine.store.Points cell target) : value.shift machine.heap.size made.size = value :=
    Value.shift_eq_self fun id refers => sound.closed cell _ (leads _ refers)
  refine ⟨rfl, fun id name => ?_, fun _ => rfl, Nat.le_refl _, ?_, fun id => ?_⟩
  · show machine.scopes.own? id name = (machine.scopes.own? id name).map _
    cases found : machine.scopes.own? id name with
    | none => rfl
    | some value => exact congrArg some (kept fun _ refers => .bound found refers).symm
  · exact Array.size_append
  · show Heap.elements ⟨machine.heap.arrays ++ made⟩ _ = (machine.heap.elements id).map _
    by_cases known : id < machine.heap.size
    · have unshifted : (machine.heap.elements id).map (Value.shift machine.heap.size made.size) =
          machine.heap.elements id := by
        refine (Array.map_congr_left fun value member => ?_).trans (Array.map_id' _)
        exact kept fun _ refers => .element (Array.mem_toList_iff.mpr member) refers
      rw [unshifted, renumber_of_lt known, Heap.elements, Heap.elements,
        Array.getElem?_append_left known]
    · have absent := Nat.le_of_not_lt known
      rw [Heap.elements_eq_empty absent, renumber_of_le absent, Heap.elements_eq_empty]
      · exact Array.map_empty.symm
      · simp only [Heap.size, Array.size_append] at absent ⊢
        omega

theorem Sound.repeated (sound : machine.Sound) (made : Array (Array Value)) :
    (repetition machine.heap.size made.size).Machines () machine.active machine.active machine
      (machine.make made) :=
  ⟨sound.shifted made, rfl, rfl, rfl, rfl, rfl⟩

theorem size_make (machine : Machine) (made : Array (Array Value)) :
    (machine.make made).heap.size = machine.heap.size + made.size :=
  Array.size_append

theorem elements_make (machine : Machine) (made : Array (Array Value)) (place : Nat) :
    (machine.make made).heap.elements (machine.heap.size + place) = made[place]?.getD #[] := by
  show (machine.heap.arrays ++ made)[machine.heap.arrays.size + place]?.getD #[] = _
  rw [Array.getElem?_append_right (Nat.le_add_right _ _), Nat.add_sub_cancel_left]

/-- What a repetition makes is what was made first, shifted. -/
theorem again_of_shifted (shifted : Store.Shifted machine.heap.size made.size
    (machine.make made).store ((machine.make made).make again).store) :
    again = made.map (Array.map (Value.shift machine.heap.size made.size)) := by
  have size : again.size = made.size := by
    have sizes : ((machine.make made).make again).heap.size =
      (machine.make made).heap.size + made.size := shifted.arrays
    rw [size_make] at sizes
    exact Nat.add_left_cancel sizes
  apply Array.ext
  · rw [Array.size_map, size]
  · intro place inside inside'
    have shown : ((machine.make made).make again).heap.elements
        (renumber machine.heap.size made.size (machine.heap.size + place)) =
        ((machine.make made).heap.elements (machine.heap.size + place)).map _ :=
      shifted.elements (machine.heap.size + place)
    rw [renumber_of_le (Nat.le_add_right _ _), Nat.add_right_comm, ← size_make, elements_make,
      elements_make] at shown
    simpa [inside, size ▸ inside] using shown

end Machine

/-- A run and its repetition settle on the same, shifted, and make the same arrays, shifted. -/
theorem Result.settled_again {machine : Machine} {made again : Array (Array Value)}
    {outcome outcome' : Except RuntimeError Value}
    (ends : (repetition machine.heap.size made.size).Ends .together () machine.active machine.active
      (repetition machine.heap.size made.size).values (.settled outcome (machine.make made))
      (.settled outcome' ((machine.make made).make again))) :
    outcome' = outcome.map (Value.shift machine.heap.size made.size) ∧
      again = made.map (Array.map (Value.shift machine.heap.size made.size)) := by
  cases outcome with
  | ok value =>
    cases outcome' with
    | ok value' =>
      cases ends with
      | done _ machines same =>
        exact ⟨congrArg Except.ok (Value.corresponds_shift_iff.mp same).symm,
          Machine.again_of_shifted machines.stores⟩
    | error error => cases ends
  | error error =>
    cases outcome' with
    | ok value' => cases ends
    | error error' =>
      cases ends with
      | failed _ _ machines => exact ⟨rfl, Machine.again_of_shifted machines.stores⟩

/-- Evaluation of a plain expression comes to an end within a number of steps that depends on the
expression alone, and all that it changes is that arrays are made. Evaluated again it fails with the
same error or gives the same value, but for the numbers of the arrays made: all others, and all
functions, are the very same. -/
theorem plain_evaluation_repeats {expr : Expr} (plain : expr.Plain) {steps : Nat}
    (enough : expr.depth ≤ steps) (machine : Machine) :
    ∃ outcome made, evaluate steps expr machine = .settled outcome (machine.make made) ∧
      (machine.Sound →
        let shift := Value.shift machine.heap.size made.size
        evaluate steps expr (machine.make made) =
          .settled (outcome.map shift) ((machine.make made).make (made.map (Array.map shift)))) := by
  obtain ⟨outcome, made, first⟩ := plain.builds enough machine
  obtain ⟨outcome', again, second⟩ := plain.builds enough (machine.make made)
  refine ⟨outcome, made, first, fun sound => ?_⟩
  have runs := ((repetition machine.heap.size made.size).runs .together steps steps rfl).1
    () machine.active machine.active rfl expr
  have ends := runs () machine (machine.make made) trivial (sound.repeated made)
  rw [first, second] at ends
  obtain ⟨rfl, rfl⟩ := Result.settled_again ends
  exact second

/-- An array literal, which makes another array each time. -/
theorem plain_evaluation_repeats_literal :
    let machine := Machine.fresh (fun _ => 0) .unlimited
    let literal := Expr.array ⟨.plain .rightBracket, "]", 1⟩ [.literal .nil]
    ∃ outcome made, evaluate 2 literal machine = .settled outcome (machine.make made) ∧
      evaluate 2 literal (machine.make made) =
        .settled (outcome.map (Value.shift 0 made.size)) ((machine.make made).make
          (made.map (Array.map (Value.shift 0 made.size)))) := by
  have plain : Expr.Plain (.array ⟨.plain .rightBracket, "]", 1⟩ [.literal .nil]) := by
    refine .array _ fun element member => ?_
    obtain rfl := List.mem_singleton.mp member
    exact .literal .nil
  have enough : Expr.depth (.array ⟨.plain .rightBracket, "]", 1⟩ [.literal .nil]) ≤ 2 := by decide
  obtain ⟨outcome, made, first, again⟩ :=
    plain_evaluation_repeats plain enough (.fresh (fun _ => 0) .unlimited)
  exact ⟨outcome, made, first, again (Machine.rooted_fresh _ _).toSound⟩

end Script
