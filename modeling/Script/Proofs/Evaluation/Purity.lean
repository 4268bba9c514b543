import Script.Evaluation

/-! Expressions that assign nothing, write no element and call nothing. They are worked out within a
number of steps that only their form bounds, and leave the machine as it is but for new arrays. -/

namespace Script

variable {α β : Type}

/-- No assignment, no write of an element and no call occurs in the expression. -/
inductive Expr.Plain : Expr → Prop where
  | literal (value : Literal) : Plain (.literal value)
  | reference (name : Token) : Plain (.reference name)
  | grouping {inner : Expr} (plain : Plain inner) : Plain (.grouping inner)
  | unary {right : Expr} (operator : Token) (plain : Plain right) : Plain (.unary operator right)
  | binary {left right : Expr} (operator : Token) (first : Plain left) (second : Plain right) :
      Plain (.binary left operator right)
  | logical {left right : Expr} (operator : Token) (first : Plain left) (second : Plain right) :
      Plain (.logical left operator right)
  | array {elements : List Expr} (bracket : Token) (each : ∀ element ∈ elements, Plain element) :
      Plain (.array bracket elements)
  | subscript {object index : Expr} (bracket : Token) (first : Plain object)
      (second : Plain index) : Plain (.subscript object bracket index)

mutual

/-- How many nodes lie on the longest way down into an expression. -/
def Expr.depth : Expr → Nat
  | .literal _ | .reference _ => 1
  | .assign _ inner | .grouping inner | .unary _ inner => inner.depth + 1
  | .binary left _ right | .logical left _ right | .subscript left _ right =>
    max left.depth right.depth + 1
  | .call callee _ arguments => max callee.depth (Expr.greatestDepth arguments) + 1
  | .array _ elements => Expr.greatestDepth elements + 1
  | .store object _ index value => max (max object.depth index.depth) value.depth + 1

def Expr.greatestDepth : List Expr → Nat
  | [] => 0
  | first :: rest => max first.depth (Expr.greatestDepth rest)

end

theorem Expr.depth_pos (expr : Expr) : 0 < expr.depth := by
  cases expr <;> exact Nat.succ_pos _

theorem Expr.depth_le_greatestDepth {expr : Expr} {exprs : List Expr} (member : expr ∈ exprs) :
    expr.depth ≤ greatestDepth exprs := by
  induction exprs with
  | nil => cases member
  | cons first rest ih =>
    rcases List.mem_cons.mp member with rfl | inner
    · exact Nat.le_max_left _ _
    · exact Nat.le_trans (ih inner) (Nat.le_max_right _ _)

/-- The machine with some arrays more. -/
def Machine.make (machine : Machine) (made : Array (Array Value)) : Machine :=
  { machine with heap := ⟨machine.heap.arrays ++ made⟩ }

namespace Machine

theorem make_empty (machine : Machine) : machine.make #[] = machine := by
  simp [make]

theorem make_make (machine : Machine) (made more : Array (Array Value)) :
    (machine.make made).make more = machine.make (made ++ more) := by
  simp [make, Array.append_assoc]

end Machine

/-- The end of a run that settles on a value or on a runtime error. -/
def Result.settled (outcome : Except RuntimeError α) (after : Machine) : Result α :=
  match outcome with
  | .ok value => .done value after
  | .error error => .failed (.runtime error) after

/-- From every machine the computation settles, and all that it changes is that arrays are made. -/
def Eval.Builds (run : Eval α) : Prop :=
  ∀ machine, ∃ outcome made, run machine = .settled outcome (machine.make made)

namespace Eval.Builds

theorem pure (value : α) : (Pure.pure value : Eval α).Builds := fun machine =>
  ⟨.ok value, #[], by rw [machine.make_empty]; rfl⟩

theorem raise (token : Token) (cause : RuntimeCause) : (Eval.raise token cause : Eval α).Builds :=
  fun machine => ⟨.error ⟨cause, token.line⟩, #[], by rw [machine.make_empty]; rfl⟩

theorem inspect (view : Machine → α) : (Eval.inspect view).Builds := fun machine =>
  ⟨.ok (view machine), #[], by rw [machine.make_empty]; rfl⟩

theorem bind {run : Eval α} {next : α → Eval β} (first : run.Builds)
    (others : ∀ value, (next value).Builds) : (run >>= next).Builds := by
  intro machine
  show ∃ outcome made, Eval.bind run next machine = .settled outcome (machine.make made)
  unfold Eval.bind
  obtain ⟨outcome, made, ended⟩ := first machine
  rw [ended]
  cases outcome with
  | error error => exact ⟨.error error, made, rfl⟩
  | ok value =>
    obtain ⟨outcome, more, ended⟩ := others value (machine.make made)
    exact ⟨outcome, made ++ more, by rw [← machine.make_make]; exact ended⟩

theorem require (token : Token) (result : Except RuntimeCause α) :
    (Eval.require token result).Builds := by
  cases result with
  | ok value => exact pure value
  | error cause => exact raise token cause

theorem lookUp (name : Token) : (Eval.lookUp name).Builds := by
  intro machine
  unfold Eval.lookUp
  cases machine.scopes.get? machine.active name.lexeme with
  | some value => exact pure value machine
  | none => exact raise name (.undefined name.lexeme) machine

theorem newArray (items : List Value) : (Eval.newArray items).Builds := fun machine =>
  ⟨.ok (.array machine.heap.size), #[items.toArray], by
    simp [Eval.newArray, Result.settled, Machine.make, Heap.add]⟩

theorem evaluateAll {run : Expr → Eval Value} {exprs : List Expr}
    (each : ∀ expr ∈ exprs, (run expr).Builds) : (Script.evaluateAll run exprs).Builds := by
  induction exprs with
  | nil => exact pure []
  | cons expr rest ih =>
    obtain ⟨first, others⟩ := List.forall_mem_cons.mp each
    exact first.bind fun value => (ih others).bind fun values => pure (value :: values)

theorem subscriptTarget {run : Expr → Eval Value} {object index : Expr}
    (first : (run object).Builds) (second : (run index).Builds) (bracket : Token) :
    (Script.subscriptTarget run object bracket index).Builds := by
  refine first.bind fun value => ?_
  cases value with
  | array array =>
    refine second.bind fun value => ?_
    cases value with
    | number number => exact pure (array, number)
    | _ => exact raise bracket .notAnIndex
  | _ => exact raise bracket .notSubscriptable

theorem locate (array : ArrayId) (bracket : Token) (number : Float) :
    (Script.locate array bracket number).Builds :=
  (inspect _).bind fun place => require bracket place

end Eval.Builds

/-- A plain expression is worked out within as many steps as it is deep, and makes arrays only. -/
theorem Expr.Plain.builds {expr : Expr} (plain : expr.Plain) {steps : Nat}
    (enough : expr.depth ≤ steps) : (evaluate steps expr).Builds := by
  induction steps generalizing expr with
  | zero => exact absurd expr.depth_pos (Nat.not_lt.mpr enough)
  | succ steps ih =>
    cases plain with
    | literal value => exact .pure value.value
    | reference name => exact .lookUp name
    | grouping plain => exact ih plain (Nat.le_of_succ_le_succ enough)
    | unary operator plain =>
      have right := ih plain (Nat.le_of_succ_le_succ enough)
      exact right.bind fun value => .require operator _
    | binary operator first second =>
      obtain ⟨within, within'⟩ := Nat.max_le.mp (Nat.le_of_succ_le_succ enough)
      refine (ih first within).bind fun left => (ih second within').bind fun right => ?_
      exact (Eval.Builds.inspect _).bind fun result => .require operator result
    | logical operator first second =>
      obtain ⟨within, within'⟩ := Nat.max_le.mp (Nat.le_of_succ_le_succ enough)
      refine (ih first within).bind fun left => ?_
      split
      · exact .pure left
      · exact ih second within'
    | @array elements bracket each =>
      have within := Nat.le_of_succ_le_succ enough
      have items : (evaluateAll (evaluate steps) elements).Builds :=
        .evaluateAll fun element member =>
          ih (each element member) (Nat.le_trans (depth_le_greatestDepth member) within)
      exact items.bind fun values => .newArray values
    | subscript bracket first second =>
      obtain ⟨within, within'⟩ := Nat.max_le.mp (Nat.le_of_succ_le_succ enough)
      refine (Eval.Builds.subscriptTarget (ih first within) (ih second within') bracket).bind ?_
      rintro ⟨array, number⟩
      exact (Eval.Builds.locate array bracket number).bind fun place => .inspect _

end Script
