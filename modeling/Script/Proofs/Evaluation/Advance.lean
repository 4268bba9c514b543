import Script.Proofs.Evaluation.Truncation

/-! What runs do to the arrays that exist. Code makes new ones and overwrites elements, and all else
is up to the functions of the host; so unless one of these changes the length of an array, nothing
does. -/

namespace Script

/-- An order of heaps in which arrays may be made and elements overwritten. -/
structure Heap.Order (later : Heap → Heap → Prop) : Prop where
  refl : ∀ heap, later heap heap
  trans : ∀ {first second third}, later first second → later second third → later first third
  add : ∀ heap items, later heap (heap.add items)
  write : ∀ heap array place value, later heap (heap.write array place value)

/-- However the computation ends, the heap is later than before. -/
def Eval.Advances {α : Type} (later : Heap → Heap → Prop) (run : Eval α) : Prop :=
  ∀ machine after, (run machine).machine? = some after → later machine.heap after.heap

/-- The functions of the host leave a later heap than they find. -/
def Host.Advances [Host] (later : Heap → Heap → Prop) : Prop :=
  ∀ key arguments, (Host.call key arguments).Advances later

namespace Heap.Order

variable {later : Heap → Heap → Prop} {α β : Type} {run : Eval α}

/-- A computation that leaves the heap as it is. -/
theorem still (order : Order later)
    (same : ∀ machine after, (run machine).machine? = some after → after.heap = machine.heap) :
    run.Advances later := by
  intro machine after ended
  rw [same machine after ended]
  exact order.refl machine.heap

theorem pure (order : Order later) (value : α) :
    (Pure.pure value : Eval α).Advances later := by
  refine order.still fun machine after ended => ?_
  cases ended
  rfl

theorem exhausted : (Eval.exhausted : Eval α).Advances later := nofun

theorem raise (order : Order later) (token : Token) (cause : RuntimeCause) :
    (Eval.raise token cause : Eval α).Advances later := by
  refine order.still fun machine after ended => ?_
  cases ended
  rfl

theorem inspect (order : Order later) (view : Machine → α) :
    (Eval.inspect view).Advances later := by
  refine order.still fun machine after ended => ?_
  cases ended
  rfl

theorem bind (order : Order later) {next : α → Eval β} (first : run.Advances later)
    (others : ∀ value, (next value).Advances later) : (run >>= next).Advances later := by
  intro machine after ended
  change (Eval.bind run next machine).machine? = some after at ended
  unfold Eval.bind at ended
  have start := first machine
  cases result : run machine with
  | done value middle =>
    rw [result] at start ended
    exact order.trans (start middle rfl) (others value middle after ended)
  | failed failure middle =>
    rw [result] at start ended
    exact start after ended
  | exhausted =>
    rw [result] at ended
    cases ended

theorem require (order : Order later) (token : Token) (result : Except RuntimeCause α) :
    (Eval.require token result).Advances later := by
  cases result with
  | ok value => exact order.pure value
  | error cause => exact order.raise token cause

theorem lookUp (order : Order later) (name : Token) : (Eval.lookUp name).Advances later := by
  refine order.still fun machine after ended => ?_
  unfold Eval.lookUp at ended
  split at ended <;> cases ended <;> rfl

theorem define (order : Order later) (name : String) (value : Value) :
    (Eval.define name value).Advances later := by
  refine order.still fun machine after ended => ?_
  cases ended
  rfl

theorem assign (order : Order later) (name : Token) (value : Value) :
    (Eval.assign name value).Advances later := by
  refine order.still fun machine after ended => ?_
  unfold Eval.assign at ended
  split at ended <;> cases ended <;> rfl

theorem print (order : Order later) (text : String) : (Eval.write text).Advances later := by
  refine order.still fun machine after ended => ?_
  unfold Eval.write at ended
  dsimp only at ended
  split at ended <;> cases ended <;> rfl

theorem newFunction (order : Order later) (callable : Callable) :
    (Eval.newFunction callable).Advances later := by
  refine order.still fun machine after ended => ?_
  cases ended
  rfl

theorem newArray (order : Order later) (items : List Value) :
    (Eval.newArray items).Advances later := by
  intro machine after ended
  cases ended
  exact order.add machine.heap items.toArray

theorem writeElement (order : Order later) (array : ArrayId) (place : Nat) (value : Value) :
    (Eval.writeElement array place value).Advances later := by
  intro machine after ended
  cases ended
  exact order.write machine.heap array place value

theorem readClock (order : Order later) : Eval.readClock.Advances later := by
  refine order.still fun machine after ended => ?_
  cases ended
  rfl

theorem inScope (parent : Option ScopeId) (body : run.Advances later) :
    (Eval.inScope parent run).Advances later := by
  intro machine after ended
  rw [Eval.inScope_eq, Result.machine?_withActive] at ended
  obtain ⟨inner, finished, rfl⟩ := Option.map_eq_some_iff.mp ended
  exact body (machine.enter parent) inner finished

variable {evaluates : Expr → Eval Value} {executes : Stmt → Eval Flow}

theorem evaluateAll (order : Order later) (inner : ∀ expr, (evaluates expr).Advances later)
    (list : List Expr) : (evaluateAll evaluates list).Advances later := by
  induction list with
  | nil => exact order.pure []
  | cons expr rest ih =>
    refine order.bind (inner expr) fun value => ?_
    exact order.bind ih fun values => order.pure (value :: values)

theorem executeAll (order : Order later) (inner : ∀ stmt, (executes stmt).Advances later)
    (list : List Stmt) : (executeAll executes list).Advances later := by
  induction list with
  | nil => exact order.pure Flow.normal
  | cons stmt rest ih =>
    refine order.bind (inner stmt) fun flow => ?_
    cases flow with
    | normal => exact ih
    | returned value => exact order.pure (Flow.returned value)

theorem evaluateOptional (order : Order later) (inner : ∀ expr, (evaluates expr).Advances later)
    (expr : Option Expr) : (evaluateOptional evaluates expr).Advances later := by
  cases expr with
  | none => exact order.pure Value.nil
  | some expr => exact inner expr

theorem subscriptTarget (order : Order later) (inner : ∀ expr, (evaluates expr).Advances later)
    (object : Expr) (bracket : Token) (index : Expr) :
    (subscriptTarget evaluates object bracket index).Advances later := by
  refine order.bind (inner object) fun value => ?_
  cases value with
  | array array =>
    refine order.bind (inner index) fun value => ?_
    cases value with
    | number number => exact order.pure (array, number)
    | _ => exact order.raise bracket .notAnIndex
  | _ => exact order.raise bracket .notSubscriptable

theorem locate (order : Order later) (array : ArrayId) (bracket : Token) (number : Float) :
    (locate array bracket number).Advances later :=
  order.bind (order.inspect _) fun place => order.require bracket place

theorem bindParameters (order : Order later) (parameters : List Token) (arguments : List Value) :
    (bindParameters parameters arguments).Advances later := by
  induction parameters generalizing arguments with
  | nil => exact order.pure ()
  | cons parameter parameters ih =>
    cases arguments with
    | nil => exact order.pure ()
    | cons argument arguments =>
      exact order.bind (order.define parameter.lexeme argument) fun _ => ih arguments

section Hosted

variable [Host]

theorem native (order : Order later) (hosts : Host.Advances later) (native : Native) (paren : Token)
    (arguments : List Value) : (native.run paren arguments).Advances later := by
  cases native with
  | clock => exact order.bind order.readClock fun now => order.pure (Value.number now)
  | supplied key =>
    refine order.bind (hosts key arguments) fun reply => ?_
    cases reply with
    | ok value => exact order.pure value
    | error message => exact order.raise paren (.host message)

/-- A call advances the heap if the host and the statements of a body do. -/
theorem invoke (order : Order later) (hosts : Host.Advances later)
    (inner : ∀ stmt, (executes stmt).Advances later) (callee : Value) (paren : Token)
    (arguments : List Value) : (invoke executes callee paren arguments).Advances later := by
  cases callee with
  | function id callable =>
    by_cases fits : arguments.length = callable.arity
    · cases callable with
      | host name arity native =>
        rw [invoke_host (show arguments.length = arity from fits)]
        exact order.native hosts native paren arguments
      | declared declaration closure =>
        rw [invoke_declared (show arguments.length = declaration.parameters.length from fits)]
        refine order.bind (inScope (some closure) ?_) fun flow => ?_
        · refine order.bind (order.bindParameters declaration.parameters arguments) fun _ => ?_
          exact order.executeAll inner declaration.body
        · cases flow with
          | normal => exact order.pure Value.nil
          | returned value => exact order.pure value
    · rw [invoke_misfit fits]
      exact order.raise paren _
  | _ => exact order.raise paren .notCallable

variable {steps : Nat}

/-- One more step of an expression advances the heap if what it calls does. -/
theorem evaluate_step (order : Order later) (hosts : Host.Advances later)
    (evaluates : ∀ expr, (evaluate steps expr).Advances later)
    (executes : ∀ stmt, (execute steps stmt).Advances later) (expr : Expr) :
    (evaluate (steps + 1) expr).Advances later := by
  cases expr with
  | literal literal => exact order.pure literal.value
  | grouping inner => exact evaluates inner
  | reference name => exact order.lookUp name
  | assign name value =>
    refine order.bind (evaluates value) fun value => ?_
    exact order.bind (order.assign name value) fun _ => order.pure value
  | logical left operator right =>
    refine order.bind (evaluates left) fun left => ?_
    split
    · exact order.pure left
    · exact evaluates right
  | unary operator right =>
    exact order.bind (evaluates right) fun right => order.require operator _
  | binary left operator right =>
    refine order.bind (evaluates left) fun left => order.bind (evaluates right) fun right => ?_
    exact order.bind (order.inspect _) fun result => order.require operator result
  | call callee paren arguments =>
    refine order.bind (evaluates callee) fun callee => ?_
    refine order.bind (order.evaluateAll evaluates arguments) fun arguments => ?_
    exact order.invoke hosts executes callee paren arguments
  | array bracket elements =>
    exact order.bind (order.evaluateAll evaluates elements) order.newArray
  | subscript object bracket index =>
    refine order.bind (order.subscriptTarget evaluates object bracket index) fun target => ?_
    refine order.bind (order.locate target.1 bracket target.2) fun place => ?_
    exact order.inspect _
  | store object bracket index value =>
    refine order.bind (order.subscriptTarget evaluates object bracket index) fun target => ?_
    refine order.bind (evaluates value) fun value => ?_
    refine order.bind (order.locate target.1 bracket target.2) fun place => ?_
    exact order.bind (order.writeElement target.1 place value) fun _ => order.pure value

/-- One more step of a statement advances the heap if what it calls does. -/
theorem execute_step (order : Order later)
    (evaluates : ∀ expr, (evaluate steps expr).Advances later)
    (executes : ∀ stmt, (execute steps stmt).Advances later) (stmt : Stmt) :
    (execute (steps + 1) stmt).Advances later := by
  cases stmt with
  | expression value => exact order.bind (evaluates value) fun _ => order.pure Flow.normal
  | print value =>
    refine order.bind (evaluates value) fun value => order.bind (order.inspect _) fun text => ?_
    exact order.bind (order.print _) fun _ => order.pure Flow.normal
  | declare name initial =>
    refine order.bind (order.evaluateOptional evaluates initial) fun value => ?_
    exact order.bind (order.define name.lexeme value) fun _ => order.pure Flow.normal
  | block statements =>
    refine order.bind (order.inspect _) fun scope => ?_
    exact inScope (some scope) (order.executeAll executes statements)
  | branch condition consequence alternative =>
    refine order.bind (evaluates condition) fun value => ?_
    split
    · exact executes consequence
    · cases alternative with
      | none => exact order.pure Flow.normal
      | some alternative => exact executes alternative
  | loop condition body =>
    refine order.bind (evaluates condition) fun value => ?_
    split
    · refine order.bind (executes body) fun flow => ?_
      cases flow with
      | returned value => exact order.pure (Flow.returned value)
      | normal => exact executes (.loop condition body)
    · exact order.pure Flow.normal
  | function name parameters body =>
    refine order.bind (order.inspect _) fun closure => ?_
    refine order.bind (order.newFunction _) fun function => ?_
    exact order.bind (order.define name.lexeme function) fun _ => order.pure Flow.normal
  | returning keyword value =>
    exact order.bind (order.evaluateOptional evaluates value) fun value =>
      order.pure (Flow.returned value)

/-- Runs advance the heap if the functions of the host do, by induction on the steps allowed. -/
theorem runs (order : Order later) (hosts : Host.Advances later) (steps : Nat) :
    (∀ expr, (evaluate steps expr).Advances later) ∧
      ∀ stmt, (execute steps stmt).Advances later := by
  induction steps with
  | zero => exact ⟨fun _ => exhausted, fun _ => exhausted⟩
  | succ steps ih =>
    obtain ⟨evaluates, executes⟩ := ih
    exact ⟨order.evaluate_step hosts evaluates executes, order.execute_step evaluates executes⟩

end Hosted
end Heap.Order
end Script
