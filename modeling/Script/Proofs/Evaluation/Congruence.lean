import Script.Evaluation
import Script.Proofs.Value.Recast

/-! Relations between computations that the constructs of the language keep. Whatever relates each
elementary step to the same step on recast code, and computations in a row if it relates each of
them, relates every run to the run of the recast code. -/

namespace Script

/-- What is seen of a run that ends: how it ends, and all that was written. -/
def Result.report {α : Type} : Result α → Option (Except Failure α × Array UInt8)
  | .done value after => some (.ok value, after.output.written)
  | .failed failure after => some (.error failure, after.output.written)
  | .exhausted => none

namespace Recast

variable (change : Recast)

def flow : Flow → Flow
  | .normal => .normal
  | .returned value => .returned (change.value value)

/-- `Relates image run run'` is to say that `run'` does on recast code what `run` does, with the
results that `image` has for those of `run`. -/
structure Congruence (Relates : ∀ {α : Type}, (α → α) → Eval α → Eval α → Prop) : Prop where
  pure : ∀ {α : Type} (image : α → α) (value : α),
    Relates image (Pure.pure value) (Pure.pure (image value))
  bind : ∀ {α β : Type} {image : α → α} {further : β → β} {run run' : Eval α}
    {next next' : α → Eval β}, Relates image run run' →
    (∀ value, Relates further (next value) (next' (image value))) →
    Relates further (run >>= next) (run' >>= next')
  exhausted : ∀ {α : Type} (image : α → α), Relates image Eval.exhausted Eval.exhausted
  raise : ∀ {α : Type} (image : α → α) (token : Token) (cause : RuntimeCause),
    Relates image (Eval.raise token cause) (Eval.raise (change.token token) cause)
  inspect : ∀ {α : Type} (image : α → α) (view view' : Heap → α),
    (∀ heap, view' (heap.map change.value) = image (view heap)) →
    Relates image (Eval.inspect fun machine => view machine.heap)
      (Eval.inspect fun machine => view' machine.heap)
  activeScope : Relates id Eval.activeScope Eval.activeScope
  inScope : ∀ {α : Type} {image : α → α} {run run' : Eval α} (parent : Option ScopeId),
    Relates image run run' → Relates image (Eval.inScope parent run) (Eval.inScope parent run')
  lookUp : ∀ name, Relates change.value (Eval.lookUp name) (Eval.lookUp (change.token name))
  define : ∀ name value,
    Relates id (Eval.define name value) (Eval.define name (change.value value))
  assign : ∀ name value,
    Relates id (Eval.assign name value) (Eval.assign (change.token name) (change.value value))
  newArray : ∀ items, Relates change.value (Eval.newArray items)
    (Eval.newArray (items.map change.value))
  newFunction : ∀ callable, Relates change.value (Eval.newFunction callable)
    (Eval.newFunction (change.callable callable))
  writeElement : ∀ array place value, Relates id (Eval.writeElement array place value)
    (Eval.writeElement array place (change.value value))
  appendElement : ∀ array value, Relates id (Eval.appendElement array value)
    (Eval.appendElement array (change.value value))
  readClock : Relates id Eval.readClock Eval.readClock
  write : ∀ text, Relates id (Eval.write text) (Eval.write text)
  flush : Relates id Eval.flush Eval.flush

end Recast

/-- Nothing behind a return is executed. -/
theorem executeAll_returning (steps : Nat) (keyword : Token) (value : Option Expr)
    (rest : List Stmt) :
    executeAll (execute steps) (.returning keyword value :: rest) =
      executeAll (execute steps) [.returning keyword value] := by
  cases steps with
  | zero => rfl
  | succ steps =>
    funext machine
    show Eval.bind (Eval.bind (evaluateOptional (evaluate steps) value) _) _ machine =
      Eval.bind (Eval.bind (evaluateOptional (evaluate steps) value) _) _ machine
    unfold Eval.bind
    cases evaluateOptional (evaluate steps) value machine <;> rfl

namespace Recast.Congruence

variable {change : Recast} {Relates : ∀ {α : Type}, (α → α) → Eval α → Eval α → Prop}
  {steps : Nat}

theorem require {α : Type} (kept : change.Congruence Relates) (image : α → α) (token : Token)
    (result : Except RuntimeCause α) :
    Relates image (Eval.require token result)
      (Eval.require (change.token token) (result.map image)) := by
  cases result with
  | ok value => exact kept.pure image value
  | error cause => exact kept.raise image token cause

theorem evaluateAll (kept : change.Congruence Relates) {run run' : Expr → Eval Value}
    (evaluates : ∀ expr, Relates change.value (run expr) (run' (change.expr expr)))
    (list : List Expr) :
    Relates (List.map change.value) (evaluateAll run list)
      (evaluateAll run' (change.exprs list)) := by
  induction list with
  | nil => exact kept.pure (List.map change.value) []
  | cons expr rest ih =>
    apply kept.bind (evaluates expr)
    intro value
    apply kept.bind ih
    intro values
    exact kept.pure (List.map change.value) (value :: values)

theorem evaluateOptional (kept : change.Congruence Relates) {run run' : Expr → Eval Value}
    (evaluates : ∀ expr, Relates change.value (run expr) (run' (change.expr expr)))
    (expr : Option Expr) :
    Relates change.value (evaluateOptional run expr)
      (evaluateOptional run' (expr.map change.expr)) := by
  cases expr with
  | none => exact kept.pure change.value .nil
  | some expr => exact evaluates expr

theorem subscriptTarget (kept : change.Congruence Relates) {run run' : Expr → Eval Value}
    (evaluates : ∀ expr, Relates change.value (run expr) (run' (change.expr expr)))
    (object : Expr) (bracket : Token) (index : Expr) :
    Relates id (subscriptTarget run object bracket index)
      (subscriptTarget run' (change.expr object) (change.token bracket) (change.expr index)) := by
  apply kept.bind (evaluates object)
  intro value
  cases value with
  | array array =>
    apply kept.bind (evaluates index)
    intro value
    cases value with
    | number number => exact kept.pure id (array, number)
    | _ => exact kept.raise id bracket .notAnIndex
  | _ => exact kept.raise id bracket .notSubscriptable

theorem locate (kept : change.Congruence Relates) (array : ArrayId) (bracket : Token)
    (number : Float) :
    Relates id (locate array bracket number) (locate array (change.token bracket) number) := by
  apply kept.bind (kept.inspect id (arrayPlace · array number) (arrayPlace · array number)
    fun heap => change.arrayPlace_value heap array number)
  intro place
  have required := kept.require id bracket place
  rwa [Except.map_id] at required

theorem bindParameters (kept : change.Congruence Relates) (parameters : List Token)
    (arguments : List Value) :
    Relates id (bindParameters parameters arguments)
      (bindParameters (parameters.map change.token) (arguments.map change.value)) := by
  induction parameters generalizing arguments with
  | nil => exact kept.pure id ()
  | cons parameter parameters ih =>
    cases arguments with
    | nil => exact kept.pure id ()
    | cons argument arguments =>
      apply kept.bind (kept.define parameter.lexeme argument)
      intro _
      exact ih arguments

/-- What can be read off the heap about a value is the same. -/
theorem text (kept : change.Congruence Relates) (shown : Value) :
    Relates id (Eval.inspect fun machine => shown.text machine.heap)
      (Eval.inspect fun machine => (change.value shown).text machine.heap) :=
  kept.inspect id shown.text (change.value shown).text fun heap => change.text_value heap shown

theorem equals (kept : change.Congruence Relates) (left right : Value) :
    Relates id (Eval.inspect fun machine => left.equals machine.heap right)
      (Eval.inspect fun machine => (change.value left).equals machine.heap (change.value right)) :=
  kept.inspect id (left.equals · right) ((change.value left).equals · (change.value right))
    fun heap => change.equals_value heap left right

theorem size (kept : change.Congruence Relates) (array : ArrayId) :
    Relates id (Eval.inspect fun machine => (machine.heap.elements array).size)
      (Eval.inspect fun machine => (machine.heap.elements array).size) :=
  kept.inspect id (fun heap => (heap.elements array).size) (fun heap => (heap.elements array).size)
    fun heap => by simp only [Heap.elements_map, Array.size_map, id]

theorem element (kept : change.Congruence Relates) (array : ArrayId) (place : Nat) :
    Relates change.value (Eval.inspect fun machine => (machine.heap.elements array).getD place .nil)
      (Eval.inspect fun machine => (machine.heap.elements array).getD place .nil) :=
  kept.inspect change.value (fun heap => (heap.elements array).getD place .nil)
    (fun heap => (heap.elements array).getD place .nil) fun heap => by
      simp only [Heap.elements_map, Array.getD_eq_getD_getElem?, Array.getElem?_map]
      cases (heap.elements array)[place]? <;> rfl

theorem binary (kept : change.Congruence Relates) (operator : Token) (left right : Value) :
    Relates (Except.map change.value)
      (Eval.inspect fun machine => Operator.binary machine.heap operator left right)
      (Eval.inspect fun machine => Operator.binary machine.heap (change.token operator)
        (change.value left) (change.value right)) :=
  kept.inspect (Except.map change.value) (Operator.binary · operator left right)
    (Operator.binary · (change.token operator) (change.value left) (change.value right))
    fun heap => change.binary_value heap operator left right

theorem twice (arguments : List Value) :
    HostOperation.twice (arguments.map change.value) =
      (HostOperation.twice arguments).map change.value := by
  cases arguments with
  | nil => rfl
  | cons first others =>
    cases others with
    | nil => cases first <;> rfl
    | cons second rest => cases first <;> rfl

/-- The operations of the host at hand. -/
theorem operation (kept : change.Congruence Relates) (operation : HostOperation)
    (arguments : List Value) :
    Relates (Except.map change.value) (operation.run arguments)
      (operation.run (arguments.map change.value)) := by
  have argument (place : Nat) :
      (arguments.map change.value).getD place .nil = change.value (arguments.getD place .nil) := by
    rw [List.getD_eq_getElem?_getD, List.getD_eq_getElem?_getD, List.getElem?_map]
    cases arguments[place]? <;> rfl
  cases operation with
  | typeName =>
    simp only [HostOperation.run, argument, typeName_value]
    exact kept.pure (Except.map change.value) (.ok (.string _))
  | text =>
    simp only [HostOperation.run, argument]
    apply kept.bind (kept.text _)
    intro text
    exact kept.pure (Except.map change.value) (.ok (.string text))
  | same =>
    simp only [HostOperation.run, argument]
    apply kept.bind (kept.equals _ _)
    intro equal
    exact kept.pure (Except.map change.value) (.ok (.boolean equal))
  | length =>
    simp only [HostOperation.run, argument]
    cases arguments.getD 0 .nil with
    | array id =>
      apply kept.bind (kept.size id)
      intro size
      exact kept.pure (Except.map change.value) (.ok (.number (Float.ofNat size)))
    | _ => exact kept.pure (Except.map change.value) (.error _)
  | append =>
    simp only [HostOperation.run, argument]
    cases arguments.getD 0 .nil with
    | array id =>
      apply kept.bind (kept.appendElement id _)
      intro _
      exact kept.pure (Except.map change.value) (.ok (.array id))
    | _ => exact kept.pure (Except.map change.value) (.error _)
  | double =>
    simp only [HostOperation.run, twice]
    exact kept.pure (Except.map change.value) (HostOperation.twice arguments)
  | collect =>
    apply kept.bind (kept.newArray arguments)
    intro made
    exact kept.pure (Except.map change.value) (.ok made)
  | refuse => exact kept.pure (Except.map change.value) (.error _)

theorem host (kept : change.Congruence Relates) (native : Native) (paren : Token)
    (arguments : List Value) :
    Relates change.value (native.run paren arguments)
      (native.run (change.token paren) (arguments.map change.value)) := by
  cases native with
  | clock =>
    apply kept.bind kept.readClock
    intro reading
    exact kept.pure change.value (.number reading)
  | supplied key =>
    have called : Relates (Except.map change.value) (Host.call key arguments)
        (Host.call key (arguments.map change.value)) := by
      simp only [Host.call]
      split
      · exact kept.operation _ arguments
      · exact kept.pure (Except.map change.value) (.error _)
    apply kept.bind called
    intro reply
    cases reply with
    | ok value => exact kept.pure change.value value
    | error message => exact kept.raise change.value paren (.host message)

/-- Statements in a row, of which recast code may leave out those behind a return. -/
theorem executeAll (kept : change.Congruence Relates)
    (executes : ∀ statement,
      Relates change.flow (execute steps statement) (execute steps (change.stmt statement)))
    (list : List Stmt) :
    Relates change.flow (executeAll (execute steps) list)
      (executeAll (execute steps) (change.stmts list)) := by
  have row (first : Stmt) {rest rest' : List Stmt}
      (others : Relates change.flow (Script.executeAll (execute steps) rest)
        (Script.executeAll (execute steps) rest')) :
      Relates change.flow (Script.executeAll (execute steps) (first :: rest))
        (Script.executeAll (execute steps) (change.stmt first :: rest')) := by
    apply kept.bind (executes first)
    intro flow
    cases flow with
    | normal => exact others
    | returned value => exact kept.pure change.flow (.returned value)
  induction list with
  | nil => exact kept.pure change.flow .normal
  | cons first rest ih =>
    -- The recast list may end at a return, and there both lists come to their end.
    by_cases cut : (change.trims && first.returns) = true
    · rw [stmts, if_pos cut]
      cases first with
      | returning keyword value =>
        rw [executeAll_returning]
        exact row (.returning keyword value) (kept.pure change.flow .normal)
      | _ => simp [Stmt.returns] at cut
    · rw [stmts, if_neg cut]
      exact row first ih

theorem invoke (kept : change.Congruence Relates)
    (executes : ∀ statement,
      Relates change.flow (execute steps statement) (execute steps (change.stmt statement)))
    (callee : Value) (paren : Token) (arguments : List Value) :
    Relates change.value (invoke (execute steps) callee paren arguments)
      (invoke (execute steps) (change.value callee) (change.token paren)
        (arguments.map change.value)) := by
  cases callee with
  | function id callable =>
    simp only [Script.invoke, value, callable_arity, List.length_map]
    split
    · cases callable with
      | host name arity native => exact kept.host native paren arguments
      | declared declaration closure =>
        have body : Relates change.flow
            (do
              Script.bindParameters declaration.parameters arguments
              Script.executeAll (execute steps) declaration.body)
            (do
              Script.bindParameters (declaration.parameters.map change.token)
                (arguments.map change.value)
              Script.executeAll (execute steps) (change.stmts declaration.body)) := by
          apply kept.bind (kept.bindParameters declaration.parameters arguments)
          intro _
          exact kept.executeAll executes declaration.body
        apply kept.bind (kept.inScope (some closure) body)
        intro flow
        cases flow with
        | normal => exact kept.pure change.value .nil
        | returned value => exact kept.pure change.value value
    · exact kept.raise change.value paren _
  | _ => exact kept.raise change.value paren .notCallable

/-- One more step of evaluation is kept if what it calls is. -/
theorem evaluate_step (kept : change.Congruence Relates)
    (evaluates : ∀ expr,
      Relates change.value (evaluate steps expr) (evaluate steps (change.expr expr)))
    (executes : ∀ statement,
      Relates change.flow (execute steps statement) (execute steps (change.stmt statement)))
    (expr : Expr) :
    Relates change.value (evaluate (steps + 1) expr) (evaluate (steps + 1) (change.expr expr)) := by
  cases expr with
  | literal literal =>
    have same := kept.pure change.value literal.value
    rwa [value_literal] at same
  | reference name => exact kept.lookUp name
  | grouping inner => exact evaluates inner
  | assign name value =>
    apply kept.bind (evaluates value)
    intro value
    apply kept.bind (kept.assign name value)
    intro _
    exact kept.pure change.value value
  | logical left operator right =>
    apply kept.bind (evaluates left)
    intro left
    rw [settles_value]
    split
    · exact kept.pure change.value left
    · exact evaluates right
  | unary operator right =>
    apply kept.bind (evaluates right)
    intro right
    rw [unary_value]
    exact kept.require change.value operator _
  | binary left operator right =>
    apply kept.bind (evaluates left)
    intro left
    apply kept.bind (evaluates right)
    intro right
    apply kept.bind (kept.binary operator left right)
    intro result
    exact kept.require change.value operator result
  | call callee paren arguments =>
    apply kept.bind (evaluates callee)
    intro callee
    apply kept.bind (kept.evaluateAll evaluates arguments)
    intro arguments
    exact kept.invoke executes callee paren arguments
  | array bracket elements =>
    apply kept.bind (kept.evaluateAll evaluates elements)
    intro items
    exact kept.newArray items
  | subscript object bracket index =>
    apply kept.bind (kept.subscriptTarget evaluates object bracket index)
    intro (array, number)
    apply kept.bind (kept.locate array bracket number)
    intro place
    exact kept.element array place
  | store object bracket index value =>
    apply kept.bind (kept.subscriptTarget evaluates object bracket index)
    intro (array, number)
    apply kept.bind (evaluates value)
    intro value
    apply kept.bind (kept.locate array bracket number)
    intro place
    apply kept.bind (kept.writeElement array place value)
    intro _
    exact kept.pure change.value value

/-- One more step of a statement is kept if what it calls is. -/
theorem execute_step (kept : change.Congruence Relates)
    (evaluates : ∀ expr,
      Relates change.value (evaluate steps expr) (evaluate steps (change.expr expr)))
    (executes : ∀ statement,
      Relates change.flow (execute steps statement) (execute steps (change.stmt statement)))
    (statement : Stmt) :
    Relates change.flow (execute (steps + 1) statement)
      (execute (steps + 1) (change.stmt statement)) := by
  cases statement with
  | expression value =>
    apply kept.bind (evaluates value)
    intro _
    exact kept.pure change.flow .normal
  | print value =>
    apply kept.bind (evaluates value)
    intro shown
    apply kept.bind (kept.text shown)
    intro text
    apply kept.bind (kept.write (text ++ "\n"))
    intro _
    exact kept.pure change.flow .normal
  | declare name initial =>
    apply kept.bind (kept.evaluateOptional evaluates initial)
    intro value
    apply kept.bind (kept.define name.lexeme value)
    intro _
    exact kept.pure change.flow .normal
  | block statements =>
    apply kept.bind kept.activeScope
    intro scope
    exact kept.inScope (some scope) (kept.executeAll executes statements)
  | branch condition consequence alternative =>
    cases alternative with
    | none =>
      apply kept.bind (evaluates condition)
      intro value
      rw [isTruthy_value]
      split
      · exact executes consequence
      · exact kept.pure change.flow .normal
    | some alternative =>
      apply kept.bind (evaluates condition)
      intro value
      rw [isTruthy_value]
      split
      · exact executes consequence
      · exact executes alternative
  | loop condition body =>
    apply kept.bind (evaluates condition)
    intro value
    rw [isTruthy_value]
    split
    · apply kept.bind (executes body)
      intro flow
      cases flow with
      | returned value => exact kept.pure change.flow (.returned value)
      | normal => exact executes (.loop condition body)
    · exact kept.pure change.flow .normal
  | function name parameters body =>
    apply kept.bind kept.activeScope
    intro closure
    apply kept.bind (kept.newFunction (.declared ⟨name, parameters, body⟩ closure))
    intro function
    apply kept.bind (kept.define name.lexeme function)
    intro _
    exact kept.pure change.flow .normal
  | returning keyword value =>
    apply kept.bind (kept.evaluateOptional evaluates value)
    intro value
    exact kept.pure change.flow (.returned value)

/-- Runs are kept, by induction on the steps allowed. -/
theorem runs (kept : change.Congruence Relates) (steps : Nat) :
    (∀ expr, Relates change.value (evaluate steps expr) (evaluate steps (change.expr expr))) ∧
    ∀ statement,
      Relates change.flow (execute steps statement) (execute steps (change.stmt statement)) := by
  induction steps with
  | zero =>
    constructor
    · intro expr
      exact kept.exhausted change.value
    · intro statement
      exact kept.exhausted change.flow
  | succ steps ih =>
    obtain ⟨evaluates, executes⟩ := ih
    exact ⟨kept.evaluate_step evaluates executes, kept.execute_step evaluates executes⟩

theorem interpret (kept : change.Congruence Relates) (steps : Nat) (program : List Stmt) :
    Relates id (interpret steps program) (interpret steps (change.stmts program)) := by
  apply kept.bind (kept.executeAll (kept.runs steps).2 program)
  intro _
  exact kept.flush

end Recast.Congruence
end Script
