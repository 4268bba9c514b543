import Script.Evaluation.Host

/-! Evaluation of expressions and execution of statements. Both are bounded by a number of nested
steps; a run that needs more is exhausted, which is neither a value nor an error. What the functions
of the host do is given with the host. -/

namespace Script

variable [Host]

/-- How a statement ends: it goes on to the next, or returns from the running function. -/
inductive Flow where
  | normal
  | returned (value : Value)

/-- Evaluates expressions from left to right. -/
def evaluateAll (evaluate : Expr → Eval Value) : List Expr → Eval (List Value)
  | [] => return []
  | expr :: rest => do
    let value ← evaluate expr
    let values ← evaluateAll evaluate rest
    return value :: values

/-- Executes statements up to the first that returns. -/
def executeAll (execute : Stmt → Eval Flow) : List Stmt → Eval Flow
  | [] => return .normal
  | stmt :: rest => do
    match ← execute stmt with
    | .returned value => return .returned value
    | .normal => executeAll execute rest

/-- The value of an expression that may be left out. -/
def evaluateOptional (evaluate : Expr → Eval Value) : Option Expr → Eval Value
  | none => return .nil
  | some expr => evaluate expr

/-- The array and the number that a subscript stands for; the array is looked at before the
index is evaluated. -/
def subscriptTarget (evaluate : Expr → Eval Value) (object : Expr) (bracket : Token)
    (index : Expr) : Eval (ArrayId × Float) := do
  match ← evaluate object with
  | .array array =>
    match ← evaluate index with
    | .number number => return (array, number)
    | _ => Eval.raise bracket .notAnIndex
  | _ => Eval.raise bracket .notSubscriptable

/-- The place in an array that a number names now. -/
def locate (array : ArrayId) (bracket : Token) (number : Float) : Eval Nat := do
  Eval.require bracket (← Eval.inspect fun machine => arrayPlace machine.heap array number)

/-- Binds parameters to arguments in the active scope. -/
def bindParameters : List Token → List Value → Eval Unit
  | parameter :: parameters, argument :: arguments => do
    Eval.define parameter.lexeme argument
    bindParameters parameters arguments
  | _, _ => return ()

/-- Calls a function. The body of a declared one runs in the scope of its parameters, which is
enclosed by the scope of its declaration; without a return the call is worth nil. -/
def invoke (execute : Stmt → Eval Flow) (callee : Value) (paren : Token)
    (arguments : List Value) : Eval Value :=
  match callee with
  | .function _ callable =>
    if arguments.length = callable.arity then
      match callable with
      | .host _ _ native => native.run paren arguments
      | .declared declaration closure => do
        let flow ← Eval.inScope (some closure) do
          bindParameters declaration.parameters arguments
          executeAll execute declaration.body
        match flow with
        | .returned value => return value
        | .normal => return .nil
    else Eval.raise paren (.arity callable.arity arguments.length)
  | _ => Eval.raise paren .notCallable

mutual

/-- The value of an expression, within `steps` nested steps. -/
def evaluate : (steps : Nat) → Expr → Eval Value
  | 0, _ => Eval.exhausted
  | _ + 1, .literal literal => return literal.value
  | steps + 1, .grouping inner => evaluate steps inner
  | _ + 1, .reference name => Eval.lookUp name
  | steps + 1, .assign name value => do
    let value ← evaluate steps value
    Eval.assign name value
    return value
  | steps + 1, .logical left operator right => do
    let left ← evaluate steps left
    if Operator.settles operator left then return left else evaluate steps right
  | steps + 1, .unary operator right => do
    let right ← evaluate steps right
    Eval.require operator (Operator.unary operator right)
  | steps + 1, .binary left operator right => do
    let left ← evaluate steps left
    let right ← evaluate steps right
    Eval.require operator
      (← Eval.inspect fun machine => Operator.binary machine.heap operator left right)
  | steps + 1, .call callee paren arguments => do
    let callee ← evaluate steps callee
    let arguments ← evaluateAll (evaluate steps) arguments
    invoke (execute steps) callee paren arguments
  | steps + 1, .array _ elements => do
    let values ← evaluateAll (evaluate steps) elements
    Eval.newArray values
  | steps + 1, .subscript object bracket index => do
    let (array, number) ← subscriptTarget (evaluate steps) object bracket index
    let place ← locate array bracket number
    Eval.inspect fun machine => (machine.heap.elements array).getD place .nil
  | steps + 1, .store object bracket index value => do
    let (array, number) ← subscriptTarget (evaluate steps) object bracket index
    let value ← evaluate steps value
    let place ← locate array bracket number
    Eval.writeElement array place value
    return value

/-- Executes a statement, within `steps` nested steps; each turn of a loop is one. -/
def execute : (steps : Nat) → Stmt → Eval Flow
  | 0, _ => Eval.exhausted
  | steps + 1, .expression value => do
    let _ ← evaluate steps value
    return .normal
  | steps + 1, .print value => do
    let value ← evaluate steps value
    Eval.write ((← Eval.inspect fun machine => value.text machine.heap) ++ "\n")
    return .normal
  | steps + 1, .declare name initial => do
    let value ← evaluateOptional (evaluate steps) initial
    Eval.define name.lexeme value
    return .normal
  | steps + 1, .block statements => do
    Eval.inScope (some (← Eval.activeScope)) (executeAll (execute steps) statements)
  | steps + 1, .branch condition consequence alternative => do
    if (← evaluate steps condition).isTruthy then execute steps consequence
    else
      match alternative with
      | some alternative => execute steps alternative
      | none => return .normal
  | steps + 1, .loop condition body => do
    if (← evaluate steps condition).isTruthy then
      match ← execute steps body with
      | .returned value => return .returned value
      | .normal => execute steps (.loop condition body)
    else return .normal
  | _ + 1, .function name parameters body => do
    let closure ← Eval.activeScope
    let function ← Eval.newFunction (.declared ⟨name, parameters, body⟩ closure)
    Eval.define name.lexeme function
    return .normal
  | steps + 1, .returning _ value => do
    return .returned (← evaluateOptional (evaluate steps) value)

end

/-- Runs a program. A return outside of any function ends it, and its output is flushed. -/
def interpret (steps : Nat) (program : List Stmt) : Eval Unit := do
  let _ ← executeAll (execute steps) program
  Eval.flush

end Script
