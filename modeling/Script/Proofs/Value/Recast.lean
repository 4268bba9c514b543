import Script.Proofs.Value.Function

/-! Code recast in what does not show when it runs: the lines of its tokens, and what stands behind
a return. Values differ in the code of functions alone then, so they compare, show and calculate
alike. -/

namespace Script

/-- Other lines for the tokens of some code and, if it trims, nothing behind a return. -/
structure Recast where
  line : Nat → Nat
  trims : Bool

def Stmt.returns : Stmt → Bool
  | .returning _ _ => true
  | _ => false

namespace Recast

/-- Other lines, and all statements kept. -/
def relabel (line : Nat → Nat) : Recast := ⟨line, false⟩

/-- The lines kept, and nothing behind a return. -/
def trim : Recast := ⟨id, true⟩

variable (change : Recast)

def token (token : Token) : Token := { token with line := change.line token.line }

@[simp] theorem token_kind (token : Token) : (change.token token).kind = token.kind := rfl

@[simp] theorem token_lexeme (token : Token) : (change.token token).lexeme = token.lexeme := rfl

@[simp] theorem token_is (token : Token) (tag : Tag) :
    (change.token token).is tag = token.is tag := rfl

mutual

def expr : Expr → Expr
  | .literal value => .literal value
  | .reference name => .reference (change.token name)
  | .assign name value => .assign (change.token name) (expr value)
  | .binary left operator right => .binary (expr left) (change.token operator) (expr right)
  | .logical left operator right => .logical (expr left) (change.token operator) (expr right)
  | .unary operator right => .unary (change.token operator) (expr right)
  | .call callee paren arguments => .call (expr callee) (change.token paren) (exprs arguments)
  | .grouping inner => .grouping (expr inner)
  | .array bracket elements => .array (change.token bracket) (exprs elements)
  | .subscript object bracket index =>
    .subscript (expr object) (change.token bracket) (expr index)
  | .store object bracket index value =>
    .store (expr object) (change.token bracket) (expr index) (expr value)

def exprs : List Expr → List Expr
  | [] => []
  | first :: rest => expr first :: exprs rest

end

mutual

def stmt : Stmt → Stmt
  | .expression value => .expression (change.expr value)
  | .print value => .print (change.expr value)
  | .declare name initial => .declare (change.token name) (initial.map change.expr)
  | .block statements => .block (stmts statements)
  | .branch condition consequence alternative =>
    .branch (change.expr condition) (stmt consequence) (optional alternative)
  | .loop condition body => .loop (change.expr condition) (stmt body)
  | .function name parameters body =>
    .function (change.token name) (parameters.map change.token) (stmts body)
  | .returning keyword value => .returning (change.token keyword) (value.map change.expr)

def optional : Option Stmt → Option Stmt
  | none => none
  | some statement => some (stmt statement)

def stmts : List Stmt → List Stmt
  | [] => []
  | first :: rest => stmt first :: if change.trims && first.returns then [] else stmts rest

end

def declaration (declaration : FunctionDecl) : FunctionDecl :=
  ⟨change.token declaration.name, declaration.parameters.map change.token,
    change.stmts declaration.body⟩

def callable : Callable → Callable
  | .host name arity native => .host name arity native
  | .declared declaration closure => .declared (change.declaration declaration) closure

def value : Value → Value
  | .function id callable => .function id (change.callable callable)
  | value => value

theorem returns_stmt (statement : Stmt) : (change.stmt statement).returns = statement.returns := by
  cases statement <;> rfl

theorem callable_text (callable : Callable) : (change.callable callable).text = callable.text := by
  cases callable <;> rfl

theorem callable_arity (callable : Callable) :
    (change.callable callable).arity = callable.arity := by
  cases callable with
  | host name arity operation => rfl
  | declared declaration closure =>
    exact List.length_map change.token

/-- Of a value only the code of its function is recast. -/
theorem value_eq : change.value = Value.mapCallable change.callable := by
  funext value
  cases value <;> rfl

theorem isTruthy_value (value : Value) : (change.value value).isTruthy = value.isTruthy := by
  rw [value_eq]
  exact Value.isTruthy_mapCallable change.callable value

theorem typeName_value (value : Value) : (change.value value).typeName = value.typeName := by
  rw [value_eq]
  exact Value.typeName_mapCallable change.callable value

theorem value_literal (literal : Literal) : change.value literal.value = literal.value := by
  rw [value_eq]
  exact Value.mapCallable_literal change.callable literal

/-- Values are equal exactly if they were before. -/
theorem equals_value (heap : Heap) (left right : Value) :
    (change.value left).equals (heap.map change.value) (change.value right) =
      left.equals heap right := by
  rw [value_eq]
  exact Value.equals_mapCallable change.callable heap left right

/-- Values show as they did before. -/
theorem text_value (heap : Heap) (shown : Value) :
    (change.value shown).text (heap.map change.value) = shown.text heap := by
  have texts : Callable.text ∘ change.callable = Callable.text := funext change.callable_text
  rw [value_eq, Value.text, Value.textWithin_mapCallable, texts, Value.textShowing_text, Value.text]

/-! The operators, which see nothing of a token but its category and its lexeme. -/

theorem settles_value (operator : Token) (left : Value) :
    Operator.settles (change.token operator) (change.value left) =
      Operator.settles operator left := by
  rw [value_eq]
  exact Operator.settles_mapCallable change.callable operator left

theorem unary_value (operator : Token) (right : Value) :
    Operator.unary (change.token operator) (change.value right) =
      (Operator.unary operator right).map change.value := by
  rw [value_eq]
  exact Operator.unary_mapCallable change.callable operator right

theorem binary_value (heap : Heap) (operator : Token) (left right : Value) :
    Operator.binary (heap.map change.value) (change.token operator) (change.value left)
        (change.value right) = (Operator.binary heap operator left right).map change.value := by
  rw [value_eq]
  exact Operator.binary_mapCallable change.callable heap operator left right

theorem arrayPlace_value (heap : Heap) (array : ArrayId) (index : Float) :
    arrayPlace (heap.map change.value) array index = arrayPlace heap array index := by
  rw [value_eq]
  exact arrayPlace_mapCallable change.callable heap array index

end Recast
end Script
