import Script.Proofs.Value.Recast

/-! Other lines for the same code. Two changes of lines in a row are one, and one that keeps every
line changes nothing. -/

namespace Script
namespace Recast

variable (line later : Nat → Nat)

theorem stmts_relabel_cons (first : Stmt) (rest : List Stmt) :
    (relabel line).stmts (first :: rest) =
      (relabel line).stmt first :: (relabel line).stmts rest := by
  rw [stmts]
  rfl

theorem stmts_relabel_append (first second : List Stmt) :
    (relabel line).stmts (first ++ second) =
      (relabel line).stmts first ++ (relabel line).stmts second := by
  induction first with
  | nil => rfl
  | cons statement rest ih =>
    rw [List.cons_append, stmts_relabel_cons, stmts_relabel_cons, ih, List.cons_append]

theorem stmts_relabel_toList (parsed : Option Stmt) :
    (relabel line).stmts parsed.toList = (parsed.map (relabel line).stmt).toList := by
  cases parsed <;> rfl

/-! Two changes in a row. -/

theorem token_comp (token : Token) :
    (relabel later).token ((relabel line).token token) = (relabel (later ∘ line)).token token := rfl

theorem tokens_comp (tokens : List Token) :
    (tokens.map (relabel line).token).map (relabel later).token =
      tokens.map (relabel (later ∘ line)).token := by
  rw [List.map_map]
  rfl

mutual

theorem expr_comp : ∀ expr : Expr,
    (relabel later).expr ((relabel line).expr expr) = (relabel (later ∘ line)).expr expr
  | .literal _ | .reference _ => rfl
  | .assign _ value => by simp only [expr, expr_comp value, token_comp]
  | .binary left _ right | .logical left _ right => by
    simp only [expr, expr_comp left, expr_comp right, token_comp]
  | .unary _ right => by simp only [expr, expr_comp right, token_comp]
  | .call callee _ arguments => by
    simp only [expr, expr_comp callee, exprs_comp arguments, token_comp]
  | .grouping inner => by simp only [expr, expr_comp inner]
  | .array _ elements => by simp only [expr, exprs_comp elements, token_comp]
  | .subscript object _ index => by simp only [expr, expr_comp object, expr_comp index, token_comp]
  | .store object _ index value => by
    simp only [expr, expr_comp object, expr_comp index, expr_comp value, token_comp]

theorem exprs_comp : ∀ list : List Expr,
    (relabel later).exprs ((relabel line).exprs list) = (relabel (later ∘ line)).exprs list
  | [] => rfl
  | first :: rest => by simp only [exprs, expr_comp first, exprs_comp rest]

end

theorem option_comp (expr : Option Expr) :
    (expr.map (relabel line).expr).map (relabel later).expr =
      expr.map (relabel (later ∘ line)).expr := by
  cases expr with
  | none => rfl
  | some expr => exact congrArg some (expr_comp line later expr)

mutual

theorem stmt_comp : ∀ statement : Stmt,
    (relabel later).stmt ((relabel line).stmt statement) = (relabel (later ∘ line)).stmt statement
  | .expression value | .print value => by simp only [stmt, expr_comp]
  | .declare _ initial => by simp only [stmt, option_comp, token_comp]
  | .block statements => by simp only [stmt, stmts_comp statements]
  | .branch condition consequence alternative => by
    simp only [stmt, expr_comp, stmt_comp consequence, optional_comp alternative]
  | .loop condition body => by simp only [stmt, expr_comp, stmt_comp body]
  | .function _ parameters body => by
    simp only [stmt, token_comp, tokens_comp, stmts_comp body]
  | .returning _ value => by simp only [stmt, option_comp, token_comp]

theorem optional_comp : ∀ statement : Option Stmt,
    (relabel later).optional ((relabel line).optional statement) =
      (relabel (later ∘ line)).optional statement
  | none => rfl
  | some statement => congrArg some (stmt_comp statement)

theorem stmts_comp : ∀ list : List Stmt,
    (relabel later).stmts ((relabel line).stmts list) = (relabel (later ∘ line)).stmts list
  | [] => rfl
  | first :: rest => by simp only [stmts_relabel_cons, stmt_comp first, stmts_comp rest]

end

theorem value_comp (value : Value) :
    (relabel later).value ((relabel line).value value) = (relabel (later ∘ line)).value value := by
  cases value with
  | function id callable =>
    cases callable with
    | host => rfl
    | declared declaration closure =>
      simp only [Recast.value, callable, Recast.declaration, token_comp, tokens_comp, stmts_comp]
  | _ => rfl

/-! Lines kept. -/

theorem token_id (token : Token) : (relabel id).token token = token := rfl

theorem tokens_id (tokens : List Token) : tokens.map (relabel id).token = tokens :=
  List.map_id tokens

mutual

theorem expr_id : ∀ expr : Expr, (relabel id).expr expr = expr
  | .literal _ | .reference _ => rfl
  | .assign _ value => by simp only [expr, expr_id value, token_id]
  | .binary left _ right | .logical left _ right => by
    simp only [expr, expr_id left, expr_id right, token_id]
  | .unary _ right => by simp only [expr, expr_id right, token_id]
  | .call callee _ arguments => by
    simp only [expr, expr_id callee, exprs_id arguments, token_id]
  | .grouping inner => by simp only [expr, expr_id inner]
  | .array _ elements => by simp only [expr, exprs_id elements, token_id]
  | .subscript object _ index => by simp only [expr, expr_id object, expr_id index, token_id]
  | .store object _ index value => by
    simp only [expr, expr_id object, expr_id index, expr_id value, token_id]

theorem exprs_id : ∀ list : List Expr, (relabel id).exprs list = list
  | [] => rfl
  | first :: rest => by simp only [exprs, expr_id first, exprs_id rest]

end

theorem option_id (expr : Option Expr) : expr.map (relabel id).expr = expr := by
  cases expr with
  | none => rfl
  | some expr => exact congrArg some (expr_id expr)

mutual

theorem stmt_id : ∀ statement : Stmt, (relabel id).stmt statement = statement
  | .expression value | .print value => by simp only [stmt, expr_id]
  | .declare _ initial => by simp only [stmt, option_id, token_id]
  | .block statements => by simp only [stmt, stmts_id statements]
  | .branch condition consequence alternative => by
    simp only [stmt, expr_id, stmt_id consequence, optional_id alternative]
  | .loop condition body => by simp only [stmt, expr_id, stmt_id body]
  | .function _ parameters body => by simp only [stmt, token_id, tokens_id, stmts_id body]
  | .returning _ value => by simp only [stmt, option_id, token_id]

theorem optional_id : ∀ statement : Option Stmt, (relabel id).optional statement = statement
  | none => rfl
  | some statement => congrArg some (stmt_id statement)

theorem stmts_id : ∀ list : List Stmt, (relabel id).stmts list = list
  | [] => rfl
  | first :: rest => by simp only [stmts_relabel_cons, stmt_id first, stmts_id rest]

end

theorem value_id (value : Value) : (relabel id).value value = value := by
  cases value with
  | function id callable =>
    cases callable with
    | host => rfl
    | declared declaration closure =>
      simp only [Recast.value, callable, Recast.declaration, token_id, tokens_id, stmts_id]
  | _ => rfl

/-! Two numberings kept apart in one: old lines become even numbers and new ones odd numbers. -/

def oldLine (line : Nat) : Nat := 2 * line

def newLine (line : Nat) : Nat := 2 * line + 1

/-- The old lines as they were, and others for the new ones. -/
def mergeLines (renew : Nat → Nat) (number : Nat) : Nat :=
  if number % 2 = 0 then number / 2 else renew (number / 2)

theorem mergeLines_old (renew : Nat → Nat) : mergeLines renew ∘ oldLine = id := by
  funext line
  simp [mergeLines, oldLine]

theorem mergeLines_new (renew : Nat → Nat) : mergeLines renew ∘ newLine = renew := by
  funext line
  have odd : (2 * line + 1) % 2 = 1 := by omega
  have half : (2 * line + 1) / 2 = line := by omega
  simp [mergeLines, newLine, odd, half]

end Recast
end Script
