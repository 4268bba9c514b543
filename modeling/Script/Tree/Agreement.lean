import Script.Tree

/-! Equality of trees as a reader of the source sees it: same shape, agreeing tokens,
equal literals. A number that differs from itself makes its tree do so too. -/

namespace Script

def Literal.agrees : Literal → Literal → Bool
  | .number first, .number second => first == second
  | .string first, .string second => first == second
  | .boolean first, .boolean second => first == second
  | .nil, .nil => true
  | _, _ => false

mutual

def Expr.agrees : Expr → Expr → Bool
  | .literal value, .literal value' => value.agrees value'
  | .reference name, .reference name' => name.agrees name'
  | .assign name value, .assign name' value' => name.agrees name' && value.agrees value'
  | .binary left operator right, .binary left' operator' right' =>
    left.agrees left' && operator.agrees operator' && right.agrees right'
  | .logical left operator right, .logical left' operator' right' =>
    left.agrees left' && operator.agrees operator' && right.agrees right'
  | .unary operator right, .unary operator' right' =>
    operator.agrees operator' && right.agrees right'
  | .call callee paren arguments, .call callee' paren' arguments' =>
    callee.agrees callee' && paren.agrees paren' && Expr.agreeAll arguments arguments'
  | .grouping inner, .grouping inner' => inner.agrees inner'
  | .array bracket elements, .array bracket' elements' =>
    bracket.agrees bracket' && Expr.agreeAll elements elements'
  | .subscript object bracket index, .subscript object' bracket' index' =>
    object.agrees object' && bracket.agrees bracket' && index.agrees index'
  | .store object bracket index value, .store object' bracket' index' value' =>
    object.agrees object' && bracket.agrees bracket' && index.agrees index' && value.agrees value'
  | _, _ => false

def Expr.agreeAll : List Expr → List Expr → Bool
  | [], [] => true
  | expr :: rest, expr' :: rest' => expr.agrees expr' && Expr.agreeAll rest rest'
  | _, _ => false

end

/-- Two absent expressions agree, and two present ones if they do. -/
def Expr.agreeOptional : Option Expr → Option Expr → Bool
  | none, none => true
  | some expr, some expr' => expr.agrees expr'
  | _, _ => false

def Token.agreeAll : List Token → List Token → Bool
  | [], [] => true
  | token :: rest, token' :: rest' => token.agrees token' && Token.agreeAll rest rest'
  | _, _ => false

mutual

def Stmt.agrees : Stmt → Stmt → Bool
  | .expression value, .expression value' => value.agrees value'
  | .print value, .print value' => value.agrees value'
  | .declare name initial, .declare name' initial' =>
    name.agrees name' && Expr.agreeOptional initial initial'
  | .block statements, .block statements' => Stmt.agreeAll statements statements'
  | .branch condition consequence alternative, .branch condition' consequence' alternative' =>
    condition.agrees condition' && consequence.agrees consequence' &&
      Stmt.agreeOptional alternative alternative'
  | .loop condition body, .loop condition' body' =>
    condition.agrees condition' && body.agrees body'
  | .function name parameters body, .function name' parameters' body' =>
    name.agrees name' && Token.agreeAll parameters parameters' && Stmt.agreeAll body body'
  | .returning keyword value, .returning keyword' value' =>
    keyword.agrees keyword' && Expr.agreeOptional value value'
  | _, _ => false

def Stmt.agreeOptional : Option Stmt → Option Stmt → Bool
  | none, none => true
  | some stmt, some stmt' => stmt.agrees stmt'
  | _, _ => false

def Stmt.agreeAll : List Stmt → List Stmt → Bool
  | [], [] => true
  | stmt :: rest, stmt' :: rest' => stmt.agrees stmt' && Stmt.agreeAll rest rest'
  | _, _ => false

end
end Script
