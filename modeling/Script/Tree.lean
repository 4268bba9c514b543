import Script.Token

/-! Syntax trees. A node keeps the tokens that name it or that a fault in it is blamed on. -/

namespace Script

inductive Literal where
  | number (value : Float)
  | string (text : String)
  | boolean (value : Bool)
  | nil

inductive Expr where
  | literal (value : Literal)
  | reference (name : Token)
  | assign (name : Token) (value : Expr)
  | binary (left : Expr) (operator : Token) (right : Expr)
  | logical (left : Expr) (operator : Token) (right : Expr)
  | unary (operator : Token) (right : Expr)
  /-- `paren` is the closing parenthesis. -/
  | call (callee : Expr) (paren : Token) (arguments : List Expr)
  | grouping (inner : Expr)
  /-- `bracket` is the closing bracket, as in the two forms below. -/
  | array (bracket : Token) (elements : List Expr)
  | subscript (object : Expr) (bracket : Token) (index : Expr)
  | store (object : Expr) (bracket : Token) (index : Expr) (value : Expr)

inductive Stmt where
  | expression (value : Expr)
  | print (value : Expr)
  | declare (name : Token) (initial : Option Expr)
  | block (statements : List Stmt)
  | branch (condition : Expr) (consequence : Stmt) (alternative : Option Stmt)
  | loop (condition : Expr) (body : Stmt)
  | function (name : Token) (parameters : List Token) (body : List Stmt)
  | returning (keyword : Token) (value : Option Expr)

/-- A declared function: its name, its parameters and the statements of its body. -/
structure FunctionDecl where
  name : Token
  parameters : List Token
  body : List Stmt

end Script
