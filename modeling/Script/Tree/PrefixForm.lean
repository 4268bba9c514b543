import Script.Tree

/-! The prefix form of a tree: operator first, every compound node in parentheses. -/

namespace Script

/-- Whole literals end in a zero fraction, whatever their size. -/
def Literal.numberStyle : NumberStyle :=
  { infinity := "inf", wholeSuffix := ".0", wholeLimit := none, signedZero := true }

def Literal.prefixForm : Literal → String
  | .number value => Literal.numberStyle.write value
  | .string text => text
  | .boolean value => toString value
  | .nil => "nil"

mutual

def Expr.prefixForm : Expr → String
  | .literal value => value.prefixForm
  | .reference name => name.lexeme
  | .assign name value => "(= " ++ name.lexeme ++ " " ++ value.prefixForm ++ ")"
  | .binary left operator right | .logical left operator right =>
    "(" ++ operator.lexeme ++ " " ++ left.prefixForm ++ " " ++ right.prefixForm ++ ")"
  | .unary operator right => "(" ++ operator.lexeme ++ " " ++ right.prefixForm ++ ")"
  | .call callee _ arguments =>
    "(call " ++ callee.prefixForm ++ Expr.prefixForms arguments ++ ")"
  | .grouping inner => "(group " ++ inner.prefixForm ++ ")"
  | .array _ elements => "(array" ++ Expr.prefixForms elements ++ ")"
  | .subscript object _ index => "(index " ++ object.prefixForm ++ " " ++ index.prefixForm ++ ")"
  | .store object _ index value =>
    "(set " ++ object.prefixForm ++ " " ++ index.prefixForm ++ " " ++ value.prefixForm ++ ")"

/-- The forms of a list of operands, a blank before each. -/
def Expr.prefixForms : List Expr → String
  | [] => ""
  | expr :: rest => " " ++ expr.prefixForm ++ Expr.prefixForms rest

end

mutual

def Stmt.prefixForm : Stmt → String
  | .expression value => "(; " ++ value.prefixForm ++ ")"
  | .print value => "(print " ++ value.prefixForm ++ ")"
  | .declare name none => "(var " ++ name.lexeme ++ ")"
  | .declare name (some initial) => "(var " ++ name.lexeme ++ " " ++ initial.prefixForm ++ ")"
  | .block statements => "(block" ++ Stmt.prefixForms statements ++ ")"
  | .branch condition consequence none =>
    "(if " ++ condition.prefixForm ++ " " ++ consequence.prefixForm ++ ")"
  | .branch condition consequence (some alternative) =>
    "(if " ++ condition.prefixForm ++ " " ++ consequence.prefixForm ++ " "
      ++ alternative.prefixForm ++ ")"
  | .loop condition body => "(while " ++ condition.prefixForm ++ " " ++ body.prefixForm ++ ")"
  | .function name parameters body =>
    "(fun " ++ name.lexeme ++ "(" ++ " ".intercalate (parameters.map Token.lexeme) ++ ")"
      ++ Stmt.prefixForms body ++ ")"
  | .returning _ none => "(return)"
  | .returning _ (some value) => "(return " ++ value.prefixForm ++ ")"

/-- The forms of a list of statements, a blank before each. -/
def Stmt.prefixForms : List Stmt → String
  | [] => ""
  | stmt :: rest => " " ++ stmt.prefixForm ++ Stmt.prefixForms rest

end
end Script
