import Script.Json
import Script.Tree

/-! The JSON form of a tree: a node with fields is an object under the node's name, a node
without any is the bare name. -/

namespace Script

open Json (tagged)

def Kind.document : Kind → Json
  | .string text => tagged "STRING" (.text text)
  | .number value => tagged "NUMBER" (.number value)
  | .plain tag => .text tag.name

def Token.document (token : Token) : Json :=
  .object [("token_type", token.kind.document), ("lexeme", .text token.lexeme),
    ("line", .count token.line)]

def Literal.document : Literal → Json
  | .number value => tagged "Number" (.number value)
  | .string text => tagged "Str" (.text text)
  | .boolean value => .text (if value then "True" else "False")
  | .nil => .text "Nil"

mutual

def Expr.document : Expr → Json
  | .literal value => tagged "Literal" value.document
  | .reference name => tagged "Variable" name.document
  | .assign name value =>
    tagged "Assign" (.object [("name", name.document), ("value", value.document)])
  | .binary left operator right =>
    tagged "Binary" (.object [("left", left.document), ("operator", operator.document),
      ("right", right.document)])
  | .logical left operator right =>
    tagged "Logical" (.object [("left", left.document), ("operator", operator.document),
      ("right", right.document)])
  | .unary operator right =>
    tagged "Unary" (.object [("operator", operator.document), ("right", right.document)])
  | .call callee paren arguments =>
    tagged "Call" (.object [("callee", callee.document), ("paren", paren.document),
      ("arguments", .list (Expr.documents arguments))])
  | .grouping inner => tagged "Grouping" inner.document
  | .array bracket elements =>
    tagged "Array" (.object [("bracket", bracket.document),
      ("elements", .list (Expr.documents elements))])
  | .subscript object bracket index =>
    tagged "Subscript" (.object [("object", object.document), ("bracket", bracket.document),
      ("index", index.document)])
  | .store object bracket index value =>
    tagged "Set" (.object [("object", object.document), ("bracket", bracket.document),
      ("index", index.document), ("value", value.document)])

def Expr.documents : List Expr → List Json
  | [] => []
  | expr :: rest => expr.document :: Expr.documents rest

end

mutual

def Stmt.document : Stmt → Json
  | .expression value => tagged "Expression" value.document
  | .print value => tagged "Print" value.document
  | .declare name initial =>
    tagged "Var" (.object [("name", name.document),
      ("initializer", Json.optional (initial.map Expr.document))])
  | .block statements => tagged "Block" (.list (Stmt.documents statements))
  | .branch condition consequence none =>
    tagged "If" (.object [("condition", condition.document),
      ("then_branch", consequence.document), ("else_branch", .null)])
  | .branch condition consequence (some alternative) =>
    tagged "If" (.object [("condition", condition.document),
      ("then_branch", consequence.document), ("else_branch", alternative.document)])
  | .loop condition body =>
    tagged "While" (.object [("condition", condition.document), ("body", body.document)])
  | .function name parameters body =>
    tagged "Function" (.object [("name", name.document),
      ("params", .list (parameters.map Token.document)), ("body", .list (Stmt.documents body))])
  | .returning keyword value =>
    tagged "Return" (.object [("keyword", keyword.document),
      ("value", Json.optional (value.map Expr.document))])

def Stmt.documents : List Stmt → List Json
  | [] => []
  | stmt :: rest => stmt.document :: Stmt.documents rest

end
end Script
