import Script.Proofs.Tree.Bracketed
import Script.Tree.PrefixForm

/-! The prefix form of a tree as words and lists, whose text it is. -/

namespace Script

/-- A compound node: its operator or its name first. -/
def Bracketed.node (head : String) (parts : List Bracketed) : Bracketed :=
  .list "" (.word head :: parts)

mutual

def Expr.form : Expr → Bracketed
  | .literal value => .word value.prefixForm
  | .reference name => .word name.lexeme
  | .assign name value => .node "=" [.word name.lexeme, value.form]
  | .binary left operator right | .logical left operator right =>
    .node operator.lexeme [left.form, right.form]
  | .unary operator right => .node operator.lexeme [right.form]
  | .call callee _ arguments => .node "call" (callee.form :: Expr.forms arguments)
  | .grouping inner => .node "group" [inner.form]
  | .array _ elements => .node "array" (Expr.forms elements)
  | .subscript object _ index => .node "index" [object.form, index.form]
  | .store object _ index value => .node "set" [object.form, index.form, value.form]

def Expr.forms : List Expr → List Bracketed
  | [] => []
  | expr :: rest => expr.form :: Expr.forms rest

end

mutual

def Stmt.form : Stmt → Bracketed
  | .expression value => .node ";" [value.form]
  | .print value => .node "print" [value.form]
  | .declare name none => .node "var" [.word name.lexeme]
  | .declare name (some initial) => .node "var" [.word name.lexeme, initial.form]
  | .block statements => .node "block" (Stmt.forms statements)
  | .branch condition consequence none => .node "if" [condition.form, consequence.form]
  | .branch condition consequence (some alternative) =>
    .node "if" [condition.form, consequence.form, alternative.form]
  | .loop condition body => .node "while" [condition.form, body.form]
  | .function name parameters body =>
    .node "fun" (.list name.lexeme ((parameters.map Token.lexeme).map .word) :: Stmt.forms body)
  | .returning _ none => .node "return" []
  | .returning _ (some value) => .node "return" [value.form]

def Stmt.forms : List Stmt → List Bracketed
  | [] => []
  | stmt :: rest => stmt.form :: Stmt.forms rest

end

/-! The text of a tree is that of its form. -/

@[simp] theorem Bracketed.chars_node (head : String) (parts : List Bracketed) :
    (node head parts).chars = '(' :: (head.toList ++ behind parts) := by
  rw [node, chars, chars]
  rfl

mutual

theorem Expr.form_chars : ∀ expr : Expr, expr.form.chars = expr.prefixForm.toList
  | .literal value => by simp [form, prefixForm, Bracketed.chars]
  | .reference name => by simp [form, prefixForm, Bracketed.chars]
  | .assign name value => by
    simp [form, prefixForm, Bracketed.chars, Bracketed.behind, Expr.form_chars value]
  | .binary left operator right | .logical left operator right => by
    simp [form, prefixForm, Bracketed.behind, Expr.form_chars left, Expr.form_chars right]
  | .unary operator right => by
    simp [form, prefixForm, Bracketed.behind, Expr.form_chars right]
  | .call callee paren arguments => by
    simp [form, prefixForm, Bracketed.behind, Expr.form_chars callee,
      Expr.forms_behind arguments]
  | .grouping inner => by
    simp [form, prefixForm, Bracketed.behind, Expr.form_chars inner]
  | .array bracket elements => by
    simp [form, prefixForm, Expr.forms_behind elements]
  | .subscript object bracket index => by
    simp [form, prefixForm, Bracketed.behind, Expr.form_chars object, Expr.form_chars index]
  | .store object bracket index value => by
    simp [form, prefixForm, Bracketed.behind, Expr.form_chars object, Expr.form_chars index,
      Expr.form_chars value]

theorem Expr.forms_behind : ∀ exprs : List Expr,
    Bracketed.behind (Expr.forms exprs) = (Expr.prefixForms exprs).toList ++ [')']
  | [] => by simp [Expr.forms, Expr.prefixForms, Bracketed.behind]
  | first :: rest => by
    simp [Expr.forms, Expr.prefixForms, Bracketed.behind, Expr.form_chars first,
      Expr.forms_behind rest]

end

theorem Bracketed.inside_words (names : List String) :
    inside (names.map .word) = (" ".intercalate names).toList ++ [')'] := by
  induction names with
  | nil => simp [inside]
  | cons first rest ih =>
    cases rest with
    | nil => simp [inside, behind, chars]
    | cons second rest =>
      simpa [inside, behind, chars] using ih

mutual

theorem Stmt.form_chars : ∀ stmt : Stmt, stmt.form.chars = stmt.prefixForm.toList
  | .expression value => by
    simp [form, prefixForm, Bracketed.behind, value.form_chars]
  | .print value => by
    simp [form, prefixForm, Bracketed.behind, value.form_chars]
  | .declare name none => by
    simp [form, prefixForm, Bracketed.chars, Bracketed.behind]
  | .declare name (some initial) => by
    simp [form, prefixForm, Bracketed.chars, Bracketed.behind, initial.form_chars]
  | .block statements => by
    simp [form, prefixForm, Stmt.forms_behind statements]
  | .branch condition consequence none => by
    simp [form, prefixForm, Bracketed.behind, condition.form_chars, Stmt.form_chars consequence]
  | .branch condition consequence (some alternative) => by
    simp [form, prefixForm, Bracketed.behind, condition.form_chars, Stmt.form_chars consequence,
      Stmt.form_chars alternative]
  | .loop condition body => by
    simp [form, prefixForm, Bracketed.behind, condition.form_chars, Stmt.form_chars body]
  | .function name parameters body => by
    have names := Bracketed.inside_words (parameters.map Token.lexeme)
    simp [-List.map_map, form, prefixForm, Bracketed.behind, Bracketed.chars_list, names,
      Stmt.forms_behind body]
  | .returning keyword none => by
    simp [form, prefixForm, Bracketed.behind]
  | .returning keyword (some value) => by
    simp [form, prefixForm, Bracketed.behind, value.form_chars]

theorem Stmt.forms_behind : ∀ stmts : List Stmt,
    Bracketed.behind (Stmt.forms stmts) = (Stmt.prefixForms stmts).toList ++ [')']
  | [] => by simp [Stmt.forms, Stmt.prefixForms, Bracketed.behind]
  | first :: rest => by
    simp [Stmt.forms, Stmt.prefixForms, Bracketed.behind, Stmt.form_chars first,
      Stmt.forms_behind rest]

end

end Script
