import Script.Proofs.Grammar.Sentence
import Script.Proofs.Tree.Reading

/-! Trees whose prefix form is read back as the tree itself, lines apart: one lemma for each kind of
node. -/

namespace Script

open Recast (unlined)
open Scan (Lexeme)
open Bracketed (compound leaf)

theorem Expr.forms_eq (trees : List Expr) : Expr.forms trees = trees.map Expr.form := by
  induction trees with
  | nil => rfl
  | cons first rest ih => rw [Expr.forms, ih, List.map_cons]

theorem Stmt.forms_eq (trees : List Stmt) : Stmt.forms trees = trees.map Stmt.form := by
  induction trees with
  | nil => rfl
  | cons first rest ih => rw [Stmt.forms, ih, List.map_cons]

namespace Bracketed

theorem expr_node (reader : String → Float) (head : String) (parts : List Bracketed) :
    (node head parts).expr reader = compound (.ofWord head) (exprs reader parts) := by
  rw [node, expr]

theorem compound_sign {operator : Token} {right : Expr}
    (found : operator.is .bang = true ∨ operator.is .minus = true) :
    compound operator [right] = .unary operator right := by
  unfold compound
  rcases found with bang | minus
  · rw [Token.is_iff.mp bang]
  · rw [Token.is_iff.mp minus]

theorem compound_join {level inner : Grammar.Level} {tag : Tag}
    {node : Expr → Token → Expr → Expr} {operator : Token} {left right : Expr}
    (joins : Grammar.Joins level tag inner node) (found : operator.is tag = true) :
    compound operator [left, right] = node left operator right := by
  unfold compound
  rw [Token.is_iff.mp found]
  cases joins <;> rfl

theorem Solid.node {head : String} {parts : List Bracketed} (word : (Bracketed.word head).Solid)
    (each : ∀ part ∈ parts, part.Solid) : (Bracketed.node head parts).Solid :=
  .list (by simp) (List.forall_mem_cons.mpr ⟨word, each⟩)

end Bracketed

/-- A token with a lexeme of its category. -/
def Token.Spelled (token : Token) : Prop := Lexeme token.lexeme.toList token.kind

/-- A finite number is read back from its text. -/
def ReadsNumbers (reader : String → Float) : Prop :=
  ∀ value, (Binary64.ofFloat value).IsFinite → reader (Literal.numberStyle.write value) = value

theorem exists_readsNumbers : ∃ reader, ReadsNumbers reader := by
  have injective : Set.InjOn Literal.numberStyle.write
      {value | (Binary64.ofFloat value).IsFinite} :=
    fun _ finite _ finite' same => Literal.numberStyle_write_injective finite finite' same
  exact ⟨_, fun value finite => injective.leftInvOn_invFunOn finite⟩

/-- The form of an expression is solid and is read back as the expression. -/
structure Expr.Faithful (reader : String → Float) (tree : Expr) : Prop where
  solid : tree.form.Solid
  read : tree.form.expr reader = unlined.expr tree

/-- The word at the head of a node. -/
theorem Token.Spelled.solid {token : Token} {tag : Tag} (spelled : token.Spelled)
    (found : token.is tag = true) (noOpening : tag ≠ .leftParen) (noClosing : tag ≠ .rightParen) :
    (Bracketed.word token.lexeme).Solid :=
  .word spelled.ne_nil (plain_of_lexeme spelled found noOpening noClosing)

namespace Expr.Faithful

variable {reader : String → Float} {name operator bracket : Token}
  {tree left right inner value index object callee : Expr} {trees : List Expr} {head : String}

theorem read_all (each : ∀ tree ∈ trees, tree.Faithful reader) :
    Bracketed.exprs reader (Expr.forms trees) = unlined.exprs trees := by
  induction trees with
  | nil => rfl
  | cons first rest ih =>
    rw [List.forall_mem_cons] at each
    rw [Expr.forms, Bracketed.exprs, each.1.read, ih each.2, Recast.exprs]

theorem solid_all (each : ∀ tree ∈ trees, tree.Faithful reader) :
    ∀ part ∈ Expr.forms trees, part.Solid := by
  rw [Expr.forms_eq, List.forall_mem_map]
  exact fun tree member => (each tree member).solid

/-- A node is read back if its operands are and if it is the node that its head makes of them. -/
theorem of_node (trees : List Expr) (form : tree.form = .node head (Expr.forms trees))
    (word : (Bracketed.word head).Solid) (each : ∀ tree ∈ trees, tree.Faithful reader)
    (node : compound (.ofWord head) (unlined.exprs trees) = unlined.expr tree) :
    tree.Faithful reader where
  solid := by
    rw [form]
    exact .node word (solid_all each)
  read := by rw [form, Bracketed.expr_node, read_all each, node]

theorem reference (spelled : name.Spelled) (found : name.is .identifier = true) :
    (Expr.reference name).Faithful reader where
  solid := spelled.solid found (by decide) (by decide)
  read := by
    have kind := Token.is_iff.mp found
    rw [form, Bracketed.expr, leaf, Token.ofWord_lexeme spelled, Recast.token_kind, kind]
    rfl

theorem assign (spelled : name.Spelled) (found : name.is .identifier = true)
    (inner : value.Faithful reader) : (Expr.assign name value).Faithful reader :=
  of_node [.reference name, value] rfl (.literal (by decide) (by decide))
    (by simpa using ⟨reference spelled found, inner⟩) rfl

theorem join {level within : Grammar.Level} {tag : Tag} {node : Expr → Token → Expr → Expr}
    (joins : Grammar.Joins level tag within node) (spelled : operator.Spelled)
    (found : operator.is tag = true) (first : left.Faithful reader)
    (second : right.Faithful reader) : (node left operator right).Faithful reader := by
  have noParens : tag ≠ .leftParen ∧ tag ≠ .rightParen := by cases joins <;> decide
  apply of_node [left, right] _ (spelled.solid found noParens.1 noParens.2)
  · simpa using ⟨first, second⟩
  · rw [Token.ofWord_lexeme spelled]
    have image : unlined.expr (node left operator right) =
        node (unlined.expr left) (unlined.token operator) (unlined.expr right) := by
      cases joins <;> rfl
    rw [image]
    exact Bracketed.compound_join joins found
  · cases joins <;> rfl

theorem unary (spelled : operator.Spelled)
    (found : operator.is .bang = true ∨ operator.is .minus = true)
    (operand : right.Faithful reader) : (Expr.unary operator right).Faithful reader := by
  apply of_node [right] rfl
  · rcases found with bang | minus
    · exact spelled.solid bang (by decide) (by decide)
    · exact spelled.solid minus (by decide) (by decide)
  · simpa using operand
  · rw [Token.ofWord_lexeme spelled]
    exact Bracketed.compound_sign found

theorem call (spelled : bracket.Spelled) (closes : bracket.is .rightParen = true)
    (function : callee.Faithful reader) (each : ∀ tree ∈ trees, tree.Faithful reader) :
    (Expr.call callee bracket trees).Faithful reader := by
  apply of_node (callee :: trees) rfl (.literal (by decide) (by decide))
    (List.forall_mem_cons.mpr ⟨function, each⟩)
  rw [Recast.expr, Token.eq_ofWord ")" spelled closes (by decide) (by decide) (by decide)]
  rfl

theorem grouping (within : inner.Faithful reader) : (Expr.grouping inner).Faithful reader :=
  of_node [inner] rfl (.literal (by decide) (by decide)) (by simpa using within) rfl

theorem array (spelled : bracket.Spelled) (closes : bracket.is .rightBracket = true)
    (each : ∀ tree ∈ trees, tree.Faithful reader) :
    (Expr.array bracket trees).Faithful reader := by
  apply of_node trees rfl (.literal (by decide) (by decide)) each
  rw [Recast.expr, Token.eq_ofWord "]" spelled closes (by decide) (by decide) (by decide)]
  rfl

theorem subscript (spelled : bracket.Spelled) (closes : bracket.is .rightBracket = true)
    (of : object.Faithful reader) (place : index.Faithful reader) :
    (Expr.subscript object bracket index).Faithful reader := by
  apply of_node [object, index] rfl (.literal (by decide) (by decide)) (by simpa using ⟨of, place⟩)
  rw [Recast.expr, Token.eq_ofWord "]" spelled closes (by decide) (by decide) (by decide)]
  rfl

theorem store (spelled : bracket.Spelled) (closes : bracket.is .rightBracket = true)
    (of : object.Faithful reader) (place : index.Faithful reader)
    (given : value.Faithful reader) : (Expr.store object bracket index value).Faithful reader := by
  apply of_node [object, index, value] rfl (.literal (by decide) (by decide))
    (by simpa using ⟨of, place, given⟩)
  rw [Recast.expr, Token.eq_ofWord "]" spelled closes (by decide) (by decide) (by decide)]
  rfl

theorem boolean (value : Bool) : (Expr.literal (.boolean value)).Faithful reader := by
  cases value with
  | false => exact ⟨.literal (by decide) (by decide), rfl⟩
  | true => exact ⟨.literal (by decide) (by decide), rfl⟩

theorem nil : (Expr.literal .nil).Faithful reader := ⟨.literal (by decide) (by decide), rfl⟩

theorem number (reads : ReadsNumbers reader) {value : Float}
    (finite : (Binary64.ofFloat value).IsFinite) :
    (Expr.literal (.number value)).Faithful reader := by
  have read := reads value finite
  obtain ⟨negative, significand, exponent, finite⟩ := finite
  obtain ⟨text, spelled, written, spells, -⟩ := Literal.numberStyle_write finite
  constructor
  · apply Bracketed.Solid.word
    · obtain ⟨digit, rest, rfl, -⟩ := spells.head
      rw [Literal.prefixForm, written]
      simp
    · rw [Literal.prefixForm, written, List.forall_mem_append]
      constructor
      · cases negative <;> simp [Bracketed.isPlain]
      · intro char member
        rcases spells.chars char member with digit | rfl
        · exact Bracketed.isPlain_digit digit
        · rfl
  · rw [form, Bracketed.expr, Literal.prefixForm, Bracketed.leaf_of_spells written spells, read]
    rfl

end Expr.Faithful

/-- The form of a statement is solid and is read back as the statement. -/
structure Stmt.Faithful (reader : String → Float) (tree : Stmt) : Prop where
  solid : tree.form.Solid
  read : tree.form.stmt reader = unlined.stmt tree

namespace Stmt.Faithful

variable {reader : String → Float} {name keyword : Token} {parameters : List Token}
  {value condition : Expr} {tree consequence other body : Stmt} {trees : List Stmt} {head : String}

theorem read_all (each : ∀ tree ∈ trees, tree.Faithful reader) :
    Bracketed.stmts reader (Stmt.forms trees) = unlined.stmts trees := by
  induction trees with
  | nil => rfl
  | cons first rest ih =>
    rw [List.forall_mem_cons] at each
    rw [Stmt.forms, Bracketed.stmts, each.1.read, ih each.2, Recast.stmts]
    rfl

theorem solid_all (each : ∀ tree ∈ trees, tree.Faithful reader) :
    ∀ part ∈ Stmt.forms trees, part.Solid := by
  rw [Stmt.forms_eq, List.forall_mem_map]
  exact fun tree member => (each tree member).solid

theorem expression (inner : value.Faithful reader) : (Stmt.expression value).Faithful reader where
  solid := .node (.literal (by decide) (by decide)) (by simpa using inner.solid)
  read := by rw [form, Bracketed.node, Bracketed.stmt, inner.read, Recast.stmt]

theorem print (inner : value.Faithful reader) : (Stmt.print value).Faithful reader where
  solid := .node (.literal (by decide) (by decide)) (by simpa using inner.solid)
  read := by rw [form, Bracketed.node, Bracketed.stmt, inner.read, Recast.stmt]

theorem declare {initial : Option Expr} (spelled : name.Spelled)
    (found : name.is .identifier = true) (first : ∀ value ∈ initial, value.Faithful reader) :
    (Stmt.declare name initial).Faithful reader := by
  have word := spelled.solid found (by decide) (by decide)
  cases initial with
  | none =>
    constructor
    · exact .node (.literal (by decide) (by decide)) (by simpa using word)
    · rw [form, Bracketed.node, Bracketed.stmt, Bracketed.name, Token.ofWord_lexeme spelled,
        Recast.stmt, Option.map_none]
  | some value =>
    have value := first value rfl
    constructor
    · exact .node (.literal (by decide) (by decide)) (by simpa using ⟨word, value.solid⟩)
    · rw [form, Bracketed.node, Bracketed.stmt, Bracketed.name, Token.ofWord_lexeme spelled,
        value.read, Recast.stmt, Option.map_some]

theorem block (each : ∀ tree ∈ trees, tree.Faithful reader) :
    (Stmt.block trees).Faithful reader where
  solid := .node (.literal (by decide) (by decide)) (solid_all each)
  read := by rw [form, Bracketed.node, Bracketed.stmt, read_all each, Recast.stmt]

theorem branch (tested : condition.Faithful reader) (inner : consequence.Faithful reader) :
    (Stmt.branch condition consequence none).Faithful reader where
  solid := .node (.literal (by decide) (by decide)) (by simpa using ⟨tested.solid, inner.solid⟩)
  read := by
    rw [form, Bracketed.node, Bracketed.stmt, tested.read, inner.read, Recast.stmt, Recast.optional]

theorem alternative (tested : condition.Faithful reader) (inner : consequence.Faithful reader)
    (otherwise : other.Faithful reader) :
    (Stmt.branch condition consequence (some other)).Faithful reader where
  solid := .node (.literal (by decide) (by decide))
    (by simpa using ⟨tested.solid, inner.solid, otherwise.solid⟩)
  read := by
    rw [form, Bracketed.node, Bracketed.stmt, tested.read, inner.read, otherwise.read, Recast.stmt,
      Recast.optional]

theorem loop (tested : condition.Faithful reader) (inner : body.Faithful reader) :
    (Stmt.loop condition body).Faithful reader where
  solid := .node (.literal (by decide) (by decide)) (by simpa using ⟨tested.solid, inner.solid⟩)
  read := by rw [form, Bracketed.node, Bracketed.stmt, tested.read, inner.read, Recast.stmt]

theorem function (spelled : name.Spelled) (found : name.is .identifier = true)
    (names : ∀ parameter ∈ parameters, parameter.Spelled ∧ parameter.is .identifier = true)
    (each : ∀ tree ∈ trees, tree.Faithful reader) :
    (Stmt.function name parameters trees).Faithful reader where
  solid := by
    have words : ∀ part ∈ (parameters.map Token.lexeme).map Bracketed.word, part.Solid := by
      simp only [List.forall_mem_map]
      intro parameter member
      obtain ⟨spelled, found⟩ := names parameter member
      exact spelled.solid found (by decide) (by decide)
    have header : (Bracketed.list name.lexeme ((parameters.map Token.lexeme).map .word)).Solid :=
      .list (Token.plain_of_lexeme spelled found (by decide) (by decide)) words
    have all := List.forall_mem_cons.mpr ⟨header, solid_all each⟩
    exact .node (.literal (by decide) (by decide)) all
  read := by
    have words : ((parameters.map Token.lexeme).map Bracketed.word).map Bracketed.name =
        parameters.map unlined.token := by
      rw [List.map_map, List.map_map]
      exact List.map_congr_left fun parameter member =>
        Token.ofWord_lexeme (names parameter member).1
    rw [form, Bracketed.node, Bracketed.stmt, read_all each, Bracketed.name, Bracketed.parameters,
      words, Token.ofWord_lexeme spelled, Recast.stmt]

theorem returning {result : Option Expr} (spelled : keyword.Spelled)
    (found : keyword.is .returnKeyword = true) (inner : ∀ value ∈ result, value.Faithful reader) :
    (Stmt.returning keyword result).Faithful reader := by
  have word : unlined.token keyword = .ofWord "return" :=
    Token.eq_ofWord "return" spelled found (by decide) (by decide) (by decide)
  cases result with
  | none =>
    constructor
    · exact .node (.literal (by decide) (by decide)) (by simp)
    · rw [form, Bracketed.node, Bracketed.stmt, Recast.stmt, word, Option.map_none]
  | some value =>
    have value := inner value rfl
    constructor
    · exact .node (.literal (by decide) (by decide)) (by simpa using value.solid)
    · rw [form, Bracketed.node, Bracketed.stmt, value.read, Recast.stmt, word, Option.map_some]

end Stmt.Faithful
end Script
