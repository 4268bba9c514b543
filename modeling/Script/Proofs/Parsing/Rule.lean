import Script.Proofs.Parsing.Outcome

/-! The rules of the grammar taken apart: one equation for each way that a rule can go, under a
condition on the next token alone. -/

namespace Script

/-- The tree of a token that is a primary by itself. -/
def Token.leaf? (token : Token) : Option Expr :=
  match token.kind with
  | .number value => some (.literal (.number value))
  | .string text => some (.literal (.string text))
  | .plain .falseKeyword => some (.literal (.boolean false))
  | .plain .trueKeyword => some (.literal (.boolean true))
  | .plain .nilKeyword => some (.literal .nil)
  | .plain .identifier => some (.reference token)
  | .plain _ => none

theorem Token.leaf?_eq_none {token : Token} (closes : token.is .semicolon = true) :
    token.leaf? = none := by
  rw [leaf?, Token.is_iff.mp closes]

namespace Rule

variable {layer inner : Layer} {left object : Expr} {token : Token} {after input : List Token}

theorem joined_nil : joined layer left [] = .done left := by rw [joined.eq_def]

theorem joined_more (joins : layer.joins token = true) :
    joined layer left (token :: after) =
      ((operand layer after).andThen fun right rest _ =>
        joined layer (layer.join left token right) rest).behind token := by
  rw [joined.eq_def]
  simp only [joins, ↓reduceIte]

theorem joined_other (other : ¬layer.joins token = true) :
    joined layer left (token :: after) = .done left := by
  rw [joined.eq_def]
  simp only [other, Bool.false_eq_true, ↓reduceIte]

theorem operand_of_some (found : layer.tighter? = some inner) :
    operand layer input = layered inner input := by
  rw [operand]
  split
  · rename_i same
    cases found.symm.trans same
    rfl
  · rename_i same
    cases found.symm.trans same

theorem operand_of_none (found : layer.tighter? = none) : operand layer input = signed input := by
  rw [operand]
  split
  · rename_i same
    cases found.symm.trans same
  · rfl

theorem signed_nil : signed [] = suffixed [] := by rw [signed.eq_def]

theorem signed_more (found : (token.is .bang || token.is .minus) = true) :
    signed (token :: after) = ((signed after).map (.unary token)).behind token := by
  rw [signed.eq_def]
  simp only [found, ↓reduceIte]

theorem signed_other (other : ¬(token.is .bang || token.is .minus) = true) :
    signed (token :: after) = suffixed (token :: after) := by
  rw [signed.eq_def]
  simp only [other, Bool.false_eq_true, ↓reduceIte]

theorem suffixes_nil : suffixes object [] = .done object := by rw [suffixes.eq_def]

theorem suffixes_call (opens : token.is .leftParen = true) :
    suffixes object (token :: after) =
      ((listed .rightParen true after).andThen fun arguments rest _ =>
        (expect .rightParen .argumentsEnd rest).andThen fun paren rest _ =>
          suffixes (.call object paren arguments) rest).behind token := by
  rw [suffixes.eq_def]
  simp only [opens, ↓reduceIte]

theorem suffixes_subscript (opens : token.is .leftBracket = true) :
    suffixes object (token :: after) =
      ((expression after).andThen fun index rest _ =>
        (expect .rightBracket .indexEnd rest).andThen fun bracket rest _ =>
          suffixes (.subscript object bracket index) rest).behind token := by
  have noCall := Token.is_eq_false opens .leftParen (by decide)
  rw [suffixes.eq_def]
  simp only [noCall, opens, Bool.false_eq_true, ↓reduceIte]

theorem suffixes_other (noCall : ¬token.is .leftParen = true)
    (noSubscript : ¬token.is .leftBracket = true) :
    suffixes object (token :: after) = .done object := by
  rw [suffixes.eq_def]
  simp only [noCall, noSubscript, Bool.false_eq_true, ↓reduceIte]

theorem primary_nil : primary [] = .stop .expression := by rw [primary.eq_def]

theorem primary_leaf {tree : Expr} (leaf : token.leaf? = some tree) :
    primary (token :: after) = (Outcome.done tree : Outcome Expr false after).behind token := by
  rw [primary.eq_def]
  unfold Token.leaf? at leaf
  dsimp only
  split at leaf
  case h_7 => cases leaf
  all_goals
    rename_i kind
    cases leaf
    simp only [kind]

theorem primary_group (kind : token.kind = .plain .leftParen) :
    primary (token :: after) =
      ((expression after).andThen fun inner rest _ =>
        (expect .rightParen .groupEnd rest).map fun _ => Expr.grouping inner).behind token := by
  rw [primary.eq_def]
  simp only [kind]

theorem primary_array (kind : token.kind = .plain .leftBracket) :
    primary (token :: after) =
      ((listed .rightBracket false after).andThen fun elements rest _ =>
        (expect .rightBracket .elementsEnd rest).map fun bracket =>
          Expr.array bracket elements).behind token := by
  rw [primary.eq_def]
  simp only [kind]

theorem primary_other (noNumber : ∀ value, token.kind = .number value → False)
    (noString : ∀ text, token.kind = .string text → False)
    (noFalse : token.kind = .plain .falseKeyword → False)
    (noTrue : token.kind = .plain .trueKeyword → False)
    (noNil : token.kind = .plain .nilKeyword → False)
    (noName : token.kind = .plain .identifier → False)
    (noGroup : token.kind = .plain .leftParen → False)
    (noArray : token.kind = .plain .leftBracket → False) :
    primary (token :: after) = .stop .expression := by
  rw [primary.eq_def]
  dsimp only
  split <;> simp_all

theorem statement_nil : statement [] = expressionStatement [] := by rw [statement.eq_def]

theorem statement_for (found : token.is .forKeyword = true) :
    statement (token :: after) =
      ((forHeader after).andThen fun header rest _ =>
        (statement rest).map header.loop).behind token := by
  rw [statement.eq_def]
  simp only [found, ↓reduceIte]

theorem statement_if (found : token.is .ifKeyword = true) :
    statement (token :: after) =
      ((condition .ifStart .ifEnd after).andThen fun condition rest _ =>
        (statement rest).andThen fun consequence rest moved =>
          match rest, moved with
          | [], _ => .done (.branch condition consequence none)
          | keyword :: others, _ =>
            if keyword.is .elseKeyword then
              ((statement others).map fun alternative =>
                Stmt.branch condition consequence (some alternative)).behind keyword
            else .done (.branch condition consequence none)).behind token := by
  have noFor := Token.is_eq_false found .forKeyword (by decide)
  rw [statement.eq_def]
  exact (if_neg (by simp [noFor])).trans (if_pos found)

theorem statement_while (found : token.is .whileKeyword = true) :
    statement (token :: after) =
      ((condition .whileStart .whileEnd after).andThen fun condition rest _ =>
        (statement rest).map (.loop condition)).behind token := by
  have noFor := Token.is_eq_false found .forKeyword (by decide)
  have noIf := Token.is_eq_false found .ifKeyword (by decide)
  rw [statement.eq_def]
  simp only [noFor, noIf, found, Bool.false_eq_true, ↓reduceIte]

theorem statement_return (found : token.is .returnKeyword = true) :
    statement (token :: after) = (returnStatement token after).behind token := by
  have noFor := Token.is_eq_false found .forKeyword (by decide)
  have noIf := Token.is_eq_false found .ifKeyword (by decide)
  have noWhile := Token.is_eq_false found .whileKeyword (by decide)
  rw [statement.eq_def]
  simp only [noFor, noIf, noWhile, found, Bool.false_eq_true, ↓reduceIte]

theorem statement_block (found : token.is .leftBrace = true) :
    statement (token :: after) = ((block after).map .block).behind token := by
  have noFor := Token.is_eq_false found .forKeyword (by decide)
  have noIf := Token.is_eq_false found .ifKeyword (by decide)
  have noWhile := Token.is_eq_false found .whileKeyword (by decide)
  have noReturn := Token.is_eq_false found .returnKeyword (by decide)
  rw [statement.eq_def]
  simp only [noFor, noIf, noWhile, noReturn, found, Bool.false_eq_true, ↓reduceIte]

theorem statement_print (found : token.is .printKeyword = true) :
    statement (token :: after) = ((terminated .printEnd after).map .print).behind token := by
  have noFor := Token.is_eq_false found .forKeyword (by decide)
  have noIf := Token.is_eq_false found .ifKeyword (by decide)
  have noWhile := Token.is_eq_false found .whileKeyword (by decide)
  have noReturn := Token.is_eq_false found .returnKeyword (by decide)
  have noBlock := Token.is_eq_false found .leftBrace (by decide)
  rw [statement.eq_def]
  simp only [noFor, noIf, noWhile, noReturn, noBlock, found, Bool.false_eq_true, ↓reduceIte]

/-- The categories that a statement can begin with, if it is no expression statement. -/
def statementOpeners : List Tag :=
  [.forKeyword, .ifKeyword, .whileKeyword, .returnKeyword, .leftBrace, .printKeyword]

theorem statement_other (other : ∀ tag ∈ statementOpeners, token.is tag = false) :
    statement (token :: after) = expressionStatement (token :: after) := by
  simp only [statementOpeners, List.mem_cons, List.not_mem_nil, or_false, forall_eq_or_imp,
    forall_eq] at other
  obtain ⟨noFor, noIf, noWhile, noReturn, noBlock, noPrint⟩ := other
  rw [statement.eq_def]
  simp only [noFor, noIf, noWhile, noReturn, noBlock, noPrint, Bool.false_eq_true, ↓reduceIte]

theorem declarations_nil {inBlock : Bool} : declarations inBlock [] = .done [] := by
  rw [declarations.eq_def]

theorem declarations_close {inBlock : Bool} (closes : (inBlock && token.is .rightBrace) = true) :
    declarations inBlock (token :: after) = .done [] := by
  rw [declarations.eq_def]
  simp only [closes, ↓reduceIte]

theorem declarations_more {inBlock : Bool}
    (inside : ¬(inBlock && token.is .rightBrace) = true) :
    declarations inBlock (token :: after) =
      ((declaration token after).andThen fun parsed rest _ =>
        (declarations inBlock rest).map (parsed.toList ++ ·)).relax := by
  rw [declarations.eq_def]
  simp only [inside, Bool.false_eq_true, ↓reduceIte]

theorem declaration_class (found : token.is .classKeyword = true) :
    declaration token after =
      .accepted none (synchronize after)
        (.past token (synchronize_suffix (List.suffix_cons token after)))
        [⟨.unsupportedClass, token :: after⟩] := by
  rw [declaration.eq_def]
  simp only [found, ↓reduceIte]

theorem declaration_fun (found : token.is .funKeyword = true) :
    declaration token after =
      (((functionHeader after).andThen fun header rest _ =>
        (block rest).map fun body =>
          Stmt.function header.1 header.2 body).behind token).recover := by
  have noClass := Token.is_eq_false found .classKeyword (by decide)
  rw [declaration.eq_def]
  simp only [noClass, found, Bool.false_eq_true, ↓reduceIte]

theorem declaration_var (found : token.is .varKeyword = true) :
    declaration token after = ((variableDeclaration after).behind token).recover := by
  have noClass := Token.is_eq_false found .classKeyword (by decide)
  have noFun := Token.is_eq_false found .funKeyword (by decide)
  rw [declaration.eq_def]
  simp only [noClass, noFun, found, Bool.false_eq_true, ↓reduceIte]

theorem declaration_other (noClass : ¬token.is .classKeyword = true)
    (noFun : ¬token.is .funKeyword = true) (noVar : ¬token.is .varKeyword = true) :
    declaration token after = (statement (token :: after)).recover := by
  rw [declaration.eq_def]
  simp only [noClass, noFun, noVar, Bool.false_eq_true, ↓reduceIte]

end Rule
end Script
