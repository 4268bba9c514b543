import Script.Proofs.Parsing.Relabel
import Script.Proofs.Value.Relabel
import Script.Source

/-! Statements and whole units under other lines: where a statement goes wrong, and where parsing
goes on behind it, is decided without a look at lines. -/

namespace Script

namespace Recast

variable (line : Nat → Nat)

def header (change : Recast) (header : ForHeader) : ForHeader :=
  ⟨header.initial.map change.stmt, header.condition.map change.expr, header.step.map change.expr⟩

theorem loop_relabel (header : ForHeader) (body : Stmt) :
    ((relabel line).header header).loop ((relabel line).stmt body) =
      (relabel line).stmt (header.loop body) := by
  obtain ⟨initial, condition, step⟩ := header
  cases initial <;> cases condition <;> cases step <;> rfl

end Recast

namespace Rule

open Outcome Recast

variable {change : Recast} {token : Token} {after input : List Token}

theorem beginsStatement_token (change : Recast) (token : Token) :
    (change.token token).beginsStatement = token.beginsStatement := rfl

theorem resume_map (change : Recast) (skipped : Token) (rest : List Token) :
    resume (change.token skipped) (rest.map change.token) =
      (resume skipped rest).map change.token := by
  induction rest generalizing skipped with
  | nil => rfl
  | cons next after ih =>
    rw [List.map_cons, resume, resume, beginsStatement_token, Recast.token_is]
    split
    · rfl
    · exact ih next

theorem synchronize_map (change : Recast) (tokens : List Token) :
    synchronize (tokens.map change.token) = (synchronize tokens).map change.token := by
  cases tokens with
  | nil => rfl
  | cons skipped rest => exact resume_map change skipped rest

theorem recover_relabels {first first' : Token} {others others' : List Token}
    {image : Stmt → Stmt} {outcome : Outcome Stmt true (first :: others)}
    {other : Outcome Stmt true (first' :: others')}
    (relabels : outcome.Relabels change image other) :
    outcome.recover.Relabels change (Option.map image) other.recover := by
  cases relabels with
  | accepted => exact .accepted
  | stopped =>
    apply relabels_accepted
    · rfl
    · exact synchronize_map change _
    · rw [List.map_append, List.map_singleton]

theorem expression_relabel (change : Recast) (input : List Token) :
    Relabels change change.expr expression input := (expressions_relabel change).1 input

theorem optionalBefore_relabels {closer : Tag} :
    Relabels change (Option.map change.expr) (optionalBefore closer) input := by
  have value := expression_relabel change input
  apply relabels_unless
  apply Outcome.Relabels.relax
  apply value.map
  intro value
  rfl

theorem terminated_relabels {what : Expectation} :
    Relabels change change.expr (terminated what) input := by
  apply (expression_relabel change input).andThen
  rintro value rest _ _ _ rfl
  apply (relabels_expect .semicolon what rest).map
  intro semicolon
  rfl

theorem expressionStatement_relabels : Relabels change change.stmt expressionStatement input := by
  apply terminated_relabels.map
  intro value
  rfl

theorem variableDeclaration_relabels :
    Relabels change change.stmt variableDeclaration input := by
  apply (relabels_expect .identifier .variableName input).andThen
  intro name rest rest' _ _ same
  cases rest with
  | nil =>
    subst same
    exact relabels_stop .variableEnd
  | cons sign after =>
    obtain rfl : rest' = change.token sign :: after.map change.token := same
    apply relabels_ite
    · intro equals
      apply Outcome.Relabels.behind
      apply terminated_relabels.map
      intro value
      rfl
    · intro other
      apply Outcome.Relabels.relax
      apply (relabels_expect .semicolon .variableEnd (sign :: after)).map
      intro semicolon
      rfl

theorem returnStatement_relabels {keyword : Token} :
    (returnStatement keyword input).Relabels change change.stmt
      (returnStatement (change.token keyword) (input.map change.token)) := by
  apply optionalBefore_relabels.andThen
  rintro value rest _ _ _ rfl
  apply (relabels_expect .semicolon .returnEnd rest).map
  intro semicolon
  rfl

theorem condition_relabels {start stop : Expectation} :
    Relabels change change.expr (condition start stop) input := by
  apply (relabels_expect .leftParen start input).andThen
  rintro opening rest _ _ _ rfl
  apply (expression_relabel change rest).andThen
  rintro value rest _ _ _ rfl
  apply (relabels_expect .rightParen stop rest).map
  intro closing
  rfl

theorem forInitial_relabels : Relabels change (Option.map change.stmt) forInitial input := by
  cases input with
  | nil =>
    apply expressionStatement_relabels.map
    intro initial
    rfl
  | cons first after =>
    apply relabels_ite
    · intro empty
      exact (relabels_done none).behind
    · intro more
      apply relabels_ite
      · intro declares
        apply Outcome.Relabels.behind
        apply variableDeclaration_relabels.map
        intro initial
        rfl
      · intro plain
        apply expressionStatement_relabels.map
        intro initial
        rfl

theorem forHeader_relabels : Relabels change change.header forHeader input := by
  apply (relabels_expect .leftParen .forStart input).andThen
  rintro opening rest _ _ _ rfl
  apply forInitial_relabels.andThen
  rintro initial rest _ _ _ rfl
  apply optionalBefore_relabels.andThen
  rintro condition rest _ _ _ rfl
  apply (relabels_expect .semicolon .conditionEnd rest).andThen
  rintro semicolon rest _ _ _ rfl
  apply optionalBefore_relabels.andThen
  rintro step rest _ _ _ rfl
  apply (relabels_expect .rightParen .forEnd rest).map
  intro closing
  rfl

theorem parameterNames_relabels {count : Nat} :
    Relabels change (List.map change.token) (parameterNames count) input := by
  induction count, input using parameterNames.induct with
  | case1 count input ih =>
    have earlier : (if maxArity ≤ count then
          [Complaint.mk .tooManyParameters (input.map change.token)] else []) =
        (if maxArity ≤ count then
          [Complaint.mk .tooManyParameters input] else []).map change.complaint := by
      split <;> rfl
    unfold Relabels
    rw [parameterNames, parameterNames, earlier]
    apply ((relabels_expect .identifier .parameterName input).noting _).andThen
    intro name rest rest' moved moved' same
    cases rest with
    | nil =>
      subst same
      exact relabels_done [name]
    | cons comma after =>
      obtain rfl : rest' = change.token comma :: after.map change.token := same
      apply relabels_ite
      · intro between
        apply Outcome.Relabels.behind
        apply (ih comma after moved).map
        intro names
        rfl
      · intro other
        exact relabels_done [name]

theorem functionHeader_relabels :
    Relabels change (Prod.map change.token (List.map change.token)) functionHeader input := by
  apply (relabels_expect .identifier .functionName input).andThen
  rintro name rest _ _ _ rfl
  apply (relabels_expect .leftParen .parametersStart rest).andThen
  rintro opening rest _ _ _ rfl
  apply (relabels_unless parameterNames_relabels.relax).andThen
  rintro parameters rest _ _ _ rfl
  apply (relabels_expect .rightParen .parametersEnd rest).andThen
  rintro closing rest _ _ _ rfl
  apply (relabels_expect .leftBrace .bodyStart rest).map
  intro brace
  rfl

variable {line : Nat → Nat}

/-- A declaration does the same on tokens with other lines. -/
abbrev DeclarationRelabels (line : Nat → Nat) (token : Token) (after : List Token) : Prop :=
  (declaration token after).Relabels (relabel line) (Option.map (relabel line).stmt)
    (declaration ((relabel line).token token) (after.map (relabel line).token))

theorem statement_if_relabels (found : token.is .ifKeyword = true)
    (consequence : ∀ rest, Moved true rest after →
      Relabels (relabel line) (relabel line).stmt statement rest)
    (alternative : ∀ rest, Moved true rest after → ∀ keyword others,
      Moved true (keyword :: others) rest →
        Relabels (relabel line) (relabel line).stmt statement others) :
    Relabels (relabel line) (relabel line).stmt statement (token :: after) := by
  have found' : ((relabel line).token token).is .ifKeyword = true := found
  unfold Relabels
  rw [List.map_cons, statement_if found, statement_if found']
  apply Outcome.Relabels.behind
  apply condition_relabels.andThen
  rintro condition rest _ moved _ rfl
  apply (consequence rest moved).andThen
  intro consequence behind behind' moved' _ same
  cases behind with
  | nil =>
    subst same
    exact relabels_done (Stmt.branch condition consequence none)
  | cons keyword others =>
    obtain rfl : behind' =
      (relabel line).token keyword :: others.map (relabel line).token := same
    apply relabels_ite
    · intro alternates
      apply Outcome.Relabels.behind
      apply (alternative rest moved keyword others moved').map
      intro alternative
      rfl
    · intro other
      exact relabels_done (Stmt.branch condition consequence none)

/-- Every statement and declaration rule does the same on tokens with other lines. -/
theorem statements_relabel (line : Nat → Nat) :
    (∀ input, Relabels (relabel line) (relabel line).stmt statement input) ∧
    (∀ input, Relabels (relabel line) (relabel line).stmts block input) ∧
    (∀ inBlock input,
      Relabels (relabel line) (relabel line).stmts (declarations inBlock) input) ∧
    ∀ token after, DeclarationRelabels line token after := by
  refine statement.mutual_induct _ _ _ _ ?statementEnd ?counting ?branch ?loop ?returning
    ?enclosing ?print ?expression ?block ?declarationsEnd ?close ?more ?unsupported ?function
    ?declaration ?statement
  case statementEnd =>
    unfold Relabels
    rw [List.map_nil, statement_nil]
    exact expressionStatement_relabels
  case counting =>
    intro token after found ih
    have found' : ((relabel line).token token).is .forKeyword = true := found
    unfold Relabels
    rw [List.map_cons, statement_for found, statement_for found']
    apply Outcome.Relabels.behind
    apply forHeader_relabels.andThen
    rintro header rest _ moved _ rfl
    apply (ih rest moved).map
    intro body
    exact loop_relabel line header body
  case branch => exact fun token after _ => statement_if_relabels
  case loop =>
    intro token after _ _ found ih
    have found' : ((relabel line).token token).is .whileKeyword = true := found
    unfold Relabels
    rw [List.map_cons, statement_while found, statement_while found']
    apply Outcome.Relabels.behind
    apply condition_relabels.andThen
    rintro condition rest _ moved _ rfl
    apply (ih rest moved).map
    intro body
    rfl
  case returning =>
    intro token after _ _ _ found
    have found' : ((relabel line).token token).is .returnKeyword = true := found
    unfold Relabels
    rw [List.map_cons, statement_return found, statement_return found']
    exact returnStatement_relabels.behind
  case enclosing =>
    intro token after _ _ _ _ found ih
    have found' : ((relabel line).token token).is .leftBrace = true := found
    unfold Relabels
    rw [List.map_cons, statement_block found, statement_block found']
    apply Outcome.Relabels.behind
    apply ih.map
    intro statements
    rfl
  case print =>
    intro token after _ _ _ _ _ found
    have found' : ((relabel line).token token).is .printKeyword = true := found
    unfold Relabels
    rw [List.map_cons, statement_print found, statement_print found']
    apply Outcome.Relabels.behind
    apply terminated_relabels.map
    intro value
    rfl
  case expression =>
    intro token after noFor noIf noWhile noReturn noBlock noPrint
    have plain : ∀ tag ∈ statementOpeners, token.is tag = false := by
      simp [statementOpeners, *]
    have plain' : ∀ tag ∈ statementOpeners, ((relabel line).token token).is tag = false := plain
    have same : Relabels (relabel line) (relabel line).stmt expressionStatement (token :: after) :=
      expressionStatement_relabels
    unfold Relabels
    rw [List.map_cons, statement_other plain, statement_other plain']
    exact same
  case block =>
    intro input ih
    unfold Relabels
    rw [block, block]
    apply ih.andThen
    rintro statements rest _ _ _ rfl
    apply (relabels_expect .rightBrace .blockEnd rest).map
    intro brace
    rfl
  case declarationsEnd =>
    intro inBlock
    unfold Relabels
    rw [List.map_nil, declarations_nil]
    exact relabels_done []
  case close =>
    intro inBlock token after closes
    have closes' : (inBlock && ((relabel line).token token).is .rightBrace) = true := closes
    unfold Relabels
    rw [List.map_cons, declarations_close closes, declarations_close closes']
    exact relabels_accepted rfl rfl rfl
  case more =>
    intro inBlock token after inside first others
    have inside' : ¬(inBlock && ((relabel line).token token).is .rightBrace) = true := inside
    unfold Relabels
    rw [List.map_cons, declarations_more inside, declarations_more inside']
    apply Outcome.Relabels.relax
    apply first.andThen
    rintro parsed rest _ moved _ rfl
    apply (others rest moved).map
    intro statements
    rw [stmts_relabel_append, stmts_relabel_toList]
  case unsupported =>
    intro token after found
    have found' : ((relabel line).token token).is .classKeyword = true := found
    unfold DeclarationRelabels
    rw [declaration_class found, declaration_class found']
    exact relabels_accepted rfl (synchronize_map (relabel line) after) rfl
  case function =>
    intro token after _ found ih
    have found' : ((relabel line).token token).is .funKeyword = true := found
    unfold DeclarationRelabels
    rw [declaration_fun found, declaration_fun found']
    apply recover_relabels
    apply Outcome.Relabels.behind
    apply functionHeader_relabels.andThen
    rintro header rest _ moved _ rfl
    apply (ih rest moved).map
    intro body
    rfl
  case declaration =>
    intro token after _ _ found
    have found' : ((relabel line).token token).is .varKeyword = true := found
    unfold DeclarationRelabels
    rw [declaration_var found, declaration_var found']
    apply recover_relabels
    exact variableDeclaration_relabels.behind
  case statement =>
    intro token after noClass noFun noVar ih
    have noClass' : ¬((relabel line).token token).is .classKeyword = true := noClass
    have noFun' : ¬((relabel line).token token).is .funKeyword = true := noFun
    have noVar' : ¬((relabel line).token token).is .varKeyword = true := noVar
    unfold DeclarationRelabels
    rw [declaration_other noClass noFun noVar, declaration_other noClass' noFun' noVar']
    exact recover_relabels ih

end Rule
end Script
