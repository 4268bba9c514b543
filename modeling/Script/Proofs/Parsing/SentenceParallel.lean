import Script.Proofs.Parsing.PhraseParallel

/-! A declaration that goes wrong before its only semicolon is given up there, and nothing behind
that semicolon has a part in it. -/

namespace Script

/-- Tokens that end in their only semicolon, without a brace or a loop over a header with
semicolons of its own, in which no other declaration or statement begins. -/
structure Broken (tokens : List Token) : Prop where
  closed : Closed tokens
  braceless : ∀ token ∈ tokens, token.is .leftBrace = false ∧ token.is .rightBrace = false
  starts : ∀ token ∈ tokens.head?, token.is .elseKeyword = false ∧ token.is .forKeyword = false
  plain : ∀ token ∈ tokens.tail, ∀ tag ∈ [Tag.classKeyword, .funKeyword, .varKeyword, .forKeyword,
    .ifKeyword, .whileKeyword, .printKeyword, .returnKeyword], token.is tag = false

namespace Rule

variable {input after tail : List Token} {token : Token}

/-- From a semicolon, or from before it, the tokens are skipped up to behind the semicolon. -/
theorem resume_closed {skipped : Token} {rest : List Token} (closed : Closed (skipped :: rest))
    (plain : ∀ token ∈ rest, token.beginsStatement = false) :
    resume skipped (rest ++ tail) = tail := by
  induction rest generalizing skipped with
  | nil =>
    obtain ⟨front, closing, same, closes, _⟩ := closed
    cases front with
    | cons first front => simp at same
    | nil =>
      cases same
      cases tail with
      | nil => rfl
      | cons next after => simp [resume, closes]
  | cons next after ih =>
    have other : skipped.is .semicolon = false := Bool.eq_false_iff.mpr fun closes => by
      cases closed.eq_nil closes
    obtain ⟨noStart, others⟩ := List.forall_mem_cons.mp plain
    rw [List.cons_append, resume, other, noStart]
    exact ih (closed.tail other) others

theorem synchronize_closed {remaining : List Token} (closed : Closed remaining)
    (plain : ∀ token ∈ remaining.tail, token.beginsStatement = false) (tail : List Token) :
    synchronize (remaining ++ tail) = tail := by
  cases remaining with
  | nil => exact absurd rfl closed.ne_nil
  | cons skipped rest => exact resume_closed closed plain

/-- Skipping from these tokens stops behind their semicolon. -/
theorem synchronize_eq_nil {remaining : List Token} (closed : Closed remaining)
    (plain : ∀ token ∈ remaining.tail, token.beginsStatement = false) :
    synchronize remaining = [] := by
  have here := synchronize_closed closed plain []
  rwa [List.append_nil] at here

theorem terminated_parallel {what : Expectation} (closed : Closed input) :
    (terminated what input).Parallel (· = []) tail (terminated what (input ++ tail)) := by
  refine (expression_parallel closed).andThen ?_
  exact fun value rest _ _ closed => (Outcome.parallel_expect_semicolon closed).map

theorem expressionStatement_parallel (closed : Closed input) :
    (expressionStatement input).Parallel (· = []) tail (expressionStatement (input ++ tail)) :=
  (terminated_parallel closed).map

theorem variableDeclaration_parallel (closed : Closed input) :
    (variableDeclaration input).Parallel (· = []) tail (variableDeclaration (input ++ tail)) := by
  refine (Outcome.parallel_expect_other closed (by decide)).andThen ?_
  intro name rest _ _ closed
  cases rest with
  | nil => exact absurd rfl closed.ne_nil
  | cons sign after =>
    dsimp only [List.cons_append]
    by_cases equals : sign.is .equal = true
    · rw [if_pos equals, if_pos equals]
      have rest := closed.behind equals (by decide)
      exact (terminated_parallel rest).map.behind
    · rw [if_neg equals, if_neg equals]
      exact (Outcome.parallel_expect_semicolon closed).map.relax

theorem returnStatement_parallel {keyword : Token} (closed : Closed input) :
    (returnStatement keyword input).Parallel (· = []) tail
      (returnStatement keyword (input ++ tail)) := by
  have value : (optionalBefore .semicolon input).Parallel Closed tail
      (optionalBefore .semicolon (input ++ tail)) := by
    unfold optionalBefore
    refine Outcome.parallel_unless (fun input => ((expression input).map some).relax) closed ?_
    exact fun _ => (expression_parallel closed).map.relax
  refine value.andThen ?_
  exact fun value rest _ _ closed => (Outcome.parallel_expect_semicolon closed).map

theorem condition_parallel {start stop : Expectation} (closed : Closed input) :
    (condition start stop input).Parallel Closed tail (condition start stop (input ++ tail)) := by
  refine (Outcome.parallel_expect_other closed (by decide)).andThen ?_
  intro opening rest _ _ closed
  refine (expression_parallel closed).andThen ?_
  exact fun value rest _ _ closed => (Outcome.parallel_expect_other closed (by decide)).map

theorem parameterNames_parallel {count : Nat} (closed : Closed input) :
    (parameterNames count input).Parallel Closed tail (parameterNames count (input ++ tail)) := by
  induction count, input using parameterNames.induct with
  | case1 count input ih =>
    have earlier : SameFaults
        (if maxArity ≤ count then [⟨.tooManyParameters, input⟩] else [])
        (if maxArity ≤ count then [⟨.tooManyParameters, input ++ tail⟩] else []) := by
      split
      · exact sameFaults_single closed.ne_nil tail
      · exact .nil
    rw [parameterNames, parameterNames]
    refine ((Outcome.parallel_expect_other closed (by decide)).noting earlier).andThen ?_
    intro name rest moved _ closed
    cases rest with
    | nil => exact absurd rfl closed.ne_nil
    | cons comma after =>
      dsimp only [List.cons_append]
      by_cases between : comma.is .comma = true
      · rw [if_pos between, if_pos between]
        have rest := closed.behind between (by decide)
        exact (ih comma after moved rest).map.behind
      · rw [if_neg between, if_neg between]
        exact Outcome.parallel_done closed

/-- Without a brace no function header is accepted. -/
theorem functionHeader_parallel (closed : Closed input)
    (braceless : ∀ token ∈ input, token.is .leftBrace = false) :
    (functionHeader input).Parallel (fun _ => False) tail (functionHeader (input ++ tail)) := by
  refine (Outcome.parallel_expect_other closed (by decide)).andThen ?_
  intro name rest moved _ closed
  refine (Outcome.parallel_expect_other closed (by decide)).andThen ?_
  intro opening rest moved' _ closed
  have names : (if nextIs .rightParen rest then Outcome.done []
      else (parameterNames 0 rest).relax).Parallel Closed tail
      (if nextIs .rightParen (rest ++ tail) then Outcome.done []
        else (parameterNames 0 (rest ++ tail)).relax) :=
    Outcome.parallel_unless (fun input => (parameterNames 0 input).relax) closed
      fun _ => (parameterNames_parallel closed).relax
  refine names.andThen ?_
  intro parameters rest moved'' _ closed
  refine (Outcome.parallel_expect_other closed (by decide)).andThen ?_
  intro closing rest moved3 _ closed
  refine (Outcome.parallel_expect closed ?_).map
  rintro token after rfl opens
  have within : token ∈ input :=
    moved.1.subset (moved'.1.subset (moved''.1.subset (moved3.1.subset (by simp))))
  rw [braceless token within] at opens
  cases opens

/-- A statement that begins with no keyword and no brace. -/
theorem statement_parallel_plain (closed : Closed input)
    (other : ∀ token ∈ input.head?, ∀ tag ∈ statementOpeners, token.is tag = false) :
    (statement input).Parallel (· = []) tail (statement (input ++ tail)) := by
  cases input with
  | nil => exact absurd rfl closed.ne_nil
  | cons token after =>
    have plain := other token rfl
    rw [List.cons_append, statement_other plain, statement_other plain]
    exact expressionStatement_parallel closed

end Rule

namespace Broken

variable {token : Token} {after tail : List Token}

/-- Behind the first token no statement begins but with an expression. -/
theorem openers (broken : Broken (token :: after)) :
    ∀ other ∈ after, ∀ tag ∈ Rule.statementOpeners, other.is tag = false := by
  intro other member tag opener
  have plain := broken.plain other member
  have braceless := broken.braceless other (List.mem_cons_of_mem token member)
  simp only [Rule.statementOpeners, List.mem_cons, List.not_mem_nil, or_false] at opener
  rcases opener with rfl | rfl | rfl | rfl | rfl | rfl
  · exact plain _ (by decide)
  · exact plain _ (by decide)
  · exact plain _ (by decide)
  · exact plain _ (by decide)
  · exact braceless.1
  · exact plain _ (by decide)

theorem beginsStatement (broken : Broken (token :: after)) :
    ∀ other ∈ after, other.beginsStatement = false := by
  intro other member
  simpa [Token.beginsStatement] using broken.plain other member

/-- A statement inside a broken one begins with no keyword and no brace. -/
theorem inner_parallel (broken : Broken (token :: after)) {rest : List Token}
    (within : rest <:+ after) (closed : Closed rest) :
    (Rule.statement rest).Parallel (· = []) tail (Rule.statement (rest ++ tail)) := by
  refine Rule.statement_parallel_plain closed fun other head => ?_
  exact broken.openers other (within.subset (List.mem_of_mem_head? head))

theorem statement_parallel (broken : Broken (token :: after))
    (noElse : Rule.nextIs .elseKeyword tail = false) :
    (Rule.statement (token :: after)).Parallel (· = []) tail
      (Rule.statement (token :: (after ++ tail))) := by
  have noFor := (broken.starts token rfl).2
  have noBlock := (broken.braceless token (by simp)).1
  by_cases branches : token.is .ifKeyword = true
  · rw [Rule.statement_if branches, Rule.statement_if branches]
    refine ((Rule.condition_parallel (broken.closed.behind branches (by decide))).andThen ?_).behind
    intro value rest moved _ closed
    refine (broken.inner_parallel moved.1 closed).andThen ?_
    rintro consequence _ _ _ rfl
    -- Nothing is left of these tokens, so what stands behind decides that there is no alternative.
    cases tail with
    | nil => exact Outcome.parallel_done rfl
    | cons next others =>
      have noElse : ¬next.is .elseKeyword = true := by simpa [Rule.nextIs] using noElse
      dsimp only [List.nil_append]
      rw [if_neg noElse]
      exact Outcome.parallel_done rfl
  · by_cases loops : token.is .whileKeyword = true
    · rw [Rule.statement_while loops, Rule.statement_while loops]
      refine ((Rule.condition_parallel (broken.closed.behind loops (by decide))).andThen ?_).behind
      exact fun value rest moved _ closed => (broken.inner_parallel moved.1 closed).map
    · by_cases returns : token.is .returnKeyword = true
      · rw [Rule.statement_return returns, Rule.statement_return returns]
        exact (Rule.returnStatement_parallel (broken.closed.behind returns (by decide))).behind
      · by_cases prints : token.is .printKeyword = true
        · rw [Rule.statement_print prints, Rule.statement_print prints]
          exact (Rule.terminated_parallel (broken.closed.behind prints (by decide))).map.behind
        · refine Rule.statement_parallel_plain broken.closed ?_
          rintro _ ⟨⟩
          simp only [Bool.not_eq_true] at branches loops returns prints
          simp [Rule.statementOpeners, *]

/-- Whatever a broken declaration stops at, behind that no statement begins. -/
theorem plain_within (broken : Broken (token :: after)) {remaining : List Token}
    (within : remaining <:+ token :: after) :
    ∀ next ∈ remaining.tail, next.beginsStatement = false := by
  intro next member
  rcases List.suffix_cons_iff.mp within with rfl | inner
  · exact broken.beginsStatement next member
  · exact broken.beginsStatement next (inner.subset (List.mem_of_mem_tail member))

/-- Both declarations are given up at the same token, or neither is, and both go on behind the
semicolon. -/
theorem recover_parallel (broken : Broken (token :: after))
    {outcome : Outcome Stmt true (token :: after)}
    {other : Outcome Stmt true (token :: (after ++ tail))}
    (parallel : outcome.Parallel (· = []) tail other) :
    outcome.recover.Parallel (· = []) tail other.recover := by
  cases outcome with
  | accepted result rest moved notes =>
    cases other with
    | stopped complaint' within' notes' => exact parallel.2.elim
    | accepted result' rest' moved' notes' =>
      obtain ⟨nothing, rfl, leaves, same⟩ := parallel
      exact ⟨nothing, rfl, leaves, same⟩
  | stopped complaint within notes =>
    cases other with
    | accepted result' rest' moved' notes' => exact parallel.2.elim
    | stopped complaint' within' notes' =>
      obtain ⟨closed, rfl, same⟩ := parallel
      have plain := broken.plain_within within
      have here := Rule.synchronize_eq_nil closed plain
      have there := Rule.synchronize_closed closed plain tail
      refine ⟨here, rfl, ?_, same.append (sameFaults_single closed.ne_nil tail)⟩
      rw [there, here, List.nil_append]

theorem declaration_parallel (broken : Broken (token :: after))
    (noElse : Rule.nextIs .elseKeyword tail = false) :
    (Rule.declaration token after).Parallel (· = []) tail
      (Rule.declaration token (after ++ tail)) := by
  by_cases unsupported : token.is .classKeyword = true
  · have closed := broken.closed.behind unsupported (by decide)
    have plain : ∀ next ∈ after.tail, next.beginsStatement = false :=
      fun next member => broken.beginsStatement next (List.mem_of_mem_tail member)
    have here := Rule.synchronize_eq_nil closed plain
    have there := Rule.synchronize_closed closed plain tail
    rw [Rule.declaration_class unsupported, Rule.declaration_class unsupported]
    refine ⟨here, rfl, ?_, sameFaults_single (by simp) tail⟩
    rw [there, here, List.nil_append]
  · by_cases function : token.is .funKeyword = true
    · rw [Rule.declaration_fun function, Rule.declaration_fun function]
      have braceless : ∀ next ∈ after, next.is .leftBrace = false :=
        fun next member => (broken.braceless next (List.mem_cons_of_mem token member)).1
      have closed := broken.closed.behind function (by decide)
      refine broken.recover_parallel (Outcome.Parallel.behind ?_)
      exact (Rule.functionHeader_parallel closed braceless).andThen
        fun _ _ _ _ impossible => impossible.elim
    · by_cases declares : token.is .varKeyword = true
      · rw [Rule.declaration_var declares, Rule.declaration_var declares]
        have closed := broken.closed.behind declares (by decide)
        exact broken.recover_parallel (Rule.variableDeclaration_parallel closed).behind
      · rw [Rule.declaration_other unsupported function declares,
          Rule.declaration_other unsupported function declares]
        exact broken.recover_parallel (broken.statement_parallel noElse)

end Broken
end Script
