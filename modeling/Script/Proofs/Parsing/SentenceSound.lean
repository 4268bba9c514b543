import Script.Proofs.Grammar.Sentence
import Script.Proofs.Parsing.PhraseSound

/-! Whatever a statement or declaration rule accepts is a sentence of the grammar with the same
tree and the same faults. -/

namespace Script

open Grammar

namespace Rule

variable {input after : List Token} {last token : Token}

theorem optionalBefore_derives {closer : Tag} :
    (optionalBefore closer input).Derives last fun mode taken _ value faults =>
      Maybe mode taken value faults := by
  unfold optionalBefore
  split
  · exact Outcome.derives_done fun mode => .none
  · refine (expression_derives_phrase.mono ?_).map.relax
    exact fun mode taken rest value faults derived => .some derived

theorem terminated_derives {what : Expectation} :
    (terminated what input).Derives last fun mode taken _ value faults =>
      ∃ tokens closing, taken = tokens ++ [closing] ∧
        Phrase mode .assignment tokens value faults ∧ closing.is .semicolon = true := by
  refine (expression_derives_phrase.andThen fun _ _ _ => Outcome.derives_expectLast).mono ?_
  rintro mode _ rest _ _ ⟨tokens, _, _, faults, _, rfl, rfl, phrase, closing, rfl, closes, rfl, rfl⟩
  exact ⟨tokens, closing, rfl, by simpa using phrase, closes⟩

theorem expressionStatement_derives :
    (expressionStatement input).Derives last fun mode taken _ tree faults =>
      Sentence mode (.statement false) taken tree faults := by
  refine (terminated_derives.mono ?_).map
  rintro mode _ rest value faults ⟨tokens, closing, rfl, phrase, closes⟩
  exact .expression phrase closes

/-- The tokens taken make a variable declaration when put behind its keyword and its name. -/
abbrev initialized (keyword name : Token) : Outcome.Account Stmt :=
  fun mode taken _ tree faults => name.is .identifier = true →
    Variable mode (keyword :: name :: taken) tree faults

theorem variableDeclaration_derives (declares : token.is .varKeyword = true) :
    (variableDeclaration input).Derives last fun mode taken _ tree faults =>
      Variable mode (token :: taken) tree faults := by
  refine (?_ : Outcome.Derives last
    (Outcome.Account.andThen (.single .identifier) (initialized token)) _).mono ?_
  · refine Outcome.derives_expect.andThen fun name rest moved => ?_
    cases rest with
    | nil => exact Outcome.derives_stop
    | cons sign after =>
      dsimp only
      split
      · rename_i equals
        refine (terminated_derives.mono ?_).map.behind
        rintro mode _ rest value faults ⟨tokens, closing, rfl, phrase, closes⟩ named
        exact .initial declares named equals phrase closes
      · refine (Outcome.derives_expectLast.mono ?_).relax
        rintro mode _ rest tree _ ⟨closing, rfl, closes, rfl, rfl⟩ named
        exact .bare declares named closes
  · rintro mode _ rest tree _ ⟨_, more, name, _, faults, rfl, rfl, ⟨rfl, named, rfl⟩, holds⟩
    exact holds named

theorem returnStatement_derives (returns : token.is .returnKeyword = true) :
    (returnStatement token input).Derives last fun mode taken _ tree faults =>
      Sentence mode (.statement false) (token :: taken) tree faults := by
  refine (optionalBefore_derives.andThen fun _ _ _ => Outcome.derives_expectLast).mono ?_
  rintro mode _ rest _ _ ⟨tokens, _, value, faults, _, rfl, rfl, result, closing, rfl, closes, rfl,
    rfl⟩
  simpa using Sentence.returning returns result closes

/-- The tokens taken are a phrase in parentheses. -/
abbrev enclosed : Outcome.Account Expr := fun mode taken _ tree faults =>
  ∃ opening tokens closing, taken = opening :: tokens ++ [closing] ∧
    opening.is .leftParen = true ∧ Phrase mode .assignment tokens tree faults ∧
    closing.is .rightParen = true

theorem condition_derives {start stop : Expectation} :
    (condition start stop input).Derives last enclosed := by
  refine (Outcome.derives_expect.andThen fun _ _ _ => expression_derives_phrase.andThen
    fun _ _ _ => Outcome.derives_expectLast).mono ?_
  rintro mode _ rest _ _ ⟨_, _, opening, _, _, rfl, rfl, ⟨rfl, opens, rfl⟩,
    tokens, _, tree, faults, _, rfl, rfl, phrase, closing, rfl, closes, rfl, rfl⟩
  exact ⟨opening, tokens, closing, rfl, opens, by simpa using phrase, closes⟩

theorem forInitial_derives :
    (forInitial input).Derives last fun mode taken _ initial faults =>
      Initial mode taken initial faults := by
  have expression {input : List Token} :
      ((expressionStatement input).map some).Derives last fun mode taken _ initial faults =>
        Initial mode taken initial faults := by
    refine ((terminated_derives.mono ?_).map).map
    rintro mode _ rest value faults ⟨tokens, closing, rfl, phrase, closes⟩
    exact .expression phrase closes
  cases input with
  | nil => exact expression
  | cons first after =>
    simp only [forInitial]
    split
    · rename_i closes
      exact (Outcome.derives_done fun mode => .none closes).behind
    · split
      · rename_i declares
        refine ((variableDeclaration_derives declares).mono ?_).map.behind
        exact fun mode taken rest tree faults declared => .declaration declared
      · exact expression

/-- The tokens taken are the header of a counting loop. -/
abbrev countingHeader : Outcome.Account ForHeader := fun mode taken _ header faults =>
  ∃ opening initialTokens conditionTokens middle stepTokens closing initialFaults conditionFaults
      stepFaults,
    taken = opening :: initialTokens ++ conditionTokens ++ middle :: stepTokens ++ [closing] ∧
    faults = initialFaults ++ conditionFaults ++ stepFaults ∧ opening.is .leftParen = true ∧
    Initial mode initialTokens header.initial initialFaults ∧
    Maybe mode conditionTokens header.condition conditionFaults ∧ middle.is .semicolon = true ∧
    Maybe mode stepTokens header.step stepFaults ∧ closing.is .rightParen = true

theorem forHeader_derives : (forHeader input).Derives last countingHeader := by
  refine (Outcome.derives_expect.andThen fun _ _ _ => forInitial_derives.andThen fun _ _ _ =>
    optionalBefore_derives.andThen fun _ _ _ => Outcome.derives_expect.andThen fun _ _ _ =>
      optionalBefore_derives.andThen fun _ _ _ => Outcome.derives_expectLast).mono ?_
  rintro mode _ rest _ _ ⟨_, _, opening, _, _, rfl, rfl, ⟨rfl, opens, rfl⟩,
    initialTokens, _, initial, initialFaults, _, rfl, rfl, first,
    conditionTokens, _, condition, conditionFaults, _, rfl, rfl, tested,
    _, _, middle, _, _, rfl, rfl, ⟨rfl, separates, rfl⟩,
    stepTokens, _, step, stepFaults, _, rfl, rfl, steps, closing, rfl, closes, rfl, rfl⟩
  exact ⟨opening, initialTokens, conditionTokens, middle, stepTokens, closing, initialFaults,
    conditionFaults, stepFaults, by simp, by simp, opens, first, tested, separates, steps, closes⟩

/-- The tokens taken are parameter names, `count` of which came before. -/
abbrev namesTaken (count : Nat) : Outcome.Account (List Token) :=
  fun mode taken _ names faults => (∀ name ∈ names, name.is .identifier = true) ∧
    Separated (names.map ([·])) taken ∧
    (names.drop (255 - count)).map (⟨.tooManyParameters, ·⟩) = faults ∧
    (mode = .strict → count + names.length ≤ 255)

/-- The tokens taken are the names behind a first one, `count` before it, with a comma, or none. -/
abbrev namesBehind (count : Nat) (first : Token) : Outcome.Account (List Token) :=
  fun mode taken rest names faults =>
    (taken = [] ∧ names = [first] ∧ faults = []) ∨
    ∃ comma tokens others, taken = comma :: tokens ∧ comma.is .comma = true ∧
      names = first :: others ∧ others ≠ [] ∧ namesTaken (count + 1) mode tokens rest others faults

/-- The token taken is a parameter name, at fault if `count` others before it are too many. -/
abbrev parameterName (count : Nat) : Outcome.Account Token := fun mode taken _ name faults =>
  taken = [name] ∧ name.is .identifier = true ∧ (mode = .strict → count < 255) ∧
    faults = if 255 ≤ count then [⟨.tooManyParameters, name⟩] else []

theorem parameterName_derives {count : Nat} :
    ((expect .identifier .parameterName input).noting
      (if maxArity ≤ count then [⟨.tooManyParameters, input⟩] else [])).Derives last
      (parameterName count) := by
  refine Outcome.derives_expect.noting ?_
  rintro mode _ rest name _ clean rfl ⟨rfl, named, rfl⟩
  refine ⟨rfl, named, ?_, ?_⟩
  · rintro rfl
    by_cases full : 255 ≤ count
    · simp [maxArity, full, Outcome.Tolerated, Mode.tolerates] at clean
    · omega
  · unfold maxArity
    split <;> rfl

theorem parameterNames_derives {count : Nat} :
    (parameterNames count input).Derives last fun mode taken rest names faults =>
      names ≠ [] ∧ namesTaken count mode taken rest names faults := by
  induction count, input using parameterNames.induct with
  | case1 count input ih =>
    rw [parameterNames]
    refine (?_ : Outcome.Derives last
      ((parameterName count).andThen (namesBehind count)) _).mono ?_
    · refine parameterName_derives.andThen fun name rest moved => ?_
      cases rest with
      | nil => exact Outcome.derives_done fun mode => .inl ⟨rfl, rfl, rfl⟩
      | cons comma after =>
        dsimp only
        split
        · rename_i between
          refine ((ih comma after moved).mono ?_).map.behind
          rintro mode taken rest others faults ⟨some, listed⟩
          exact .inr ⟨comma, taken, others, rfl, between, rfl, some, listed⟩
        · exact Outcome.derives_done fun mode => .inl ⟨rfl, rfl, rfl⟩
    · rintro mode _ rest names _ ⟨_, more, name, _, _, rfl, rfl, ⟨rfl, named, few, rfl⟩,
        ⟨rfl, rfl, rfl⟩ | ⟨comma, tokens, others, rfl, between, rfl, some, each, listed, rfl, few'⟩⟩
      · refine ⟨by simp, by simpa using named, .one [name], ?_, few⟩
        simpa using (excess_names_cons []).symm
      · obtain _ | ⟨next, others⟩ := others
        · simp at some
        refine ⟨by simp, List.forall_mem_cons.mpr ⟨named, each⟩, .more between listed,
          (excess_names_cons _).symm, ?_⟩
        intro strict
        have := few' strict
        simp only [List.length_cons] at this ⊢
        omega

/-- The tokens taken are a function's name and parameters, and the brace that opens its body. -/
abbrev functionOpening : Outcome.Account (Token × List Token) := fun mode taken _ header faults =>
  ∃ opening listTokens closing bodyOpening,
    taken = header.1 :: opening :: listTokens ++ [closing, bodyOpening] ∧
    header.1.is .identifier = true ∧ opening.is .leftParen = true ∧
    (∀ parameter ∈ header.2, parameter.is .identifier = true) ∧
    Separated (header.2.map ([·])) listTokens ∧ parameterFaults header.2 = faults ∧
    (mode = .strict → header.2.length ≤ 255) ∧ closing.is .rightParen = true ∧
    bodyOpening.is .leftBrace = true

theorem parameters_derive :
    (if nextIs .rightParen input then Outcome.done []
      else (parameterNames 0 input).relax).Derives last (namesTaken 0) := by
  split
  · exact Outcome.derives_done fun mode => ⟨by simp, .none, rfl, by simp⟩
  · exact (parameterNames_derives.mono fun mode taken rest names faults taken => taken.2).relax

theorem functionHeader_derives : (functionHeader input).Derives last functionOpening := by
  refine (Outcome.derives_expect.andThen fun _ _ _ => Outcome.derives_expect.andThen fun _ _ _ =>
    parameters_derive.andThen fun _ _ _ => Outcome.derives_expect.andThen fun _ _ _ =>
      Outcome.derives_expectLast).mono ?_
  rintro mode _ rest _ _ ⟨_, _, name, _, _, rfl, rfl, ⟨rfl, named, rfl⟩,
    _, _, opening, _, _, rfl, rfl, ⟨rfl, opens, rfl⟩,
    listTokens, _, parameters, _, _, rfl, rfl, ⟨each, listed, rfl, few⟩,
    _, _, closing, _, _, rfl, rfl, ⟨rfl, closes, rfl⟩, bodyOpening, rfl, bodyOpens, rfl, rfl⟩
  exact ⟨opening, listTokens, closing, bodyOpening, by simp, named, opens, each, listed,
    by simp [parameterFaults], by simpa using few, closes, bodyOpens⟩

/-- The tokens taken are a statement, and no `else` is left that belongs to it. -/
abbrev stated : Outcome.Account Stmt := fun mode taken rest tree faults =>
  ∃ dangling, Sentence mode (.statement dangling) taken tree faults ∧
    (dangling = true → nextIs .elseKeyword rest = false)

/-- The tokens taken are the alternative of a branch, or there are none and no `else` is left. -/
abbrev alternatives (condition : Expr) (consequence : Stmt) : Outcome.Account Stmt :=
  fun mode taken rest tree faults =>
    (taken = [] ∧ tree = .branch condition consequence none ∧ faults = [] ∧
      nextIs .elseKeyword rest = false) ∨
    ∃ other tokens alternative, taken = other :: tokens ∧ other.is .elseKeyword = true ∧
      tree = .branch condition consequence (some alternative) ∧
      stated mode tokens rest alternative faults

/-- The tokens taken are declarations; they go up to the end or, in a block, to a closing brace. -/
abbrev declared (inBlock : Bool) : Outcome.Account (List Stmt) :=
  fun mode taken rest statements faults => Program mode taken statements faults ∧
    (rest = [] ∨ inBlock = true ∧ nextIs .rightBrace rest = true)

/-- The tokens taken are the declarations of a block and its closing brace. -/
abbrev blockBody : Outcome.Account (List Stmt) := fun mode taken _ statements faults =>
  ∃ tokens closing, taken = tokens ++ [closing] ∧ Program mode tokens statements faults ∧
    closing.is .rightBrace = true

/-- The tokens taken are a declaration, and it was not given up. -/
abbrev recovered : Outcome.Account (Option Stmt) := fun mode taken _ parsed faults =>
  ∃ tree, parsed = some tree ∧ Sentence mode .declaration taken tree faults

theorem loop_eq_withInitial (header : ForHeader) (body : Stmt) :
    header.loop body = withInitial header.initial
      (.loop (header.condition.getD (.literal (.boolean true))) (withStep header.step body)) := rfl

/-- The tokens taken are the body of a loop with this header. -/
abbrev looped (header : ForHeader) : Outcome.Account Stmt := fun mode taken rest tree faults =>
  ∃ body, tree = header.loop body ∧ stated mode taken rest body faults

theorem statement_for_derives (found : token.is .forKeyword = true)
    (inner : ∀ rest, Moved true rest after → (statement rest).Derives last stated) :
    (statement (token :: after)).Derives last stated := by
  rw [statement_for found]
  refine (?_ : Outcome.Derives last (countingHeader.andThen looped) _).mono ?_ |>.behind
  · refine forHeader_derives.andThen fun header rest moved => ((inner rest moved).mono ?_).map
    exact fun mode taken rest body faults derived => ⟨body, rfl, derived⟩
  · rintro mode _ rest _ _ ⟨_, tokens, header, _, faults, rfl, rfl,
      ⟨opening, initialTokens, conditionTokens, middle, stepTokens, closing, initialFaults,
        conditionFaults, stepFaults, rfl, rfl, opens, first, tested, separates, steps, closes⟩,
      body, rfl, dangling, sentence, closed⟩
    refine ⟨dangling, ?_, closed⟩
    have counting :=
      Sentence.counting found opens first tested separates steps closes sentence
    simpa [loop_eq_withInitial] using counting

theorem statement_if_derives (found : token.is .ifKeyword = true)
    (inner : ∀ rest, Moved true rest after → (statement rest).Derives last stated)
    (outer : ∀ rest, Moved true rest after → ∀ keyword others,
      Moved true (keyword :: others) rest → (statement others).Derives last stated) :
    (statement (token :: after)).Derives last stated := by
  rw [statement_if found]
  refine ((condition_derives.andThen fun condition rest moved =>
    (?_ : Outcome.Derives last (stated.andThen (alternatives condition)) _)).mono ?_).behind
  · refine (inner rest moved).andThen fun consequence behind moved' => ?_
    cases behind with
    | nil => exact Outcome.derives_done fun mode => .inl ⟨rfl, rfl, rfl, rfl⟩
    | cons keyword others =>
      dsimp only
      split
      · rename_i otherwise
        refine ((outer rest moved keyword others moved').mono ?_).map.behind
        exact fun mode taken rest tree faults derived =>
          .inr ⟨keyword, taken, tree, rfl, otherwise, rfl, derived⟩
      · rename_i noElse
        exact Outcome.derives_done fun mode => .inl ⟨rfl, rfl, rfl, by simpa [nextIs] using noElse⟩
  · rintro mode _ rest tree _ ⟨_, _, condition, conditionFaults, _, rfl, rfl,
      ⟨opening, conditionTokens, closing, rfl, opens, tested, closes⟩,
      tokens, _, consequence, faults, _, rfl, rfl, ⟨dangling, sentence, closed⟩,
      ⟨rfl, rfl, rfl, noElse⟩ | ⟨other, more, alternative, rfl, otherwise, rfl, dangling',
        sentence', closed'⟩⟩
    · refine ⟨true, ?_, fun _ => noElse⟩
      simpa using Sentence.branch found opens tested closes sentence
    · -- The `else` was taken, so the statement before it left no branch open.
      cases dangling with
      | true => simp [nextIs, otherwise] at closed
      | false =>
        refine ⟨dangling', ?_, closed'⟩
        simpa using Sentence.alternative found opens tested closes sentence otherwise sentence'

/-- The tokens taken are the body of a conditional loop. -/
abbrev repeated (condition : Expr) : Outcome.Account Stmt := fun mode taken rest tree faults =>
  ∃ body, tree = .loop condition body ∧ stated mode taken rest body faults

theorem statement_while_derives (found : token.is .whileKeyword = true)
    (inner : ∀ rest, Moved true rest after → (statement rest).Derives last stated) :
    (statement (token :: after)).Derives last stated := by
  rw [statement_while found]
  refine ((?_ : Outcome.Derives last (enclosed.andThen repeated) _).mono ?_).behind
  · refine condition_derives.andThen fun condition rest moved => ((inner rest moved).mono ?_).map
    exact fun mode taken rest body faults derived => ⟨body, rfl, derived⟩
  · rintro mode _ rest _ _ ⟨_, tokens, condition, _, faults, rfl, rfl,
      ⟨opening, conditionTokens, closing, rfl, opens, tested, closes⟩,
      body, rfl, dangling, sentence, closed⟩
    refine ⟨dangling, ?_, closed⟩
    simpa using Sentence.loop found opens tested closes sentence

/-- A statement that ends in its own token belongs to no branch that is open. -/
theorem stated_of_closed {mode : Mode} {taken rest : List Token} {tree : Stmt}
    {faults : List ParseError} (sentence : Sentence mode (.statement false) taken tree faults) :
    stated mode taken rest tree faults := ⟨false, sentence, by simp⟩

theorem statement_block_derives (found : token.is .leftBrace = true)
    (inner : (block after).Derives last blockBody) :
    (statement (token :: after)).Derives last stated := by
  rw [statement_block found]
  refine (inner.mono ?_).map.behind
  rintro mode _ rest _ _ ⟨_, closing, rfl, ⟨parts, each, rfl, rfl, rfl⟩, closes⟩
  exact stated_of_closed (.block found each closes)

theorem statement_print_derives (found : token.is .printKeyword = true) :
    (statement (token :: after)).Derives last stated := by
  rw [statement_print found]
  refine (terminated_derives.mono ?_).map.behind
  rintro mode _ rest value faults ⟨tokens, closing, rfl, phrase, closes⟩
  exact stated_of_closed (.print found phrase closes)

theorem block_derives (inner : (declarations true input).Derives last (declared true)) :
    (block input).Derives last blockBody := by
  rw [block]
  refine (inner.andThen fun _ _ _ => Outcome.derives_expectLast).mono ?_
  rintro mode _ rest _ _ ⟨tokens, _, statements, faults, _, rfl, rfl, ⟨program, _⟩,
    closing, rfl, closes, rfl, rfl⟩
  exact ⟨tokens, closing, rfl, by simpa using program, closes⟩

/-- The tokens taken are the declarations behind one that was parsed. -/
abbrev declaredBehind (inBlock : Bool) (parsed : Option Stmt) : Outcome.Account (List Stmt) :=
  fun mode taken rest statements faults => ∃ others, statements = parsed.toList ++ others ∧
    declared inBlock mode taken rest others faults

theorem declarations_derive {inBlock : Bool}
    (inside : ¬(inBlock && token.is .rightBrace) = true)
    (first : (declaration token after).Derives last recovered)
    (others : ∀ rest, Moved true rest (token :: after) →
      (declarations inBlock rest).Derives last (declared inBlock)) :
    (declarations inBlock (token :: after)).Derives last (declared inBlock) := by
  rw [declarations_more inside]
  refine ((?_ : Outcome.Derives last (recovered.andThen (declaredBehind inBlock)) _).mono ?_).relax
  · refine first.andThen fun parsed rest moved => ((others rest moved).mono ?_).map
    exact fun mode taken rest statements faults derived => ⟨statements, rfl, derived⟩
  · rintro mode _ rest _ _ ⟨taken, more, _, own, faults, rfl, rfl, ⟨tree, rfl, sentence⟩,
      statements, rfl, program, ends⟩
    exact ⟨program.cons sentence, ends⟩

/-- The tokens taken are the body of a function with this name and these parameters. -/
abbrev bodied (header : Token × List Token) : Outcome.Account Stmt :=
  fun mode taken rest tree faults => ∃ body, tree = .function header.1 header.2 body ∧
    blockBody mode taken rest body faults

theorem declaration_fun_derives (found : token.is .funKeyword = true)
    (inner : ∀ rest, Moved true rest after → (block rest).Derives last blockBody) :
    (declaration token after).Derives last recovered := by
  rw [declaration_fun found]
  refine Outcome.Derives.recover (Outcome.Derives.behind ?_)
  refine (?_ : Outcome.Derives last (functionOpening.andThen bodied) _).mono ?_
  · refine functionHeader_derives.andThen fun header rest moved => ((inner rest moved).mono ?_).map
    exact fun mode taken rest body faults derived => ⟨body, rfl, derived⟩
  · rintro mode _ rest _ _ ⟨_, _, ⟨name, parameters⟩, _, _, rfl, rfl,
      ⟨opening, listTokens, closing, bodyOpening, rfl, named, opens, each, listed, rfl, few, closes,
        bodyOpens⟩,
      body, rfl, _, bodyClosing, rfl, ⟨parts, inner, rfl, rfl, rfl⟩, bodyCloses⟩
    simpa using
      Sentence.function found named opens each listed few closes bodyOpens inner bodyCloses

/-- Every statement and declaration rule derives what it accepts. -/
theorem statements_derive (last : Token) :
    (∀ input, (statement input).Derives last stated) ∧
    (∀ input, (block input).Derives last blockBody) ∧
    (∀ inBlock input, (declarations inBlock input).Derives last (declared inBlock)) ∧
    ∀ token after, (declaration token after).Derives last recovered := by
  have expression {input : List Token} : (expressionStatement input).Derives last stated :=
    expressionStatement_derives.mono fun mode taken rest tree faults => stated_of_closed
  refine statement.mutual_induct _ _ _ _ ?statementEnd ?counting ?branch ?loop ?returning
    ?enclosing ?print ?expression ?block ?declarationsEnd ?close ?more ?unsupported ?function
    ?declaration ?statement
  case statementEnd =>
    rw [statement_nil]
    exact expression
  case counting => exact fun token after => statement_for_derives
  case branch => exact fun token after _ => statement_if_derives
  case loop => exact fun token after _ _ => statement_while_derives
  case returning =>
    intro token after _ _ _ returns
    rw [statement_return returns]
    exact ((returnStatement_derives returns).mono fun mode taken rest tree faults =>
      stated_of_closed).behind
  case enclosing => exact fun token after _ _ _ _ => statement_block_derives
  case print => exact fun token after _ _ _ _ _ => statement_print_derives
  case expression =>
    intro token after noFor noIf noWhile noReturn noBlock noPrint
    rw [statement_other (by simp [statementOpeners, *])]
    exact expression
  case block => exact fun input => block_derives
  case declarationsEnd =>
    intro inBlock
    rw [declarations_nil]
    exact Outcome.derives_done fun mode => ⟨.nil, .inl rfl⟩
  case close =>
    intro inBlock token after closes
    rw [declarations_close closes]
    exact Outcome.derives_done fun mode => ⟨.nil, .inr (by simpa [nextIs] using closes)⟩
  case more => exact fun inBlock token after => declarations_derive
  case unsupported =>
    intro token after found
    rw [declaration_class found]
    intro mode clean
    have tolerated := clean _ (List.mem_singleton_self _)
    cases mode <;> simp [Mode.tolerates] at tolerated
  case function => exact fun token after _ => declaration_fun_derives
  case declaration =>
    intro token after noClass noFun declares
    rw [declaration_var declares]
    refine Outcome.Derives.recover (Outcome.Derives.behind ?_)
    refine (variableDeclaration_derives declares).mono ?_
    exact fun mode taken rest tree faults => .declaration
  case statement =>
    intro token after noClass noFun noVar ih
    rw [declaration_other noClass noFun noVar]
    refine Outcome.Derives.recover (ih.mono ?_)
    rintro mode taken rest tree faults ⟨dangling, sentence, closed⟩
    exact .statement sentence

theorem declarations_derive_program {inBlock : Bool} :
    (declarations inBlock input).Derives last (declared inBlock) :=
  (statements_derive last).2.2.1 inBlock input

end Rule
end Script
