import Script.Proofs.Parsing.PhrasePredicts

/-! The rules for statements and declarations predict the relaxed grammar. -/

namespace Script

namespace Grammar

/-- The texts of a rank of the relaxed grammar. -/
def Rank.texts (rank : Rank) : Language Token := {tokens | ∃ outline, Outlined rank tokens outline}

/-- The texts of an expression that may be missing. -/
def maybeTexts : Language Token := {tokens | ∃ drafts, DraftedMaybe tokens drafts}

/-- The texts of a variable declaration, from its name on. -/
def variableTexts : Language Token :=
  {tokens | ∀ keyword : Token, keyword.is .varKeyword → ∃ drafts,
    DraftedVariable (keyword :: tokens) drafts}

/-- What makes a variable declaration when put behind its name. -/
def variableTails : Language Token :=
  {tokens | ∀ name : Token, name.is .identifier → name :: tokens ∈ variableTexts}

/-- The texts of what comes first in the header of a counting loop. -/
def initialTexts : Language Token := {tokens | ∃ drafts, DraftedInitial tokens drafts}

/-- Names with commas between them. -/
def nameListTexts : Language Token :=
  {tokens | ∃ names : List Token, (∀ name ∈ names, name.is .identifier) ∧
    Separated (names.map ([·])) tokens}

/-- Names, at least one, with commas between them. -/
def someNameListTexts : Language Token :=
  {tokens | ∃ names : List Token, names ≠ [] ∧ (∀ name ∈ names, name.is .identifier) ∧
    Separated (names.map ([·])) tokens}

/-- What makes a list of names when put behind its first. -/
def nameListTails : Language Token :=
  {tokens | ∀ name : Token, name.is .identifier → name :: tokens ∈ someNameListTexts}

/-- The texts of an expression in parentheses. -/
def conditionTexts : Language Token :=
  Tag.leftParen.texts * (Level.assignment.texts * Tag.rightParen.texts)

/-- The texts of what stands between the parentheses of a counting loop, and of these. -/
def forHeaderTexts : Language Token :=
  Tag.leftParen.texts * (initialTexts * (maybeTexts * (Tag.semicolon.texts *
    (maybeTexts * Tag.rightParen.texts))))

/-- The texts of a function's name and parameters, and of the brace behind them. -/
def functionHeaderTexts : Language Token :=
  Tag.identifier.texts * (Tag.leftParen.texts * (nameListTexts *
    (Tag.rightParen.texts * Tag.leftBrace.texts)))

/-- The texts of an alternative, with its keyword, or of none. -/
def alternativeTexts : Language Token := 1 + Tag.elseKeyword.texts * Rank.statement.texts

/-- The texts of declarations one after another. -/
def programTexts : Language Token := {tokens | ∃ outlines, OutlinedProgram tokens outlines}

/-- The texts of the statements of a block and its closing brace. -/
def blockTexts : Language Token := programTexts * Tag.rightBrace.texts

theorem nil_mem_maybeTexts : [] ∈ maybeTexts := ⟨[], .none⟩

theorem nil_mem_programTexts : [] ∈ programTexts := ⟨[], [], by simp, rfl, rfl⟩

theorem nil_mem_nameListTexts : [] ∈ nameListTexts := ⟨[], by simp, .none⟩

theorem append_mem_programTexts {tokens more : List Token}
    (member : tokens ∈ Rank.declaration.texts) (others : more ∈ programTexts) :
    tokens ++ more ∈ programTexts := by
  obtain ⟨outline, outlined⟩ := member
  obtain ⟨_, parts, each, rfl, _⟩ := others
  exact ⟨_, (tokens, outline) :: parts, List.forall_mem_cons.mpr ⟨outlined, each⟩, rfl, rfl⟩

theorem Rank.mem_declaration_texts {tokens : List Token} (member : tokens ∈ Rank.statement.texts) :
    tokens ∈ Rank.declaration.texts := by
  obtain ⟨outline, outlined⟩ := member
  exact ⟨outline, .statement outlined⟩

theorem Rank.exists_mem_texts : ∃ tokens, tokens ∈ Rank.statement.texts := by
  obtain ⟨tokens, draft, drafted⟩ := Level.exists_mem_texts
  obtain ⟨_, closing, rfl, closes⟩ := Tag.semicolon.exists_mem_texts
  exact ⟨_, _, .expression drafted closes⟩

end Grammar

open Grammar

namespace Rule

variable {input after : List Token} {token : Token}

theorem optionalBefore_predicts {closer : Tag} :
    Predicts maybeTexts (optionalBefore closer) input := by
  refine Predicts.orNothing nil_mem_maybeTexts fun _ => ?_
  refine (expression_predicts_texts.mono ?_).map.relax
  rintro tokens ⟨draft, drafted⟩
  exact ⟨_, .some drafted⟩

theorem terminated_predicts {what : Expectation} :
    Predicts (Level.assignment.texts * Tag.semicolon.texts) (terminated what) input := by
  obtain ⟨_, member⟩ := Tag.semicolon.exists_mem_texts
  exact expression_predicts_texts.andThen member fun _ _ _ => Predicts.expect.map

theorem expressionStatement_predicts :
    Predicts Rank.statement.texts expressionStatement input := by
  refine terminated_predicts.map.mono ?_
  rintro _ ⟨tokens, ⟨draft, drafted⟩, _, ⟨closing, rfl, closes⟩, rfl⟩
  exact ⟨_, .expression drafted closes⟩

theorem mem_variableTails {tokens : List Token} (member : tokens ∈ Tag.semicolon.texts) :
    tokens ∈ variableTails := by
  obtain ⟨closing, rfl, closes⟩ := member
  exact fun name named keyword declares => ⟨_, .bare declares named closes⟩

theorem variableBehind_predicts {name : Token} :
    Predicts variableTails (variableBehind name) input := by
  obtain ⟨_, member⟩ := Tag.semicolon.exists_mem_texts
  cases input with
  | nil => exact (Predicts.stop .variableEnd (mem_variableTails member)).of_nil rfl
  | cons sign after =>
    by_cases equals : sign.is .equal = true
    · refine (terminated_predicts.map.behind fun more => if_pos equals).mono ?_
      rintro _ ⟨_, rfl, _, ⟨tokens, ⟨draft, drafted⟩, _, ⟨closing, rfl, closes⟩, rfl⟩, rfl⟩
        name named keyword declares
      exact ⟨_, .initial declares named equals drafted closes⟩
    · exact (Predicts.expect.map.relax.mono fun _ => mem_variableTails).of_cons fun more =>
        if_neg equals

theorem variableDeclaration_predicts : Predicts variableTexts variableDeclaration input := by
  obtain ⟨_, member⟩ := Tag.semicolon.exists_mem_texts
  refine ((Predicts.expect.andThen (mem_variableTails member) fun _ _ _ =>
    variableBehind_predicts).mono ?_).congr fun more _ => variableDeclaration_eq more
  rintro _ ⟨_, ⟨name, rfl, named⟩, tokens, tail, rfl⟩
  exact tail name named

theorem returnStatement_predicts {keyword : Token} :
    Predicts (maybeTexts * Tag.semicolon.texts) (returnStatement keyword) input := by
  obtain ⟨_, member⟩ := Tag.semicolon.exists_mem_texts
  exact optionalBefore_predicts.andThen member fun _ _ _ => Predicts.expect.map

theorem condition_predicts {start stop : Expectation} :
    Predicts conditionTexts (condition start stop) input := by
  obtain ⟨_, closing⟩ := Tag.rightParen.exists_mem_texts
  obtain ⟨_, inner⟩ := Level.exists_mem_texts
  exact Predicts.expect.andThen (Language.append_mem_mul inner closing) fun _ _ _ =>
    expression_predicts_texts.andThen closing fun _ _ _ => Predicts.expect.map

theorem forInitial_predicts : Predicts initialTexts forInitial input := by
  have expression {input : List Token} :
      Predicts initialTexts (fun input => (expressionStatement input).map some) input := by
    refine (terminated_predicts.map.mono ?_).map
    rintro _ ⟨tokens, ⟨draft, drafted⟩, _, ⟨closing, rfl, closes⟩, rfl⟩
    exact ⟨_, .expression drafted closes⟩
  cases input with
  | nil => exact expression.of_nil rfl
  | cons first after =>
    by_cases closes : first.is .semicolon = true
    · refine ((Predicts.done none).behind fun more => if_pos closes).mono ?_
      rintro _ ⟨_, rfl, _, rfl, rfl⟩
      exact ⟨_, .none closes⟩
    · by_cases declares : first.is .varKeyword = true
      · refine (variableDeclaration_predicts.map.behind fun more =>
          (if_neg closes).trans (if_pos declares)).mono ?_
        rintro _ ⟨_, rfl, tokens, declared, rfl⟩
        obtain ⟨drafts, declared⟩ := declared first declares
        exact ⟨drafts, .declaration declared⟩
      · exact expression.of_cons fun more => (if_neg closes).trans (if_neg declares)

theorem forHeader_predicts : Predicts forHeaderTexts forHeader input := by
  obtain ⟨_, semicolon⟩ := Tag.semicolon.exists_mem_texts
  obtain ⟨_, closing⟩ := Tag.rightParen.exists_mem_texts
  obtain ⟨_, closing', rfl, closes⟩ := Tag.semicolon.exists_mem_texts
  have initial : [closing'] ∈ initialTexts := ⟨_, .none closes⟩
  have step := Language.append_mem_mul nil_mem_maybeTexts closing
  have separator := Language.append_mem_mul semicolon step
  have condition := Language.append_mem_mul nil_mem_maybeTexts separator
  exact Predicts.expect.andThen (Language.append_mem_mul initial condition) fun _ _ _ =>
    forInitial_predicts.andThen condition fun _ _ _ =>
      optionalBefore_predicts.andThen separator fun _ _ _ =>
        Predicts.expect.andThen step fun _ _ _ =>
          optionalBefore_predicts.andThen closing fun _ _ _ => Predicts.expect.map

theorem parameterNames_predicts {count : Nat} :
    Predicts someNameListTexts (parameterNames count) input := by
  have nothing : [] ∈ nameListTails :=
    fun name named => ⟨[name], by simp, by simpa using named, .one _⟩
  induction count, input using parameterNames.induct with
  | case1 count input ih =>
    have listed (name : Token) (rest : List Token) (moved : Moved true rest input) :
        Predicts nameListTails (parameterNamesBehind count name) rest := by
      refine Predicts.optional nothing rfl (fun comma after other => if_neg other)
        (fun comma after between => if_pos between)
        (fun comma after split _ => (ih comma after (split ▸ moved)).map) ?_
      rintro comma between tokens ⟨names, some, each, separated⟩ name named
      obtain _ | ⟨next, names⟩ := names
      · exact absurd rfl some
      exact ⟨name :: next :: names, by simp, List.forall_mem_cons.mpr ⟨named, each⟩,
        .more between separated⟩
    have mild (more : List Token) :
        Mild (if maxArity ≤ count then [⟨.tooManyParameters, more⟩] else []) := by
      split <;> simp [Mild, ParseCause.unwinds]
    refine (((Predicts.expect.noting mild).andThen nothing listed).mono ?_).congr
      fun more _ => parameterNames_eq count more
    rintro _ ⟨_, ⟨name, rfl, named⟩, tokens, tail, rfl⟩
    exact tail name named

theorem parameters_predict : Predicts nameListTexts
    (fun input => if nextIs .rightParen input then .done [] else (parameterNames 0 input).relax)
    input := by
  refine Predicts.orNothing nil_mem_nameListTexts fun _ => (parameterNames_predicts.mono ?_).relax
  rintro tokens ⟨names, _, each, separated⟩
  exact ⟨names, each, separated⟩

theorem functionHeader_predicts : Predicts functionHeaderTexts functionHeader input := by
  obtain ⟨_, opening⟩ := Tag.leftParen.exists_mem_texts
  obtain ⟨_, closing⟩ := Tag.rightParen.exists_mem_texts
  obtain ⟨_, brace⟩ := Tag.leftBrace.exists_mem_texts
  have ending := Language.append_mem_mul closing brace
  have names := Language.append_mem_mul nil_mem_nameListTexts ending
  exact Predicts.expect.andThen (Language.append_mem_mul opening names) fun _ _ _ =>
    Predicts.expect.andThen names fun _ _ _ => parameters_predict.andThen ending fun _ _ _ =>
      Predicts.expect.andThen brace fun _ _ _ => Predicts.expect.map

theorem statement_for_predicts (found : token.is .forKeyword = true)
    (inner : ∀ rest, Moved true rest after → Predicts Rank.statement.texts statement rest) :
    Predicts Rank.statement.texts statement (token :: after) := by
  obtain ⟨_, member⟩ := Rank.exists_mem_texts
  refine ((forHeader_predicts.andThen member fun _ rest moved => (inner rest moved).map).behind
    fun more => statement_for found).mono ?_
  rintro _ ⟨_, rfl, _, ⟨_, ⟨_, ⟨opening, rfl, opens⟩, _, ⟨initialTokens, ⟨initial, start⟩,
    _, ⟨conditionTokens, ⟨condition, tested⟩, _, ⟨_, ⟨middle, rfl, separates⟩,
    _, ⟨stepTokens, ⟨step, steps⟩, _, ⟨closing, rfl, closes⟩, rfl⟩, rfl⟩, rfl⟩, rfl⟩, rfl⟩,
    tokens, ⟨body, outlined⟩, rfl⟩, rfl⟩
  have counting := Outlined.counting found opens start tested separates steps closes outlined
  exact ⟨_, by simpa using counting⟩

theorem statement_if_predicts (found : token.is .ifKeyword = true)
    (inner : ∀ rest, Moved true rest after → Predicts Rank.statement.texts statement rest)
    (outer : ∀ rest, Moved true rest after → ∀ keyword others,
      Moved true (keyword :: others) rest → Predicts Rank.statement.texts statement others) :
    Predicts Rank.statement.texts statement (token :: after) := by
  obtain ⟨_, member⟩ := Rank.exists_mem_texts
  have nothing : [] ∈ alternativeTexts := .inl rfl
  have alternative (condition : Expr) (consequence : Stmt) (rest behind : List Token)
      (moved : Moved true rest after) (moved' : Moved true behind rest) :
      Predicts alternativeTexts (alternativeBehind condition consequence) behind := by
    refine Predicts.optional nothing rfl (fun keyword others other => if_neg other)
      (fun keyword others otherwise => if_pos otherwise)
      (fun keyword others split _ => (outer rest moved keyword others (split ▸ moved')).map) ?_
    exact fun keyword otherwise tokens outlined =>
      .inr (Language.append_mem_mul (Tag.mem_texts otherwise) outlined)
  refine ((condition_predicts.andThen (Language.append_mem_mul member nothing)
    fun condition rest moved => (inner rest moved).andThen nothing fun consequence behind moved' =>
      alternative condition consequence rest behind moved moved').behind
        (statement_if_eq found)).mono ?_
  rintro _ ⟨_, rfl, _, ⟨_, ⟨_, ⟨opening, rfl, opens⟩, _, ⟨conditionTokens, ⟨condition, tested⟩,
    _, ⟨closing, rfl, closes⟩, rfl⟩, rfl⟩, _, ⟨tokens, ⟨consequence, outlined⟩, _,
    rfl | ⟨_, ⟨other, rfl, otherwise⟩, otherTokens, ⟨alternative, outlined'⟩, rfl⟩, rfl⟩, rfl⟩, rfl⟩
  · have branch := Outlined.branch found opens tested closes outlined
    exact ⟨_, by simpa using branch⟩
  · have branch := Outlined.alternative found opens tested closes outlined otherwise outlined'
    exact ⟨_, by simpa using branch⟩

theorem statement_while_predicts (found : token.is .whileKeyword = true)
    (inner : ∀ rest, Moved true rest after → Predicts Rank.statement.texts statement rest) :
    Predicts Rank.statement.texts statement (token :: after) := by
  obtain ⟨_, member⟩ := Rank.exists_mem_texts
  refine ((condition_predicts.andThen member fun _ rest moved => (inner rest moved).map).behind
    fun more => statement_while found).mono ?_
  rintro _ ⟨_, rfl, _, ⟨_, ⟨_, ⟨opening, rfl, opens⟩, _, ⟨conditionTokens, ⟨condition, tested⟩,
    _, ⟨closing, rfl, closes⟩, rfl⟩, rfl⟩, tokens, ⟨body, outlined⟩, rfl⟩, rfl⟩
  have loop := Outlined.loop found opens tested closes outlined
  exact ⟨_, by simpa using loop⟩

theorem statement_return_predicts (found : token.is .returnKeyword = true) :
    Predicts Rank.statement.texts statement (token :: after) := by
  refine (returnStatement_predicts.behind fun more => statement_return found).mono ?_
  rintro _ ⟨_, rfl, _, ⟨tokens, ⟨value, result⟩, _, ⟨closing, rfl, closes⟩, rfl⟩, rfl⟩
  exact ⟨_, .returning found result closes⟩

theorem statement_block_predicts (found : token.is .leftBrace = true)
    (inner : Predicts blockTexts block after) :
    Predicts Rank.statement.texts statement (token :: after) := by
  refine (inner.map.behind fun more => statement_block found).mono ?_
  rintro _ ⟨_, rfl, _, ⟨_, ⟨_, parts, each, rfl, _⟩, _, ⟨closing, rfl, closes⟩, rfl⟩, rfl⟩
  exact ⟨_, .block found each closes⟩

theorem statement_print_predicts (found : token.is .printKeyword = true) :
    Predicts Rank.statement.texts statement (token :: after) := by
  refine (terminated_predicts.map.behind fun more => statement_print found).mono ?_
  rintro _ ⟨_, rfl, _, ⟨tokens, ⟨value, drafted⟩, _, ⟨closing, rfl, closes⟩, rfl⟩, rfl⟩
  exact ⟨_, .print found drafted closes⟩

theorem block_predicts (inner : Predicts programTexts (declarations true) input) :
    Predicts blockTexts block input := by
  obtain ⟨_, member⟩ := Tag.rightBrace.exists_mem_texts
  exact (inner.andThen member fun _ _ _ => Predicts.expect.map).congr fun more _ => block.eq_1 more

theorem declarations_predict {inBlock : Bool}
    (inside : ¬(inBlock && token.is .rightBrace) = true)
    (first : Predicts Rank.declaration.texts declare (token :: after))
    (others : ∀ rest, Moved true rest (token :: after) →
      Predicts programTexts (declarations inBlock) rest) :
    Predicts programTexts (declarations inBlock) (token :: after) := by
  refine (((first.andThen nil_mem_programTexts fun _ rest moved =>
    (others rest moved).map).mono ?_).relax).of_cons fun more => declarations_more inside
  rintro _ ⟨tokens, member, more, others, rfl⟩
  exact append_mem_programTexts member others

theorem declaration_fun_predicts (found : token.is .funKeyword = true)
    (inner : ∀ rest, Moved true rest after → Predicts blockTexts block rest) :
    Predicts Rank.declaration.texts declare (token :: after) := by
  obtain ⟨_, member⟩ := Tag.rightBrace.exists_mem_texts
  have body := Language.append_mem_mul nil_mem_programTexts member
  refine ((functionHeader_predicts.andThen body fun _ rest moved =>
    (inner rest moved).map).behindFirst.recover fun more => declaration_fun found).mono ?_
  rintro _ ⟨_, rfl, _, ⟨_, ⟨_, ⟨name, rfl, named⟩, _, ⟨_, ⟨opening, rfl, opens⟩,
    _, ⟨listTokens, ⟨parameters, each, listed⟩, _, ⟨_, ⟨closing, rfl, closes⟩,
    _, ⟨bodyOpening, rfl, bodyOpens⟩, rfl⟩, rfl⟩, rfl⟩, rfl⟩,
    _, ⟨_, ⟨_, parts, inner, rfl, _⟩, _, ⟨bodyClosing, rfl, bodyCloses⟩, rfl⟩, rfl⟩, rfl⟩
  have function :=
    Outlined.function found named opens each listed closes bodyOpens inner bodyCloses
  exact ⟨_, by simpa using function⟩

theorem declaration_var_predicts (found : token.is .varKeyword = true) :
    Predicts Rank.declaration.texts declare (token :: after) := by
  refine (variableDeclaration_predicts.behindFirst.recover fun more =>
    declaration_var found).mono ?_
  rintro _ ⟨_, rfl, tokens, declared, rfl⟩
  obtain ⟨drafts, declared⟩ := declared token found
  exact ⟨_, .declaration declared⟩

theorem declaration_class_predicts (found : token.is .classKeyword = true) :
    Predicts Rank.declaration.texts declare (token :: after) := by
  obtain ⟨_, member⟩ := Rank.exists_mem_texts
  refine Predicts.blame (Rank.mem_declaration_texts member) ⟨.unsupportedClass, ?_⟩
    fun more alike => ?_
  · simp only [declare, declaration_class found]
    rfl
  · obtain ⟨others, rfl⟩ := List.head?_eq_some_iff.mp alike
    simp only [declare, declaration_class found]
    exact Option.some_ne_none _

/-- Every statement and declaration rule predicts its part of the relaxed grammar. -/
theorem statements_predict :
    (∀ input, Predicts Rank.statement.texts statement input) ∧
    (∀ input, Predicts blockTexts block input) ∧
    (∀ inBlock input, Predicts programTexts (declarations inBlock) input) ∧
    ∀ token after, Predicts Rank.declaration.texts declare (token :: after) := by
  refine statement.mutual_induct _ _ _ _ ?statementEnd ?counting ?branch ?loop ?returning
    ?enclosing ?print ?expression ?block ?declarationsEnd ?close ?more ?unsupported ?function
    ?declaration ?statement
  case statementEnd => exact expressionStatement_predicts.of_nil statement_nil
  case counting => exact fun token after => statement_for_predicts
  case branch => exact fun token after _ => statement_if_predicts
  case loop => exact fun token after _ _ => statement_while_predicts
  case returning => exact fun token after _ _ _ => statement_return_predicts
  case enclosing => exact fun token after _ _ _ _ => statement_block_predicts
  case print => exact fun token after _ _ _ _ _ => statement_print_predicts
  case expression =>
    intro token after noFor noIf noWhile noReturn noBlock noPrint
    exact expressionStatement_predicts.of_cons fun more =>
      statement_other (by simp [statementOpeners, *])
  case block => exact fun input => block_predicts
  case declarationsEnd =>
    exact fun inBlock => (Predicts.empty [] nil_mem_programTexts).of_nil declarations_nil
  case close =>
    intro inBlock token after closes
    exact (Predicts.empty [] nil_mem_programTexts).of_cons fun more => declarations_close closes
  case more => exact fun inBlock token after => declarations_predict
  case unsupported => exact fun token after => declaration_class_predicts
  case function => exact fun token after _ => declaration_fun_predicts
  case declaration => exact fun token after _ _ => declaration_var_predicts
  case statement =>
    intro token after noClass noFun noVar ih
    exact (ih.mono fun _ => Rank.mem_declaration_texts).recover fun more =>
      declaration_other noClass noFun noVar

theorem declarations_predict_programs {inBlock : Bool} :
    Predicts programTexts (declarations inBlock) input := statements_predict.2.2.1 inBlock input

end Rule

end Script
