import Script.Proofs.Parsing.Omission

/-! A program with one semicolon left out has at most one fault, unless what stands behind that
semicolon is a brace or one of the keywords that lead to further statements. -/

namespace Script

open Grammar

namespace Rule

/-- A semicolon outside of all parentheses is left out between two parts of a sentence, or at its
end, where what stands before it runs into what follows the sentence. -/
structure Omitted (before : List Token) (semicolon : Token) (after follow rest : List Token) :
    Prop where
  closes : semicolon.is .semicolon = true
  outside : openParens before = 0
  clear : ∀ next ∈ (after ++ (follow ++ rest)).head?, ∀ tag ∈ compoundTags, next.is tag = false
  atEnd : after = [] → RunsInto follow rest
  before_end : after ≠ [] → follow = []

variable {before after follow rest tokens : List Token} {semicolon : Token} {form : Form}

theorem Omitted.inner {middle : List Token} (omitted : Omitted before semicolon after follow rest)
    (outside : openParens middle = 0) : Omitted middle semicolon after follow rest :=
  { omitted with outside }

/-- Without the semicolon the rule of the form lands behind the sentence and what follows it. -/
def Heals : Form → List Token → Prop
  | .declaration, tokens => ∀ before semicolon after follow rest,
      tokens = before ++ semicolon :: after → Omitted before semicolon after follow rest →
      nextIs .elseKeyword rest = false →
      ∃ first others, before = first :: others ∧
        (declaration first (others ++ (after ++ (follow ++ rest)))).Lands False rest
  | .statement dangling, tokens => ∀ before semicolon after follow rest,
      tokens = before ++ semicolon :: after → Omitted before semicolon after follow rest →
      (dangling = true → nextIs .elseKeyword rest = false) →
      (statement (before ++ (after ++ (follow ++ rest)))).Lands (after = []) rest

/-- Where a semicolon closes the tokens and is their only one, it is the one left out. -/
theorem Omitted.at_close {front : List Token} {closing : Token}
    (omitted : Omitted before semicolon after follow rest)
    (same : front ++ [closing] = before ++ semicolon :: after) (unclosed : Unclosed front) :
    before = front ∧ after = [] ∧ RunsInto follow rest := by
  rcases unclosed.split same omitted.closes with ⟨rfl, _, rfl⟩ | ⟨middle, _, none⟩
  · exact ⟨rfl, rfl, omitted.atEnd rfl⟩
  · cases middle <;> cases none

section Lists

variable {parts : List (Piece Stmt)} {inBlock : Bool} {last : Token} {tail : List Token}

/-- Strict declarations are accepted, up to tokens that no declaration begins with. -/
theorem declarations_pass (each : ∀ part ∈ parts, Sentence .strict .declaration part.tokens
      part.tree part.faults)
    (noElse : nextIs .elseKeyword tail = false)
    (done : (declarations inBlock tail).Accepts last [] tail []) :
    (declarations inBlock (parts.flatMap Piece.tokens ++ tail)).Accepts last
      (parts.map Piece.tree) tail [] := by
  have clean : parts.flatMap Piece.faults = [] :=
    List.flatMap_eq_nil_iff.mpr fun part member => (each part member).faults_eq_nil
  have accepts := declarations_accept each
    (fun part member => sentence_completes last (each part member)) noElse done
  rwa [clean, List.append_nil, List.append_nil] at accepts

/-- Tokens that close a list of declarations: none, or a closing brace. -/
def Closes (tail : List Token) : Prop :=
  ∀ first ∈ tail.head?, first.is .rightBrace = true

theorem Closes.noElse (closes : Closes tail) : nextIs .elseKeyword tail = false := by
  cases tail with
  | nil => rfl
  | cons first others => exact Token.is_eq_false (closes first rfl) .elseKeyword (by decide)

/-- A declaration that a semicolon is left out of runs into the next one if it ends there. -/
theorem declarations_omitted
    (each : ∀ part ∈ parts, Sentence .strict .declaration part.tokens part.tree part.faults)
    (ends : semicolon.is .semicolon = true) (outside : openParens before = 0)
    (clear : ∀ next ∈ (after ++ (parts.flatMap Piece.tokens ++ tail)).head?,
      ∀ tag ∈ compoundTags, next.is tag = false)
    (closes : Closes tail) (done : (declarations inBlock tail).Accepts last [] tail []) :
    ∃ follow rest, Omitted before semicolon after follow rest ∧
      follow ++ rest = parts.flatMap Piece.tokens ++ tail ∧ nextIs .elseKeyword rest = false ∧
      ∃ statements, (declarations inBlock rest).Accepts last statements tail [] := by
  by_cases atEnd : after = []
  · subst atEnd
    cases parts with
    | nil =>
      have nothing : tail = [] := by
        cases tail with
        | nil => rfl
        | cons first others =>
          have brace := clear first rfl .rightBrace (by decide)
          rw [closes first rfl] at brace
          cases brace
      subst nothing
      exact ⟨[], [], ⟨ends, outside, by simp, fun _ => .ending, by simp⟩, rfl, rfl, [], done⟩
    | cons next parts =>
      obtain ⟨sentence, others⟩ := List.forall_mem_cons.mp each
      obtain ⟨first, behind, starts, _⟩ := sentence.starts
      have simple : Simple next.tokens := by
        refine sentence.simple fun head member => clear head ?_
        rw [starts] at member
        rw [List.flatMap_cons, starts]
        exact member
      rw [List.flatMap_cons, List.append_assoc] at clear ⊢
      refine ⟨next.tokens, parts.flatMap Piece.tokens ++ tail, ?_, rfl,
        nextIs_else_sentences others closes.noElse, _, declarations_pass others closes.noElse done⟩
      exact ⟨ends, outside, clear, fun _ => .simple simple, fun some => absurd rfl some⟩
  · refine ⟨[], parts.flatMap Piece.tokens ++ tail, ?_, rfl,
      nextIs_else_sentences each closes.noElse, _, declarations_pass each closes.noElse done⟩
    exact ⟨ends, outside, clear, fun nothing => absurd nothing atEnd, fun _ => rfl⟩

theorem nextIs_eq_false_of_clear
    (clear : ∀ next ∈ tokens.head?, ∀ tag ∈ compoundTags, next.is tag = false) :
    nextIs .elseKeyword tokens = false := by
  cases tokens with
  | nil => rfl
  | cons next others => exact clear next rfl .elseKeyword (by decide)

/-- Declarations among which a semicolon is left out have at most one fault. -/
theorem declarations_heal
    (each : ∀ part ∈ parts, Sentence .strict .declaration part.tokens part.tree part.faults)
    (heals : ∀ part ∈ parts, Heals .declaration part.tokens)
    (same : parts.flatMap Piece.tokens = before ++ semicolon :: after)
    (ends : semicolon.is .semicolon = true) (outside : openParens before = 0)
    (clear : ∀ next ∈ (after ++ tail).head?, ∀ tag ∈ compoundTags, next.is tag = false)
    (closes : Closes tail) (done : (declarations inBlock tail).Accepts last [] tail []) :
    (declarations inBlock (before ++ (after ++ tail))).Lands False tail := by
  induction parts generalizing before with
  | nil => simp at same
  | cons part parts ih =>
    obtain ⟨sentence, others⟩ := List.forall_mem_cons.mp each
    obtain ⟨healsPart, healsOthers⟩ := List.forall_mem_cons.mp heals
    obtain ⟨first, behind, starts, among⟩ := sentence.starts
    have noBrace : first.is .rightBrace = false := among.is_eq_false (by decide)
    have inside : ¬(inBlock && first.is .rightBrace) = true := by simp [noBrace]
    rw [List.flatMap_cons] at same
    rcases split_at_place same with ⟨middle, here, rfl⟩ | ⟨middle, rfl, there⟩
    · rw [List.append_assoc] at clear ⊢
      obtain ⟨follow, rest, omitted, split, noElse, statements, accepts⟩ :=
        declarations_omitted others ends outside clear closes done
      obtain ⟨head, more, rfl, lands⟩ :=
        healsPart before semicolon middle follow rest here omitted noElse
      obtain ⟨rfl, _⟩ := List.cons.inj (starts.symm.trans here)
      rw [← split, List.cons_append, declarations_more inside]
      refine (lands.andThen_accepts last False.elim fun result moved => ?_).relax
      exact ⟨_, accepts.map⟩
    · obtain ⟨head, more, here, completes⟩ := sentence_completes last sentence
      obtain ⟨rfl, rfl⟩ := List.cons.inj (starts.symm.trans here)
      rw [openParens_append, sentence.openParens_eq_zero, Int.zero_add] at outside
      have goesOn := ih others healsOthers there outside
      have noElse : nextIs .elseKeyword (middle ++ (after ++ tail)) = false := by
        have starts := nextIs_else_sentences others closes.noElse
        rw [there] at starts
        cases middle with
        | nil => exact nextIs_eq_false_of_clear clear
        | cons next middle => exact starts
      have clean := sentence.faults_eq_nil
      rw [clean] at completes
      rw [starts, List.cons_append, List.cons_append, List.append_assoc, declarations_more inside]
      exact ((completes _ noElse).andThen_lands fun moved => goesOn.map).relax

/-- So has a block, up to its closing brace. -/
theorem block_heals {closing : Token}
    (each : ∀ part ∈ parts, Sentence .strict .declaration part.tokens part.tree part.faults)
    (heals : ∀ part ∈ parts, Heals .declaration part.tokens)
    (same : parts.flatMap Piece.tokens ++ [closing] = before ++ semicolon :: after)
    (omitted : Omitted before semicolon after follow rest)
    (closes : closing.is .rightBrace = true) :
    after ≠ [] ∧ (block (before ++ (after ++ (follow ++ rest)))).Lands False rest := by
  rcases split_at_place same with ⟨middle, here, rfl⟩ | ⟨middle, rfl, there⟩
  · have nothing := omitted.before_end (by simp)
    subst nothing
    have clear := omitted.clear
    have done : (declarations true (closing :: rest)).Accepts closing [] (closing :: rest) [] :=
      declarations_accept_close closes
    rw [List.append_assoc, List.singleton_append, List.nil_append] at clear ⊢
    have ends : Closes (closing :: rest) := by
      rintro _ ⟨⟩
      exact closes
    have inside := declarations_heal each heals here omitted.closes omitted.outside clear ends done
    refine ⟨by simp, ?_⟩
    rw [block]
    exact inside.andThen_accepts closing False.elim fun statements moved =>
      ⟨_, (Outcome.accepts_expect closes).map⟩
  · have brace : semicolon.is .rightBrace = true := by
      cases middle with
      | nil =>
        cases there
        exact closes
      | cons first others => cases others <;> cases there
    rw [Token.is_eq_false omitted.closes .rightBrace (by decide)] at brace
    cases brace

end Lists

section Statements

variable {tree : Expr} {statement : Stmt} {faults : List ParseError} {keyword closing : Token}

/-- A condition, and a rule behind it that lands. -/
theorem condition_lands {α : Type} {slack : Prop} {progress : Bool} {start stop : Expectation}
    {opening : Token} {input : List Token}
    {next : Expr → (rest : List Token) → Moved true rest _ → Outcome α progress rest}
    (opens : opening.is .leftParen = true) (tested : Phrase .strict .assignment tokens tree faults)
    (closes : closing.is .rightParen = true)
    (goOn : ∀ moved, (next tree input moved).Lands slack rest) :
    ((condition start stop (opening :: (tokens ++ closing :: input))).andThen next).Lands slack
      rest := by
  have clean := tested.faults_eq_nil
  subst clean
  have accepts : (condition start stop (opening :: (tokens ++ closing :: input))).Accepts closing
      tree input [] := condition_accepts opens tested closes
  exact accepts.andThen_lands goOn

theorem declaration_heals_variable (declared : Variable .strict tokens statement faults) :
    Heals .declaration tokens := by
  intro before semicolon after follow rest same omitted noElse
  obtain ⟨front, closing, rfl, closes, unclosed, _⟩ := declared.closed
  obtain ⟨keyword, others, starts, declares⟩ := declared.starts
  obtain ⟨rfl, rfl, runs⟩ := omitted.at_close same unclosed
  cases before with
  | nil =>
    cases starts
    rw [Token.is_eq_false closes .varKeyword (by decide)] at declares
    cases declares
  | cons first more =>
    obtain ⟨rfl, _⟩ := List.cons.inj starts
    refine ⟨first, more, rfl, ?_⟩
    rw [declaration_var declares]
    exact (variableDeclaration_lands declared runs).behind.recover

/-- What heals as a statement heals as a declaration. -/
theorem declaration_heals_statement {dangling : Bool}
    (sentence : Sentence .strict (.statement dangling) tokens statement faults)
    (heals : Heals (.statement dangling) tokens) : Heals .declaration tokens := by
  intro before semicolon after follow rest same omitted noElse
  obtain ⟨first, others, starts, among⟩ := sentence.starts_statement
  have lands := heals before semicolon after follow rest same omitted fun _ => noElse
  cases before with
  | nil =>
    obtain ⟨rfl, _⟩ := List.cons.inj (starts.symm.trans same)
    exact absurd (among .semicolon omitted.closes) (by decide)
  | cons head more =>
    obtain ⟨rfl, _⟩ := List.cons.inj (starts.symm.trans same)
    have noClass : first.is .classKeyword = false := among.is_eq_false (by decide)
    have noFun : first.is .funKeyword = false := among.is_eq_false (by decide)
    have noVar : first.is .varKeyword = false := among.is_eq_false (by decide)
    refine ⟨first, more, rfl, ?_⟩
    rw [declaration_other (by simp [noClass]) (by simp [noFun]) (by simp [noVar])]
    exact lands.recover

theorem declaration_heals_function {name opening bodyOpening bodyClosing : Token}
    {listTokens parameters : List Token} {body : List (Piece Stmt)}
    (declares : keyword.is .funKeyword = true) (named : name.is .identifier = true)
    (opens : opening.is .leftParen = true)
    (each : ∀ parameter ∈ parameters, parameter.is .identifier = true)
    (listed : Separated (parameters.map ([·])) listTokens) (few : parameters.length ≤ 255)
    (closes : closing.is .rightParen = true) (bodyOpens : bodyOpening.is .leftBrace = true)
    (inner : ∀ part ∈ body, Sentence .strict .declaration part.tokens part.tree part.faults)
    (heals : ∀ part ∈ body, Heals .declaration part.tokens)
    (bodyCloses : bodyClosing.is .rightBrace = true) :
    Heals .declaration (keyword :: name :: opening :: listTokens ++ closing :: bodyOpening ::
      body.flatMap Piece.tokens ++ [bodyClosing]) := by
  intro before semicolon after follow rest same omitted noElse
  have names : Unclosed listTokens := listed.forall
    (fun comma between => Token.is_eq_false between .semicolon (by decide))
    (by simpa using fun name member => Token.is_eq_false (each name member) .semicolon (by decide))
  have weightless : openParens listTokens = 0 := listed.openParens_eq_zero (by
    simpa using fun name member => Token.parenWeight_other (each name member) (by decide))
  have header : Preceding (keyword :: name :: opening :: listTokens ++ [closing, bodyOpening]) := by
    refine .of_unclosed (Unclosed.append ?_ ?_) ?_
    · exact unclosed_cons declares (by decide)
        (unclosed_cons named (by decide) (unclosed_cons opens (by decide) names))
    · exact unclosed_cons closes (by decide) (unclosed_cons bodyOpens (by decide) unclosed_nil)
    · simp [Token.parenWeight_other declares (by decide), Token.parenWeight_other named (by decide),
        Token.parenWeight_opens opens, weightless, Token.parenWeight_closes closes,
        Token.parenWeight_other bodyOpens (by decide)]
  have regroup : keyword :: name :: opening :: listTokens ++ closing :: bodyOpening ::
        body.flatMap Piece.tokens ++ [bodyClosing] =
      keyword :: name :: opening :: listTokens ++ [closing, bodyOpening] ++
        (body.flatMap Piece.tokens ++ [bodyClosing]) := by simp
  rw [regroup] at same
  obtain ⟨hole, rfl, there, outside⟩ := header.split same omitted.closes omitted.outside
  obtain ⟨_, inside⟩ := block_heals inner heals there (omitted.inner outside) bodyCloses
  have clean : parameterFaults parameters = [] := by
    rw [parameterFaults, List.drop_eq_nil_of_le few, List.map_nil]
  have accepts : (functionHeader (name :: opening :: (listTokens ++ closing :: bodyOpening ::
      (hole ++ (after ++ (follow ++ rest)))))).Accepts closing (name, parameters)
      (hole ++ (after ++ (follow ++ rest))) [] :=
    clean ▸ functionHeader_accepts named opens each listed closes bodyOpens
  refine ⟨keyword, name :: opening :: (listTokens ++ closing :: bodyOpening :: hole), by simp, ?_⟩
  rw [declaration_fun declares, List.cons_append, List.cons_append, List.append_assoc]
  exact (accepts.andThen_lands fun moved => inside.map).behind.recover

theorem statement_heals_counting {dangling : Bool} {opening middle : Token}
    {initialTokens conditionTokens stepTokens : List Token} {initial : Option Stmt}
    {condition step : Option Expr} {initialFaults conditionFaults stepFaults : List ParseError}
    (loops : keyword.is .forKeyword = true) (opens : opening.is .leftParen = true)
    (first : Initial .strict initialTokens initial initialFaults)
    (tested : Maybe .strict conditionTokens condition conditionFaults)
    (separates : middle.is .semicolon = true) (steps : Maybe .strict stepTokens step stepFaults)
    (closes : closing.is .rightParen = true) (heals : Heals (.statement dangling) tokens) :
    Heals (.statement dangling) (keyword :: opening :: initialTokens ++ conditionTokens ++
      middle :: stepTokens ++ closing :: tokens) := by
  intro before semicolon after follow rest same omitted noElse
  have regroup : keyword :: opening :: initialTokens ++ conditionTokens ++ middle :: stepTokens ++
        closing :: tokens = keyword :: opening :: initialTokens ++ conditionTokens ++ middle ::
        stepTokens ++ [closing] ++ tokens := by simp
  rw [regroup] at same
  obtain ⟨hole, rfl, there, outside⟩ :=
    (preceding_counting loops opens first tested separates steps closes).split same omitted.closes
      omitted.outside
  have inside := heals hole semicolon after follow rest there (omitted.inner outside) noElse
  have cleanInitial := first.faults_eq_nil
  have cleanCondition := tested.faults_eq_nil
  have cleanStep := steps.faults_eq_nil
  subst cleanInitial cleanCondition cleanStep
  have header : (forHeader (opening :: (initialTokens ++ (conditionTokens ++ middle ::
      (stepTokens ++ closing :: (hole ++ (after ++ (follow ++ rest)))))))).Accepts closing
      ⟨initial, condition, step⟩ (hole ++ (after ++ (follow ++ rest))) ([] ++ [] ++ []) :=
    forHeader_accepts opens first tested separates steps closes
  have regroup : keyword :: opening :: initialTokens ++ conditionTokens ++ middle :: stepTokens ++
        [closing] ++ hole ++ (after ++ (follow ++ rest)) =
      keyword :: opening :: (initialTokens ++ (conditionTokens ++ middle :: (stepTokens ++
        closing :: (hole ++ (after ++ (follow ++ rest)))))) := by simp
  rw [regroup, statement_for loops]
  exact (header.andThen_lands fun moved => inside.map).behind

/-- The tokens from a keyword to the end of a condition come before any semicolon outside of
parentheses. -/
theorem split_behind_condition {opening : Token} {conditionTokens : List Token} {tag : Tag}
    (found : keyword.is tag = true) (plain : tag ∉ [Tag.semicolon, .leftParen, .rightParen])
    (opens : opening.is .leftParen = true)
    (tested : Phrase .strict .assignment conditionTokens tree faults)
    (closes : closing.is .rightParen = true)
    (same : keyword :: opening :: conditionTokens ++ closing :: tokens =
      before ++ semicolon :: after)
    (omitted : Omitted before semicolon after follow rest) :
    ∃ hole, before = keyword :: opening :: conditionTokens ++ closing :: hole ∧
      tokens = hole ++ semicolon :: after ∧ openParens hole = 0 := by
  have regroup : keyword :: opening :: conditionTokens ++ closing :: tokens =
      keyword :: opening :: conditionTokens ++ [closing] ++ tokens := by simp
  rw [regroup] at same
  obtain ⟨hole, rfl, there, outside⟩ :=
    (preceding_condition found plain opens tested closes).split same omitted.closes omitted.outside
  exact ⟨hole, by simp, there, outside⟩

theorem statement_heals_loop {dangling : Bool} {opening : Token} {conditionTokens : List Token}
    (loops : keyword.is .whileKeyword = true) (opens : opening.is .leftParen = true)
    (tested : Phrase .strict .assignment conditionTokens tree faults)
    (closes : closing.is .rightParen = true) (heals : Heals (.statement dangling) tokens) :
    Heals (.statement dangling) (keyword :: opening :: conditionTokens ++ closing :: tokens) := by
  intro before semicolon after follow rest same omitted noElse
  obtain ⟨hole, rfl, there, outside⟩ :=
    split_behind_condition loops (by decide) opens tested closes same omitted
  have inside := heals hole semicolon after follow rest there (omitted.inner outside) noElse
  rw [List.append_assoc, List.cons_append, List.cons_append, List.cons_append,
    statement_while loops]
  exact (condition_lands opens tested closes fun moved => inside.map).behind

/-- Behind a consequence without an alternative nothing more is taken. -/
theorem alternativeBehind_accepts {last : Token} {condition : Expr} {consequence : Stmt}
    (noElse : nextIs .elseKeyword rest = false) :
    (alternativeBehind condition consequence rest).Accepts last
      (.branch condition consequence none) rest [] := by
  cases rest with
  | nil => exact Outcome.accepts_done
  | cons other others =>
    have noElse : ¬other.is .elseKeyword = true := by simpa [nextIs] using noElse
    rw [alternativeBehind, if_neg noElse]
    exact Outcome.accepts_done

theorem statement_heals_branch {dangling : Bool} {opening : Token} {conditionTokens : List Token}
    (branches : keyword.is .ifKeyword = true) (opens : opening.is .leftParen = true)
    (tested : Phrase .strict .assignment conditionTokens tree faults)
    (closes : closing.is .rightParen = true) (heals : Heals (.statement dangling) tokens) :
    Heals (.statement true) (keyword :: opening :: conditionTokens ++ closing :: tokens) := by
  intro before semicolon after follow rest same omitted noElse
  obtain ⟨hole, rfl, there, outside⟩ :=
    split_behind_condition branches (by decide) opens tested closes same omitted
  have inside := heals hole semicolon after follow rest there (omitted.inner outside)
    fun _ => noElse rfl
  rw [List.append_assoc, List.cons_append, List.cons_append, List.cons_append,
    statement_if_eq branches]
  refine (condition_lands opens tested closes fun moved => ?_).behind
  exact inside.andThen_accepts closing (fun _ => rfl) fun consequence moved =>
    ⟨_, alternativeBehind_accepts (noElse rfl)⟩

theorem statement_heals_alternative {dangling : Bool} {opening other : Token}
    {conditionTokens otherTokens : List Token} {alternative : Stmt}
    {innerFaults otherFaults : List ParseError}
    (branches : keyword.is .ifKeyword = true) (opens : opening.is .leftParen = true)
    (tested : Phrase .strict .assignment conditionTokens tree faults)
    (closes : closing.is .rightParen = true)
    (inner : Sentence .strict (.statement false) tokens statement innerFaults)
    (heals : Heals (.statement false) tokens) (otherwise : other.is .elseKeyword = true)
    (outer : Sentence .strict (.statement dangling) otherTokens alternative otherFaults)
    (healsOther : Heals (.statement dangling) otherTokens) :
    Heals (.statement dangling)
      (keyword :: opening :: conditionTokens ++ closing :: tokens ++ other :: otherTokens) := by
  intro before semicolon after follow rest same omitted noElse
  have cleanInner := inner.faults_eq_nil
  have cleanOther := outer.faults_eq_nil
  subst cleanInner cleanOther
  rw [List.append_assoc, List.cons_append] at same
  obtain ⟨hole, rfl, there, outside⟩ :=
    split_behind_condition branches (by decide) opens tested closes same omitted
  rw [List.append_assoc, List.cons_append, List.cons_append, List.cons_append,
    statement_if_eq branches]
  refine (condition_lands opens tested closes fun moved => ?_).behind
  rcases split_at_place there with ⟨middle, here, rfl⟩ | ⟨middle, rfl, split⟩
  · -- Left out of the consequence, in front of whose `else` it cannot have stood.
    have nothing := omitted.before_end (by simp)
    subst nothing
    have clear := omitted.clear
    rw [List.append_assoc, List.cons_append, List.nil_append] at clear ⊢
    have some : middle ≠ [] := by
      rintro rfl
      have noElse := clear other rfl .elseKeyword (by decide)
      rw [otherwise] at noElse
      cases noElse
    have omitted' : Omitted hole semicolon middle [] (other :: (otherTokens ++ rest)) :=
      ⟨omitted.closes, outside, clear, fun none => absurd none some, fun _ => rfl⟩
    have lands : (Rule.statement (hole ++ (middle ++ other :: (otherTokens ++ rest)))).Lands
        (middle = []) (other :: (otherTokens ++ rest)) :=
      heals hole semicolon middle [] (other :: (otherTokens ++ rest)) here omitted' (by simp)
    have inside := lands.mono fun none => some none
    refine (inside.andThen_accepts closing False.elim fun consequence moved => ?_).mono False.elim
    have accepts := sentence_completes closing outer rest noElse
    rw [alternativeBehind, if_pos otherwise]
    exact ⟨_, accepts.map.behind⟩
  · cases middle with
    | nil =>
      cases split
      have noElse := Token.is_eq_false omitted.closes .elseKeyword (by decide)
      rw [otherwise] at noElse
      cases noElse
    | cons first middle =>
      obtain ⟨rfl, here⟩ := List.cons.inj split
      have weightless := Token.parenWeight_other otherwise (by decide)
      have level : openParens middle = 0 := by
        simpa [inner.openParens_eq_zero, weightless] using outside
      have inside := healsOther middle semicolon after follow rest here (omitted.inner level) noElse
      have accepts := sentence_completes closing inner
        (other :: (middle ++ (after ++ (follow ++ rest)))) (by simp)
      rw [List.append_assoc, List.cons_append]
      refine accepts.andThen_lands fun moved => ?_
      rw [alternativeBehind, if_pos otherwise]
      exact inside.map.behind

theorem statement_heals_block {opening : Token} {body : List (Piece Stmt)}
    (opens : opening.is .leftBrace = true)
    (inner : ∀ part ∈ body, Sentence .strict .declaration part.tokens part.tree part.faults)
    (heals : ∀ part ∈ body, Heals .declaration part.tokens)
    (closes : closing.is .rightBrace = true) :
    Heals (.statement false) (opening :: body.flatMap Piece.tokens ++ [closing]) := by
  intro before semicolon after follow rest same omitted noElse
  have header : Preceding [opening] := by
    refine .of_unclosed (unclosed_cons opens (by decide) unclosed_nil) ?_
    simp [Token.parenWeight_other opens (by decide)]
  have regroup : opening :: body.flatMap Piece.tokens ++ [closing] =
      [opening] ++ (body.flatMap Piece.tokens ++ [closing]) := rfl
  rw [regroup] at same
  obtain ⟨hole, rfl, there, outside⟩ := header.split same omitted.closes omitted.outside
  obtain ⟨some, inside⟩ := block_heals inner heals there (omitted.inner outside) closes
  rw [List.append_assoc, List.singleton_append, statement_block opens]
  exact (inside.map.behind).mono False.elim

theorem statement_heals_return {value : Option Expr} (returns : keyword.is .returnKeyword = true)
    (result : Maybe .strict tokens value faults) :
    Heals (.statement false) (keyword :: tokens ++ [closing]) := by
  intro before semicolon after follow rest same omitted noElse
  obtain ⟨rfl, rfl, runs⟩ :=
    omitted.at_close same (unclosed_cons returns (by decide) result.unclosed)
  rw [List.cons_append, statement_return returns]
  exact ((returnStatement_lands result runs).behind).mono fun _ => rfl

theorem statement_heals_print (prints : keyword.is .printKeyword = true)
    (phrase : Phrase .strict .assignment tokens tree faults) :
    Heals (.statement false) (keyword :: tokens ++ [closing]) := by
  intro before semicolon after follow rest same omitted noElse
  obtain ⟨rfl, rfl, runs⟩ :=
    omitted.at_close same (unclosed_cons prints (by decide) phrase.unclosed)
  rw [List.cons_append, statement_print prints]
  exact ((terminated_lands phrase runs).map.behind).mono fun _ => rfl

theorem statement_heals_expression (phrase : Phrase .strict .assignment tokens tree faults) :
    Heals (.statement false) (tokens ++ [closing]) := by
  intro before semicolon after follow rest same omitted noElse
  obtain ⟨rfl, rfl, runs⟩ := omitted.at_close same phrase.unclosed
  obtain ⟨first, others, starts, among⟩ := phrase.starts
  have other : ∀ tag ∈ statementOpeners, first.is tag = false :=
    fun tag member => among.is_eq_false (by revert tag; decide)
  rw [starts, List.cons_append, statement_other other, ← List.cons_append, ← starts]
  exact ((terminated_lands phrase runs).map).mono fun _ => rfl

end Statements

/-- Whatever sentence a semicolon is left out of, it heals. -/
theorem sentence_heals {statement : Stmt} {faults : List ParseError}
    (sentence : Sentence .strict form tokens statement faults) : Heals form tokens := by
  induction sentence with
  | function declares named opens each listed few closes bodyOpens inner bodyCloses ih =>
    exact declaration_heals_function declares named opens each listed (few rfl) closes bodyOpens
      inner ih bodyCloses
  | declaration declared => exact declaration_heals_variable declared
  | statement sentence ih => exact declaration_heals_statement sentence ih
  | counting loops opens first tested separates steps closes inner ih =>
    exact statement_heals_counting loops opens first tested separates steps closes ih
  | branch branches opens tested closes inner ih =>
    exact statement_heals_branch branches opens tested closes ih
  | alternative branches opens tested closes inner otherwise outer ihInner ihOuter =>
    exact statement_heals_alternative branches opens tested closes inner ihInner otherwise outer
      ihOuter
  | loop loops opens tested closes inner ih =>
    exact statement_heals_loop loops opens tested closes ih
  | returning returns result => exact statement_heals_return returns result
  | block opens inner closes ih => exact statement_heals_block opens inner ih closes
  | print prints phrase => exact statement_heals_print prints phrase
  | expression phrase => exact statement_heals_expression phrase

/-- A program that a semicolon is left out of has at most one fault. -/
theorem program_heals {statements : List Stmt} {faults : List ParseError}
    (program : Program .strict (before ++ semicolon :: after) statements faults)
    (ends : semicolon.is .semicolon = true) (outside : openParens before = 0)
    (clear : ∀ next ∈ after.head?, ∀ tag ∈ compoundTags, next.is tag = false) :
    (declarations false (before ++ after)).Lands False [] := by
  obtain ⟨parts, each, same, _, _⟩ := program
  have done : (declarations false []).Accepts semicolon [] [] [] := by
    rw [declarations_nil]
    exact Outcome.accepts_done
  have lands := declarations_heal each (fun part member => sentence_heals (each part member)) same
    ends outside (by simpa using clear) (by simp [Closes]) done
  rwa [List.append_nil] at lands

/-- A print statement without its semicolon at the end of a block takes the closing brace for what
is wrong, and the end for another fault. -/
theorem block_doubles {opening keyword closing last : Token} {tree : Expr}
    (opens : opening.is .leftBrace = true) (prints : keyword.is .printKeyword = true)
    (phrase : Phrase .strict .assignment tokens tree []) (closes : closing.is .rightBrace = true) :
    (declarations false (opening :: keyword :: (tokens ++ [closing]))).Accepts last [] []
      [⟨.expected .printEnd, closing⟩, ⟨.expected .blockEnd, last⟩] := by
  have noSemicolon : nextIs .semicolon [closing] = false :=
    Token.is_eq_false closes .semicolon (by decide)
  have value : (expression (tokens ++ [closing])).Accepts last tree [closing] [] :=
    expression_accepts_before phrase closes (by decide)
  have printed : (Rule.statement (keyword :: (tokens ++ [closing]))).Halts
      ⟨.expected .printEnd, [closing]⟩ := by
    rw [statement_print prints]
    exact (value.andThen_halts fun moved => (Outcome.halts_expect noSemicolon).map).map.behind
  have nothing (inBlock : Bool) : (declarations inBlock []).Accepts last [] [] [] := by
    rw [declarations_nil]
    exact Outcome.accepts_done
  have inside : (declarations true (keyword :: (tokens ++ [closing]))).Accepts last [] []
      [⟨.expected .printEnd, closing⟩] := by
    have noBrace := Token.is_eq_false prints .rightBrace (by decide)
    have noClass := Token.is_eq_false prints .classKeyword (by decide)
    have noFun := Token.is_eq_false prints .funKeyword (by decide)
    have noVar := Token.is_eq_false prints .varKeyword (by decide)
    rw [declarations_more (by simp [noBrace]),
      declaration_other (by simp [noClass]) (by simp [noFun]) (by simp [noVar])]
    exact (printed.recover.andThen fun moved => (nothing true).map).relax
  have unclosed : (Rule.statement (opening :: keyword :: (tokens ++ [closing]))).Ensures
      (fun _ _ _ => False) fun complaint notes => complaint = ⟨.expected .blockEnd, []⟩ ∧
        notes.map (Complaint.fault last) = [⟨.expected .printEnd, closing⟩] := by
    rw [statement_block opens, block]
    refine Outcome.ensures_behind.mpr (Outcome.ensures_map.mpr
      (Outcome.Ensures.andThen inside ?_ fun _ _ impossible => impossible.elim))
    rintro _ _ moved notes ⟨rfl, rfl, noted⟩
    exact ⟨rfl, by simpa using noted⟩
  have noClass := Token.is_eq_false opens .classKeyword (by decide)
  have noFun := Token.is_eq_false opens .funKeyword (by decide)
  have noVar := Token.is_eq_false opens .varKeyword (by decide)
  have given : (declaration opening (keyword :: (tokens ++ [closing]))).Accepts last none []
      [⟨.expected .printEnd, closing⟩, ⟨.expected .blockEnd, last⟩] := by
    rw [declaration_other (by simp [noClass]) (by simp [noFun]) (by simp [noVar])]
    refine Outcome.ensures_recover.mpr
      (Outcome.Ensures.mono unclosed (fun _ _ _ impossible => impossible.elim) ?_)
    rintro _ notes ⟨rfl, noted⟩
    exact ⟨rfl, rfl, by simp [noted, Complaint.fault]⟩
  rw [declarations_more (by simp)]
  exact (given.andThen fun moved => (nothing false).map).relax

end Rule

/-- The faults of a program that is parsed up to its end. -/
theorem programFaults_of_accepts {tokens rest : List Token} {statements : List Stmt}
    {faults : List ParseError}
    (accepts : (Rule.declarations false (TokenStream.ofList tokens).pending).Accepts
      (TokenStream.ofList tokens).last statements rest faults) : programFaults tokens = faults := by
  unfold programFaults
  rw [TokenStream.program_of_accepts accepts]
  by_cases clean : faults = []
  · rw [if_pos clean, clean]
  · rw [if_neg clean]

theorem programFaults_of_lands {tokens rest : List Token}
    (lands : (Rule.declarations false (TokenStream.ofList tokens).pending).Lands False rest) :
    (programFaults tokens).length ≤ 1 := by
  cases outcome : Rule.declarations false (TokenStream.ofList tokens).pending with
  | stopped complaint within notes =>
    rw [outcome] at lands
    exact lands.1.elim
  | accepted statements left moved notes =>
    rw [outcome] at lands
    have accepts : (Rule.declarations false (TokenStream.ofList tokens).pending).Accepts
        (TokenStream.ofList tokens).last statements left
        (notes.map (Complaint.fault (TokenStream.ofList tokens).last)) := by
      rw [outcome]
      exact ⟨rfl, rfl, rfl⟩
    rw [programFaults_of_accepts accepts, List.length_map]
    exact lands.2

theorem programFaults_block_doubles {opening keyword closing : Token} {tokens : List Token}
    {tree : Expr} (opens : opening.is .leftBrace = true) (prints : keyword.is .printKeyword = true)
    (phrase : Phrase .strict .assignment tokens tree []) (closes : closing.is .rightBrace = true) :
    programFaults (opening :: keyword :: (tokens ++ [closing])) =
      [⟨.expected .printEnd, closing⟩, ⟨.expected .blockEnd,
        (TokenStream.ofList (opening :: keyword :: (tokens ++ [closing]))).last⟩] := by
  have unended : ∀ token ∈ opening :: keyword :: (tokens ++ [closing]),
      token.is .endOfText = false := by
    simp only [List.forall_mem_cons, List.forall_mem_append]
    refine ⟨Token.is_eq_false opens .endOfText (by decide),
      Token.is_eq_false prints .endOfText (by decide), ?_,
      Token.is_eq_false closes .endOfText (by decide), by simp⟩
    exact fun token member => (phrase.among token member).is_eq_false (by decide)
  apply programFaults_of_accepts
  rw [TokenStream.pending_ofList unended]
  exact Rule.block_doubles opens prints phrase closes

/-- Leaving a semicolon out of a program, other than one in the header of a loop, makes at most one
fault, if behind it stands no brace and none of the keywords of compound statements. -/
theorem one_fault_of_missing_semicolon {before after : List Token} {semicolon : Token}
    {statements : List Stmt}
    (parsed : (TokenStream.ofList (before ++ semicolon :: after)).program.1 = .ok statements)
    (ends : semicolon.is .semicolon = true) (outside : openParens before = 0)
    (clear : ∀ next ∈ after.head?, ∀ tag ∈ compoundTags, next.is tag = false) :
    (programFaults (before ++ after)).length ≤ 1 := by
  have program := (TokenStream.program_eq_ok _).mp parsed
  have reach (tail : List Token) : (TokenStream.ofList (before ++ tail)).pending =
      if (before.takeWhile (!·.is .endOfText)).length = before.length
        then before ++ tail.takeWhile (!·.is .endOfText)
        else before.takeWhile (!·.is .endOfText) := List.takeWhile_append
  rw [reach] at program
  split at program
  · rename_i unended
    have kept : (!semicolon.is .endOfText) = true := by
      rw [Token.is_eq_false ends .endOfText (by decide)]
      rfl
    have clear' : ∀ next ∈ (after.takeWhile (!·.is .endOfText)).head?, ∀ tag ∈ compoundTags,
        next.is tag = false := by
      cases after with
      | nil => simp
      | cons first others =>
        rw [List.takeWhile_cons]
        split
        · exact clear
        · simp
    rw [List.takeWhile_cons, if_pos kept] at program
    have lands := Rule.program_heals program ends outside clear'
    rw [← (reach after).trans (if_pos unended)] at lands
    exact programFaults_of_lands lands
  · -- The semicolon is out of reach, behind an end mark.
    rename_i ended
    have same : (TokenStream.ofList (before ++ after)).program.1 = .ok statements := by
      rw [TokenStream.program_eq_ok, reach, if_neg ended]
      exact program
    rw [programFaults, same]
    exact Nat.zero_le _

/-- `print nil;`, of which the semicolon is to be left out. -/
theorem sentence_print_nil : Sentence .strict .declaration
    [Tag.printKeyword.mark "print", Tag.nilKeyword.mark "nil", Tag.semicolon.mark ";"]
    (.print (.literal .nil)) [] := by
  have phrase : Phrase .strict .primary [Tag.nilKeyword.mark "nil"] (.literal .nil) [] :=
    .nil (Tag.mark_is _ _)
  exact .statement (.print (Tag.mark_is _ _) phrase.of_primary (Tag.mark_is _ _))

theorem one_fault_between_prints :
    (TokenStream.ofList ([Tag.printKeyword.mark "print", Tag.nilKeyword.mark "nil"] ++
      Tag.semicolon.mark ";" :: [Tag.printKeyword.mark "print", Tag.nilKeyword.mark "nil",
        Tag.semicolon.mark ";"])).program.1 =
      .ok [.print (.literal .nil), .print (.literal .nil)] ∧
    (programFaults ([Tag.printKeyword.mark "print", Tag.nilKeyword.mark "nil"] ++
      [Tag.printKeyword.mark "print", Tag.nilKeyword.mark "nil", Tag.semicolon.mark ";"])).length
        ≤ 1 := by
  have parsed : (TokenStream.ofList ([Tag.printKeyword.mark "print", Tag.nilKeyword.mark "nil"] ++
      Tag.semicolon.mark ";" :: [Tag.printKeyword.mark "print", Tag.nilKeyword.mark "nil",
        Tag.semicolon.mark ";"])).program.1 =
      .ok [.print (.literal .nil), .print (.literal .nil)] := by
    rw [TokenStream.program_eq_ok, TokenStream.pending_ofList (by decide)]
    exact (Program.nil.cons sentence_print_nil).cons sentence_print_nil
  exact ⟨parsed, one_fault_of_missing_semicolon parsed (Tag.mark_is _ _) (by decide) (by decide)⟩

/-- In front of a closing brace a missing semicolon is two faults. -/
theorem two_faults_before_brace :
    (TokenStream.ofList ([Tag.leftBrace.mark "\x7b", Tag.printKeyword.mark "print",
      ⟨.number 1, "1", 1⟩] ++ Tag.semicolon.mark ";" :: [Tag.rightBrace.mark "\x7d"])).program.1 =
      .ok [.block [.print (.literal (.number 1))]] ∧
    openParens [Tag.leftBrace.mark "\x7b", Tag.printKeyword.mark "print", ⟨.number 1, "1", 1⟩] =
      0 ∧
    ¬(programFaults ([Tag.leftBrace.mark "\x7b", Tag.printKeyword.mark "print",
      ⟨.number 1, "1", 1⟩] ++ [Tag.rightBrace.mark "\x7d"])).length ≤ 1 := by
  have number : Phrase .strict .primary [⟨.number 1, "1", 1⟩] (.literal (.number 1)) [] :=
    .number rfl
  have phrase := number.of_primary
  refine ⟨?_, by decide, ?_⟩
  · have print : ∀ part ∈ [Piece.mk [Tag.printKeyword.mark "print", ⟨.number 1, "1", 1⟩,
        Tag.semicolon.mark ";"] (Stmt.print (.literal (.number 1))) []],
        Sentence .strict .declaration part.tokens part.tree part.faults :=
      List.forall_mem_singleton.mpr
        (.statement (.print (Tag.mark_is .printKeyword "print") phrase (Tag.mark_is _ ";")))
    have block := Sentence.block (Tag.mark_is .leftBrace "\x7b") print
      (Tag.mark_is .rightBrace "\x7d")
    rw [TokenStream.program_eq_ok, TokenStream.pending_ofList (by decide)]
    exact Program.nil.cons (.statement block)
  · have doubled := programFaults_block_doubles (Tag.mark_is .leftBrace "\x7b")
      (Tag.mark_is .printKeyword "print") phrase (Tag.mark_is .rightBrace "\x7d")
    show ¬(programFaults (_ :: _ :: ([_] ++ [_]))).length ≤ 1
    rw [doubled]
    decide

end Script
