import Script.Proofs.Grammar.Sentence
import Script.Proofs.Parsing.PhraseComplete

/-! Every sentence of the grammar is accepted by the rules for statements and declarations, with
the same tree and the same faults. Only an `else` could go on with a statement. -/

namespace Script

open Grammar

namespace Rule

variable {last : Token} {tokens rest : List Token} {faults : List ParseError} {mode : Mode}

/-- A phrase in front of a token that no phrase goes on with. -/
theorem expression_accepts_before {tree : Expr} {closing : Token} {closer : Tag}
    (phrase : Phrase mode .assignment tokens tree faults) (closes : closing.is closer = true)
    (neither : closer ∉ phraseFollowers) :
    (expression (tokens ++ closing :: rest)).Accepts last tree (closing :: rest) faults :=
  phrase_completes last phrase _ (Level.endsAt_of_is closes neither)

theorem optionalBefore_accepts {value : Option Expr} {closing : Token} {closer : Tag}
    (neither : closer ∉ phraseStarts ++ phraseFollowers)
    (derived : Maybe mode tokens value faults) (closes : closing.is closer = true) :
    (optionalBefore closer (tokens ++ closing :: rest)).Accepts last value (closing :: rest)
      faults := by
  obtain ⟨noStart, noFollower⟩ := not_or.mp (mt List.mem_append.mpr neither)
  unfold optionalBefore
  cases derived with
  | none =>
    simp only [List.nil_append, nextIs, closes, ↓reduceIte]
    exact Outcome.accepts_done
  | some phrase =>
    obtain ⟨first, others, rfl, starts⟩ := phrase.starts
    have more : nextIs closer (first :: others ++ closing :: rest) = false :=
      starts.is_eq_false noStart
    simp only [more, Bool.false_eq_true, ↓reduceIte]
    exact (expression_accepts_before phrase closes noFollower).map.relax

theorem terminated_accepts {what : Expectation} {tree : Expr} {closing : Token}
    (phrase : Phrase mode .assignment tokens tree faults) (closes : closing.is .semicolon = true) :
    (terminated what (tokens ++ closing :: rest)).Accepts last tree rest faults := by
  refine List.append_nil faults ▸ (expression_accepts_before phrase closes (by decide)).andThen ?_
  exact fun moved => (Outcome.accepts_expect closes).map

theorem expressionStatement_accepts {tree : Expr} {closing : Token}
    (phrase : Phrase mode .assignment tokens tree faults) (closes : closing.is .semicolon = true) :
    (expressionStatement (tokens ++ closing :: rest)).Accepts last (.expression tree) rest faults :=
  (terminated_accepts phrase closes).map

theorem variableDeclaration_accepts {tree : Stmt} {keyword : Token}
    (declared : Variable mode (keyword :: tokens) tree faults) :
    (variableDeclaration (tokens ++ rest)).Accepts last tree rest faults := by
  generalize same : keyword :: tokens = all at declared
  cases declared with
  | @bare keyword name closing declares named closes =>
    cases same
    have noEquals := Token.is_eq_false closes .equal (by decide)
    rw [List.cons_append, List.cons_append, List.nil_append]
    refine (Outcome.accepts_expect named).andThen fun moved => ?_
    simp only [noEquals, Bool.false_eq_true, ↓reduceIte]
    exact (Outcome.accepts_expect closes).map.relax
  | @initial keyword name sign closing tokens value faults declares named equals phrase closes =>
    simp only [List.cons_append, List.cons.injEq] at same
    obtain ⟨rfl, rfl⟩ := same
    rw [List.cons_append, List.cons_append, List.append_assoc]
    refine (Outcome.accepts_expect named).andThen fun moved => ?_
    simp only [equals, ↓reduceIte]
    exact (terminated_accepts phrase closes).map.behind

theorem returnStatement_accepts {keyword closing : Token} {value : Option Expr}
    (result : Maybe mode tokens value faults) (closes : closing.is .semicolon = true) :
    (returnStatement keyword (tokens ++ closing :: rest)).Accepts last (.returning keyword value)
      rest faults := by
  refine List.append_nil faults ▸ (optionalBefore_accepts (by decide) result closes).andThen ?_
  exact fun moved => (Outcome.accepts_expect closes).map

theorem condition_accepts {start stop : Expectation} {tree : Expr} {opening closing : Token}
    (opens : opening.is .leftParen = true) (phrase : Phrase mode .assignment tokens tree faults)
    (closes : closing.is .rightParen = true) :
    (condition start stop (opening :: (tokens ++ closing :: rest))).Accepts last tree rest
      faults := by
  refine List.append_nil faults ▸ (Outcome.accepts_expect opens).andThen fun moved =>
    (expression_accepts_before phrase closes (by decide)).andThen fun moved => ?_
  exact (Outcome.accepts_expect closes).map

theorem forInitial_accepts {initial : Option Stmt} (first : Initial mode tokens initial faults) :
    (forInitial (tokens ++ rest)).Accepts last initial rest faults := by
  cases first with
  | none closes =>
    rw [List.singleton_append]
    simp only [forInitial, closes, ↓reduceIte]
    exact Outcome.accepts_done.behind
  | declaration declared =>
    obtain ⟨first, others, rfl, declares⟩ := declared.starts
    have noSemicolon := Token.is_eq_false declares .semicolon (by decide)
    rw [List.cons_append]
    simp only [forInitial, noSemicolon, declares, Bool.false_eq_true, ↓reduceIte]
    exact (variableDeclaration_accepts declared).map.behind
  | expression phrase closes =>
    rename_i closing tokens value
    have accepts : (expressionStatement (tokens ++ closing :: rest)).Accepts last
        (.expression value) rest faults := expressionStatement_accepts phrase closes
    obtain ⟨first, others, rfl, starts⟩ := phrase.starts
    have noSemicolon : first.is .semicolon = false := starts.is_eq_false (by decide)
    have noVar : first.is .varKeyword = false := starts.is_eq_false (by decide)
    rw [List.append_assoc, List.cons_append, List.singleton_append]
    simp only [forInitial, noSemicolon, noVar, Bool.false_eq_true, ↓reduceIte]
    exact accepts.map

theorem forHeader_accepts {header : ForHeader} {opening middle closing : Token}
    {initialTokens conditionTokens stepTokens : List Token}
    {initialFaults conditionFaults stepFaults : List ParseError}
    (opens : opening.is .leftParen = true)
    (first : Initial mode initialTokens header.initial initialFaults)
    (tested : Maybe mode conditionTokens header.condition conditionFaults)
    (separates : middle.is .semicolon = true)
    (steps : Maybe mode stepTokens header.step stepFaults)
    (closes : closing.is .rightParen = true) :
    (forHeader (opening :: (initialTokens ++ (conditionTokens ++ middle ::
      (stepTokens ++ closing :: rest))))).Accepts last header rest
      (initialFaults ++ conditionFaults ++ stepFaults) := by
  have regroup : initialFaults ++ conditionFaults ++ stepFaults =
      [] ++ (initialFaults ++ (conditionFaults ++ ([] ++ (stepFaults ++ [])))) := by simp
  rw [regroup]
  refine (Outcome.accepts_expect opens).andThen fun _ => (forInitial_accepts first).andThen
    fun _ => (optionalBefore_accepts (by decide) tested separates).andThen fun _ =>
      (Outcome.accepts_expect separates).andThen fun _ =>
        (optionalBefore_accepts (by decide) steps closes).andThen fun _ => ?_
  exact (Outcome.accepts_expect closes).map

/-- Parameter names in front of their closing parenthesis. -/
theorem parameterNames_accepts {count : Nat} {names : List Token} {closing : Token}
    (some : names ≠ []) (each : ∀ name ∈ names, name.is .identifier = true)
    (listed : Separated (names.map ([·])) tokens) (closes : closing.is .rightParen = true) :
    (parameterNames count (tokens ++ closing :: rest)).Accepts last names (closing :: rest)
      ((names.drop (255 - count)).map (⟨.tooManyParameters, ·⟩)) := by
  induction names generalizing count tokens with
  | nil => exact absurd rfl some
  | cons name names ih =>
    have named := each name (by simp)
    have noComma := Token.is_eq_false closes .comma (by decide)
    rw [← excess_names_cons, parameterNames]
    cases names with
    | nil =>
      cases listed
      rw [List.singleton_append]
      refine ((Outcome.accepts_expect named).noting ?_).andThen fun moved => ?_
      · unfold maxArity
        split <;> rfl
      · simp only [noComma, Bool.false_eq_true, ↓reduceIte, List.drop_nil, List.map_nil]
        exact Outcome.accepts_done
    | cons next names =>
      cases listed with
      | @more _ _ _ comma tokens between listed =>
        have goesOn := @ih tokens (count + 1) (by simp)
          (fun later member => each later (List.mem_cons_of_mem name member)) listed
        rw [List.append_assoc, List.cons_append, List.nil_append, List.cons_append]
        refine ((Outcome.accepts_expect named).noting ?_).andThen fun moved => ?_
        · unfold maxArity
          split <;> rfl
        · simp only [between, ↓reduceIte]
          exact goesOn.map.behind

theorem functionHeader_accepts {name opening closing bodyOpening : Token}
    {listTokens parameters : List Token} (named : name.is .identifier = true)
    (opens : opening.is .leftParen = true)
    (each : ∀ parameter ∈ parameters, parameter.is .identifier = true)
    (listed : Separated (parameters.map ([·])) listTokens)
    (closes : closing.is .rightParen = true) (bodyOpens : bodyOpening.is .leftBrace = true) :
    (functionHeader (name :: opening :: (listTokens ++ closing :: bodyOpening :: rest))).Accepts
      last (name, parameters) rest (parameterFaults parameters) := by
  have names : (if nextIs .rightParen (listTokens ++ closing :: bodyOpening :: rest)
      then Outcome.done [] else (parameterNames 0 (listTokens ++ closing :: bodyOpening ::
        rest)).relax).Accepts last parameters (closing :: bodyOpening :: rest)
          (parameterFaults parameters) := by
    cases parameters with
    | nil =>
      cases listed
      simp only [List.nil_append, nextIs, closes, ↓reduceIte]
      exact Outcome.accepts_done
    | cons parameter parameters =>
      obtain ⟨behind, rfl⟩ := listed.starts
      have noClosing := Token.is_eq_false (each parameter (by simp)) .rightParen (by decide)
      have more : nextIs .rightParen ([parameter] ++ behind ++ closing :: bodyOpening :: rest) =
          false := noClosing
      simp only [more, Bool.false_eq_true, ↓reduceIte]
      exact (parameterNames_accepts (by simp) each listed closes).relax
  have regroup : parameterFaults parameters =
      [] ++ ([] ++ (parameterFaults parameters ++ ([] ++ []))) := by simp
  rw [regroup]
  refine (Outcome.accepts_expect named).andThen fun _ => (Outcome.accepts_expect opens).andThen
    fun _ => names.andThen fun _ => (Outcome.accepts_expect closes).andThen fun _ => ?_
  exact (Outcome.accepts_expect bodyOpens).map

/-- The rule of the form accepts the tokens with the tree and the faults, whatever stands behind
them; only an `else` may not follow a declaration or an open branch. -/
def SentenceCompletes (last : Token) : Form → List Token → Stmt → List ParseError → Prop
  | .declaration, tokens, tree, faults => ∃ first others, tokens = first :: others ∧
      ∀ rest, nextIs .elseKeyword rest = false →
        (declaration first (others ++ rest)).Accepts last (some tree) rest faults
  | .statement dangling, tokens, tree, faults => ∀ rest,
      (dangling = true → nextIs .elseKeyword rest = false) →
        (statement (tokens ++ rest)).Accepts last tree rest faults

/-- Sentences one after another do not begin with an `else`, unless it stands behind them. -/
theorem nextIs_else_sentences {parts : List (Piece Stmt)}
    (each : ∀ part ∈ parts, Sentence mode .declaration part.tokens part.tree part.faults)
    (noElse : nextIs .elseKeyword rest = false) :
    nextIs .elseKeyword (parts.flatMap Piece.tokens ++ rest) = false := by
  cases parts with
  | nil => exact noElse
  | cons part parts =>
    obtain ⟨first, others, starts, among⟩ := (each part (by simp)).starts
    rw [List.flatMap_cons, starts]
    exact among.is_eq_false (by decide)

/-- Declarations go on with what stands behind sentences. -/
theorem declarations_accept {inBlock : Bool} {parts : List (Piece Stmt)} {statements : List Stmt}
    {left : List Token} {more : List ParseError}
    (each : ∀ part ∈ parts, Sentence mode .declaration part.tokens part.tree part.faults)
    (completes : ∀ part ∈ parts,
      SentenceCompletes last .declaration part.tokens part.tree part.faults)
    (noElse : nextIs .elseKeyword rest = false)
    (goesOn : (declarations inBlock rest).Accepts last statements left more) :
    (declarations inBlock (parts.flatMap Piece.tokens ++ rest)).Accepts last
      (parts.map Piece.tree ++ statements) left (parts.flatMap Piece.faults ++ more) := by
  induction parts with
  | nil => exact goesOn
  | cons part parts ih =>
    obtain ⟨sentence, others⟩ := List.forall_mem_cons.mp each
    obtain ⟨completesPart, completesOthers⟩ := List.forall_mem_cons.mp completes
    obtain ⟨first, behind, same, accepts⟩ := completesPart
    obtain ⟨_, _, starts, among⟩ := sentence.starts
    cases same.symm.trans starts
    have noBrace : first.is .rightBrace = false := among.is_eq_false (by decide)
    have inside : ¬(inBlock && first.is .rightBrace) = true := by simp [noBrace]
    rw [List.flatMap_cons, same, List.cons_append, List.cons_append, List.append_assoc,
      declarations_more inside, List.flatMap_cons, List.append_assoc]
    refine ((accepts _ (nextIs_else_sentences others noElse)).andThen fun moved => ?_).relax
    exact (ih others completesOthers).map

/-- A block closes at the brace that its declarations leave. -/
theorem block_closes {statements : List Stmt} {closing : Token}
    (inside : (declarations true (tokens ++ closing :: rest)).Accepts last statements
      (closing :: rest) faults) (closes : closing.is .rightBrace = true) :
    (block (tokens ++ closing :: rest)).Accepts last statements rest faults := by
  rw [block]
  refine List.append_nil faults ▸ inside.andThen fun moved => ?_
  exact (Outcome.accepts_expect closes).map

/-- At its closing brace a block has no more declarations. -/
theorem declarations_accept_close {closing : Token} (closes : closing.is .rightBrace = true) :
    (declarations true (closing :: rest)).Accepts last [] (closing :: rest) [] := by
  rw [declarations_close (by simp [closes])]
  exact Outcome.accepts_done

/-- The body of a block and its closing brace. -/
theorem block_accepts {parts : List (Piece Stmt)} {closing : Token}
    (each : ∀ part ∈ parts, Sentence mode .declaration part.tokens part.tree part.faults)
    (completes : ∀ part ∈ parts,
      SentenceCompletes last .declaration part.tokens part.tree part.faults)
    (closes : closing.is .rightBrace = true) :
    (block (parts.flatMap Piece.tokens ++ closing :: rest)).Accepts last (parts.map Piece.tree)
      rest (parts.flatMap Piece.faults) := by
  have noElse : nextIs .elseKeyword (closing :: rest) = false :=
    Token.is_eq_false closes .elseKeyword (by decide)
  have inside := declarations_accept each completes noElse (declarations_accept_close closes)
  rw [List.append_nil, List.append_nil] at inside
  exact block_closes inside closes

theorem completes_function {keyword name opening closing bodyOpening bodyClosing : Token}
    {listTokens parameters : List Token} {body : List (Piece Stmt)}
    (declares : keyword.is .funKeyword = true) (named : name.is .identifier = true)
    (opens : opening.is .leftParen = true)
    (each : ∀ parameter ∈ parameters, parameter.is .identifier = true)
    (listed : Separated (parameters.map ([·])) listTokens)
    (closes : closing.is .rightParen = true) (bodyOpens : bodyOpening.is .leftBrace = true)
    (inner : ∀ part ∈ body, Sentence mode .declaration part.tokens part.tree part.faults)
    (completes : ∀ part ∈ body,
      SentenceCompletes last .declaration part.tokens part.tree part.faults)
    (bodyCloses : bodyClosing.is .rightBrace = true) :
    SentenceCompletes last .declaration
      (keyword :: name :: opening :: listTokens ++ closing :: bodyOpening ::
        body.flatMap Piece.tokens ++ [bodyClosing])
      (.function name parameters (body.map Piece.tree))
      (parameterFaults parameters ++ body.flatMap Piece.faults) := by
  refine ⟨keyword, name :: opening :: (listTokens ++ closing :: bodyOpening ::
    (body.flatMap Piece.tokens ++ [bodyClosing])), by simp, fun rest noElse => ?_⟩
  have regroup : name :: opening :: (listTokens ++ closing :: bodyOpening ::
        (body.flatMap Piece.tokens ++ [bodyClosing])) ++ rest =
      name :: opening :: (listTokens ++ closing :: bodyOpening ::
        (body.flatMap Piece.tokens ++ bodyClosing :: rest)) := by simp
  rw [regroup, declaration_fun declares]
  refine Outcome.Accepts.recover (Outcome.Accepts.behind ?_)
  refine (functionHeader_accepts named opens each listed closes bodyOpens).andThen fun moved => ?_
  exact (block_accepts inner completes bodyCloses).map

/-- Every sentence is accepted by the rule of its form. -/
theorem sentence_completes (last : Token) {form : Form} {tree : Stmt}
    (sentence : Sentence mode form tokens tree faults) :
    SentenceCompletes last form tokens tree faults := by
  induction sentence with
  | function declares named opens each listed few closes bodyOpens inner bodyCloses ih =>
    exact completes_function declares named opens each listed closes bodyOpens inner ih bodyCloses
  | declaration declared =>
    obtain ⟨keyword, others, rfl, declares⟩ := declared.starts
    refine ⟨keyword, others, rfl, fun rest noElse => ?_⟩
    rw [declaration_var declares]
    exact (variableDeclaration_accepts declared).behind.recover
  | statement sentence ih =>
    obtain ⟨first, others, rfl, starts⟩ := sentence.starts_statement
    refine ⟨first, others, rfl, fun rest noElse => ?_⟩
    have noClass : first.is .classKeyword = false := starts.is_eq_false (by decide)
    have noFun : first.is .funKeyword = false := starts.is_eq_false (by decide)
    have noVar : first.is .varKeyword = false := starts.is_eq_false (by decide)
    rw [declaration_other (by simp [noClass]) (by simp [noFun]) (by simp [noVar])]
    exact (ih rest fun _ => noElse).recover
  | @counting dangling keyword opening middle closing initialTokens conditionTokens stepTokens
      bodyTokens initial condition step body initialFaults conditionFaults stepFaults bodyFaults
      loops opens first tested separates steps closes inner ih =>
    intro rest noElse
    have regroup : keyword :: opening :: initialTokens ++ conditionTokens ++ middle ::
          stepTokens ++ closing :: bodyTokens ++ rest =
        keyword :: opening :: (initialTokens ++ (conditionTokens ++ middle ::
          (stepTokens ++ closing :: (bodyTokens ++ rest)))) := by simp
    have header : (forHeader (opening :: (initialTokens ++ (conditionTokens ++ middle ::
        (stepTokens ++ closing :: (bodyTokens ++ rest)))))).Accepts last
        ⟨initial, condition, step⟩ (bodyTokens ++ rest)
        (initialFaults ++ conditionFaults ++ stepFaults) :=
      forHeader_accepts opens first tested separates steps closes
    rw [regroup, statement_for loops]
    exact (header.andThen fun moved => (ih rest noElse).map).behind
  | @branch dangling keyword opening closing conditionTokens tokens condition consequence
      conditionFaults faults branches opens tested closes inner ih =>
    intro rest noElse
    have regroup : keyword :: opening :: conditionTokens ++ closing :: tokens ++ rest =
      keyword :: opening :: (conditionTokens ++ closing :: (tokens ++ rest)) := by simp
    rw [regroup, statement_if branches]
    refine Outcome.Accepts.behind ((condition_accepts opens tested closes).andThen fun moved => ?_)
    refine List.append_nil faults ▸ (ih rest fun _ => noElse rfl).andThen fun moved => ?_
    cases rest with
    | nil => exact Outcome.accepts_done
    | cons other behind =>
      have noElse : other.is .elseKeyword = false := noElse rfl
      simp only [noElse, Bool.false_eq_true, ↓reduceIte]
      exact Outcome.accepts_done
  | @alternative dangling keyword opening closing other conditionTokens tokens otherTokens condition
      consequence alternative conditionFaults faults otherFaults branches opens tested closes inner
      otherwise outer ihInner ihOuter =>
    intro rest noElse
    have regroup : keyword :: opening :: conditionTokens ++ closing :: tokens ++
          other :: otherTokens ++ rest =
        keyword :: opening :: (conditionTokens ++ closing :: (tokens ++ other ::
          (otherTokens ++ rest))) := by simp
    rw [regroup, List.append_assoc conditionFaults, statement_if branches]
    refine Outcome.Accepts.behind ((condition_accepts opens tested closes).andThen fun moved => ?_)
    refine (ihInner _ (by simp)).andThen fun moved => ?_
    simp only [otherwise, ↓reduceIte]
    exact (ihOuter rest noElse).map.behind
  | @loop dangling keyword opening closing conditionTokens tokens condition body conditionFaults
      faults loops opens tested closes inner ih =>
    intro rest noElse
    have regroup : keyword :: opening :: conditionTokens ++ closing :: tokens ++ rest =
      keyword :: opening :: (conditionTokens ++ closing :: (tokens ++ rest)) := by simp
    rw [regroup, statement_while loops]
    refine Outcome.Accepts.behind ((condition_accepts opens tested closes).andThen fun moved => ?_)
    exact (ih rest noElse).map
  | returning returns result closes =>
    intro rest _
    rw [List.append_assoc, List.cons_append, statement_return returns]
    exact (returnStatement_accepts result closes).behind
  | block opens inner closes ih =>
    intro rest _
    rw [List.append_assoc, List.cons_append, statement_block opens]
    exact (block_accepts inner ih closes).map.behind
  | print prints phrase closes =>
    intro rest _
    rw [List.append_assoc, List.cons_append, statement_print prints]
    exact (terminated_accepts phrase closes).map.behind
  | @expression closing tokens value faults phrase closes =>
    intro rest _
    obtain ⟨first, others, starts, among⟩ := phrase.starts
    have other : ∀ tag ∈ statementOpeners, first.is tag = false :=
      fun tag member => among.is_eq_false (by revert tag; decide)
    have same : tokens ++ [closing] ++ rest = tokens ++ closing :: rest := by simp
    rw [same, starts, List.cons_append, statement_other other, ← List.cons_append, ← starts]
    exact expressionStatement_accepts phrase closes

end Rule
end Script
