import Script.Proofs.Grammar.Phrase

/-! The grammar of statements, declarations and programs, apart from any way to parse it. A
statement is marked if it ends in a branch that an `else` behind it would belong to. -/

namespace Script.Grammar

/-- `dangling` marks the statements that end in a branch without an alternative. -/
inductive Form where
  | declaration
  | statement (dangling : Bool)

/-- An expression that may be missing. -/
inductive Maybe (mode : Mode) : List Token → Option Expr → List ParseError → Prop where
  | none : Maybe mode [] none []
  | some {tokens : List Token} {value : Expr} {faults : List ParseError}
      (phrase : Phrase mode .assignment tokens value faults) :
      Maybe mode tokens (some value) faults

/-- A variable declaration from its keyword to its semicolon. -/
inductive Variable (mode : Mode) : List Token → Stmt → List ParseError → Prop where
  | bare {keyword name closing : Token} (declares : keyword.is .varKeyword)
      (named : name.is .identifier) (closes : closing.is .semicolon) :
      Variable mode [keyword, name, closing] (.declare name none) []
  | initial {keyword name sign closing : Token} {tokens : List Token} {value : Expr}
      {faults : List ParseError} (declares : keyword.is .varKeyword)
      (named : name.is .identifier) (equals : sign.is .equal)
      (phrase : Phrase mode .assignment tokens value faults) (closes : closing.is .semicolon) :
      Variable mode (keyword :: name :: sign :: tokens ++ [closing]) (.declare name (some value))
        faults

/-- What comes first in the header of a counting loop, with its semicolon. -/
inductive Initial (mode : Mode) : List Token → Option Stmt → List ParseError → Prop where
  | none {closing : Token} (closes : closing.is .semicolon) : Initial mode [closing] none []
  | declaration {tokens : List Token} {statement : Stmt} {faults : List ParseError}
      (declared : Variable mode tokens statement faults) :
      Initial mode tokens (some statement) faults
  | expression {closing : Token} {tokens : List Token} {value : Expr} {faults : List ParseError}
      (phrase : Phrase mode .assignment tokens value faults) (closes : closing.is .semicolon) :
      Initial mode (tokens ++ [closing]) (some (.expression value)) faults

/-- A loop body and the step behind it, which needs a block. -/
def withStep (step : Option Expr) (body : Stmt) : Stmt :=
  match step with
  | some step => .block [body, .expression step]
  | none => body

/-- A loop and the initial statement before it, which needs a block. -/
def withInitial (initial : Option Stmt) (loop : Stmt) : Stmt :=
  match initial with
  | some initial => .block [initial, loop]
  | none => loop

/-- Each parameter behind 255 others is at fault. -/
def parameterFaults (parameters : List Token) : List ParseError :=
  (parameters.drop 255).map (⟨.tooManyParameters, ·⟩)

/-- The names too many in a longer list. -/
theorem excess_names_cons {count : Nat} {name : Token} (names : List Token) :
    (if 255 ≤ count then [ParseError.mk .tooManyParameters name] else []) ++
        (names.drop (255 - (count + 1))).map (⟨.tooManyParameters, ·⟩) =
      ((name :: names).drop (255 - count)).map (⟨.tooManyParameters, ·⟩) := by
  by_cases full : 255 ≤ count
  · simp [full, Nat.sub_eq_zero_of_le full, Nat.sub_eq_zero_of_le (Nat.le_succ_of_le full)]
  · have step : 255 - count = 255 - (count + 1) + 1 := by omega
    simp [full, step]

/-- `Sentence mode form tokens tree faults`: the tokens derive the tree as a declaration or as a
statement, which in the strict grammar has no faults. -/
inductive Sentence (mode : Mode) : Form → List Token → Stmt → List ParseError → Prop where
  | function {keyword name opening closing bodyOpening bodyClosing : Token}
      {listTokens parameters : List Token} {body : List (Piece Stmt)}
      (declares : keyword.is .funKeyword) (named : name.is .identifier)
      (opens : opening.is .leftParen)
      (each : ∀ parameter ∈ parameters, parameter.is .identifier)
      (listed : Separated (parameters.map ([·])) listTokens)
      (few : mode = .strict → parameters.length ≤ 255) (closes : closing.is .rightParen)
      (bodyOpens : bodyOpening.is .leftBrace)
      (inner : ∀ part ∈ body, Sentence mode .declaration part.tokens part.tree part.faults)
      (bodyCloses : bodyClosing.is .rightBrace) :
      Sentence mode .declaration
        (keyword :: name :: opening :: listTokens ++ closing :: bodyOpening ::
          body.flatMap Piece.tokens ++ [bodyClosing])
        (.function name parameters (body.map Piece.tree))
        (parameterFaults parameters ++ body.flatMap Piece.faults)
  | declaration {tokens : List Token} {tree : Stmt} {faults : List ParseError}
      (declared : Variable mode tokens tree faults) :
      Sentence mode .declaration tokens tree faults
  | statement {dangling : Bool} {tokens : List Token} {tree : Stmt} {faults : List ParseError}
      (sentence : Sentence mode (.statement dangling) tokens tree faults) :
      Sentence mode .declaration tokens tree faults
  | counting {dangling : Bool} {keyword opening middle closing : Token}
      {initialTokens conditionTokens stepTokens bodyTokens : List Token}
      {initial : Option Stmt} {condition step : Option Expr} {body : Stmt}
      {initialFaults conditionFaults stepFaults bodyFaults : List ParseError}
      (loops : keyword.is .forKeyword) (opens : opening.is .leftParen)
      (first : Initial mode initialTokens initial initialFaults)
      (tested : Maybe mode conditionTokens condition conditionFaults)
      (separates : middle.is .semicolon) (steps : Maybe mode stepTokens step stepFaults)
      (closes : closing.is .rightParen)
      (inner : Sentence mode (.statement dangling) bodyTokens body bodyFaults) :
      Sentence mode (.statement dangling)
        (keyword :: opening :: initialTokens ++ conditionTokens ++ middle :: stepTokens ++
          closing :: bodyTokens)
        (withInitial initial
          (.loop (condition.getD (.literal (.boolean true))) (withStep step body)))
        (initialFaults ++ conditionFaults ++ stepFaults ++ bodyFaults)
  | branch {dangling : Bool} {keyword opening closing : Token}
      {conditionTokens tokens : List Token} {condition : Expr} {consequence : Stmt}
      {conditionFaults faults : List ParseError}
      (branches : keyword.is .ifKeyword) (opens : opening.is .leftParen)
      (tested : Phrase mode .assignment conditionTokens condition conditionFaults)
      (closes : closing.is .rightParen)
      (inner : Sentence mode (.statement dangling) tokens consequence faults) :
      Sentence mode (.statement true)
        (keyword :: opening :: conditionTokens ++ closing :: tokens)
        (.branch condition consequence none) (conditionFaults ++ faults)
  /-- An `else` belongs to the nearest branch: none that is open may stand before it. -/
  | alternative {dangling : Bool} {keyword opening closing other : Token}
      {conditionTokens tokens otherTokens : List Token} {condition : Expr}
      {consequence alternative : Stmt} {conditionFaults faults otherFaults : List ParseError}
      (branches : keyword.is .ifKeyword) (opens : opening.is .leftParen)
      (tested : Phrase mode .assignment conditionTokens condition conditionFaults)
      (closes : closing.is .rightParen)
      (inner : Sentence mode (.statement false) tokens consequence faults)
      (otherwise : other.is .elseKeyword)
      (outer : Sentence mode (.statement dangling) otherTokens alternative otherFaults) :
      Sentence mode (.statement dangling)
        (keyword :: opening :: conditionTokens ++ closing :: tokens ++ other :: otherTokens)
        (.branch condition consequence (some alternative))
        (conditionFaults ++ faults ++ otherFaults)
  | loop {dangling : Bool} {keyword opening closing : Token}
      {conditionTokens tokens : List Token} {condition : Expr} {body : Stmt}
      {conditionFaults faults : List ParseError}
      (loops : keyword.is .whileKeyword) (opens : opening.is .leftParen)
      (tested : Phrase mode .assignment conditionTokens condition conditionFaults)
      (closes : closing.is .rightParen)
      (inner : Sentence mode (.statement dangling) tokens body faults) :
      Sentence mode (.statement dangling)
        (keyword :: opening :: conditionTokens ++ closing :: tokens)
        (.loop condition body) (conditionFaults ++ faults)
  | returning {keyword closing : Token} {tokens : List Token} {value : Option Expr}
      {faults : List ParseError} (returns : keyword.is .returnKeyword)
      (result : Maybe mode tokens value faults) (closes : closing.is .semicolon) :
      Sentence mode (.statement false) (keyword :: tokens ++ [closing])
        (.returning keyword value) faults
  | block {opening closing : Token} {body : List (Piece Stmt)} (opens : opening.is .leftBrace)
      (inner : ∀ part ∈ body, Sentence mode .declaration part.tokens part.tree part.faults)
      (closes : closing.is .rightBrace) :
      Sentence mode (.statement false) (opening :: body.flatMap Piece.tokens ++ [closing])
        (.block (body.map Piece.tree)) (body.flatMap Piece.faults)
  | print {keyword closing : Token} {tokens : List Token} {value : Expr}
      {faults : List ParseError} (prints : keyword.is .printKeyword)
      (phrase : Phrase mode .assignment tokens value faults) (closes : closing.is .semicolon) :
      Sentence mode (.statement false) (keyword :: tokens ++ [closing]) (.print value) faults
  | expression {closing : Token} {tokens : List Token} {value : Expr} {faults : List ParseError}
      (phrase : Phrase mode .assignment tokens value faults) (closes : closing.is .semicolon) :
      Sentence mode (.statement false) (tokens ++ [closing]) (.expression value) faults

/-- Declarations one after another. -/
def Program (mode : Mode) (tokens : List Token) (statements : List Stmt)
    (faults : List ParseError) : Prop :=
  ∃ parts : List (Piece Stmt),
    (∀ part ∈ parts, Sentence mode .declaration part.tokens part.tree part.faults) ∧
    parts.flatMap Piece.tokens = tokens ∧ parts.map Piece.tree = statements ∧
    parts.flatMap Piece.faults = faults

/-- The categories that a statement can begin with, literals apart. -/
def statementStarts : List Tag :=
  [.forKeyword, .ifKeyword, .whileKeyword, .returnKeyword, .leftBrace, .printKeyword] ++
    phraseStarts

/-- The categories that a declaration can begin with, literals apart. -/
def sentenceStarts : List Tag := [.funKeyword, .varKeyword] ++ statementStarts

variable {mode : Mode} {form : Form} {tokens : List Token} {tree : Stmt}
  {faults : List ParseError}

theorem Among.mono {tags more : List Tag} {token : Token} (among : Among tags token)
    (subset : tags ⊆ more) : Among more token := fun tag found => subset (among tag found)

theorem Variable.starts (declared : Variable mode tokens tree faults) :
    ∃ first others, tokens = first :: others ∧ first.is .varKeyword = true := by
  cases declared with
  | bare declares => exact ⟨_, _, rfl, declares⟩
  | initial declares => exact ⟨_, _, rfl, declares⟩

theorem Sentence.starts_statement {dangling : Bool}
    (sentence : Sentence mode (.statement dangling) tokens tree faults) :
    ∃ first others, tokens = first :: others ∧ Among statementStarts first := by
  cases sentence with
  | counting loops => exact ⟨_, _, rfl, among_of_is loops (by decide)⟩
  | branch branches => exact ⟨_, _, rfl, among_of_is branches (by decide)⟩
  | alternative branches => exact ⟨_, _, rfl, among_of_is branches (by decide)⟩
  | loop loops => exact ⟨_, _, rfl, among_of_is loops (by decide)⟩
  | returning returns => exact ⟨_, _, rfl, among_of_is returns (by decide)⟩
  | block opens => exact ⟨_, _, rfl, among_of_is opens (by decide)⟩
  | print prints => exact ⟨_, _, rfl, among_of_is prints (by decide)⟩
  | expression phrase =>
    obtain ⟨first, others, rfl, starts⟩ := phrase.starts
    exact ⟨first, _, rfl, starts.mono (by decide)⟩

theorem Sentence.starts (sentence : Sentence mode form tokens tree faults) :
    ∃ first others, tokens = first :: others ∧ Among sentenceStarts first := by
  have ofStatement {dangling : Bool} {tokens : List Token}
      (sentence : Sentence mode (.statement dangling) tokens tree faults) :
      ∃ first others, tokens = first :: others ∧ Among sentenceStarts first := by
    obtain ⟨first, others, rfl, starts⟩ := sentence.starts_statement
    exact ⟨first, others, rfl, starts.mono (by decide)⟩
  cases form with
  | statement dangling => exact ofStatement sentence
  | declaration =>
    cases sentence with
    | function declares => exact ⟨_, _, rfl, among_of_is declares (by decide)⟩
    | declaration declared =>
      obtain ⟨first, others, rfl, declares⟩ := declared.starts
      exact ⟨first, others, rfl, among_of_is declares (by decide)⟩
    | statement sentence => exact ofStatement sentence

theorem Program.starts {first : Token} {others : List Token} {statements : List Stmt}
    (program : Program mode (first :: others) statements faults) : Among sentenceStarts first := by
  obtain ⟨parts, each, same, _⟩ := program
  cases parts with
  | nil => cases same
  | cons part parts =>
    obtain ⟨head, behind, starts, among⟩ := (each part (by simp)).starts
    rw [List.flatMap_cons, starts] at same
    cases same
    exact among

theorem Program.nil : Program mode [] [] [] := ⟨[], by simp, rfl, rfl, rfl⟩

theorem Program.cons {more : List Token} {statements : List Stmt} {others : List ParseError}
    (first : Sentence mode .declaration tokens tree faults)
    (rest : Program mode more statements others) :
    Program mode (tokens ++ more) (tree :: statements) (faults ++ others) := by
  obtain ⟨parts, each, rfl, rfl, rfl⟩ := rest
  exact ⟨⟨tokens, tree, faults⟩ :: parts, List.forall_mem_cons.mpr ⟨first, each⟩, rfl, rfl, rfl⟩

end Script.Grammar
