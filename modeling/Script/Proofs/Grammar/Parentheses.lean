import Script.Proofs.Grammar.Sentence

/-! The depth of parentheses in tokens of the grammar. Expressions and sentences close what they
open, so outside of all parentheses a semicolon ends a statement or a declaration: those of a loop
header stand one deep. -/

namespace Script

/-- What a token adds to the depth of parentheses. -/
def Token.parenWeight (token : Token) : Int :=
  if token.is .leftParen then 1 else if token.is .rightParen then -1 else 0

/-- How many parentheses the tokens open and do not close. -/
def openParens : List Token → Int
  | [] => 0
  | token :: tokens => token.parenWeight + openParens tokens

section Weights

variable {token : Token} {tag : Tag} {tokens more : List Token}

theorem Token.parenWeight_opens (opens : token.is .leftParen = true) : token.parenWeight = 1 := by
  simp [parenWeight, opens]

theorem Token.parenWeight_closes (closes : token.is .rightParen = true) :
    token.parenWeight = -1 := by
  have noOpening := Token.is_eq_false closes .leftParen (by decide)
  simp [parenWeight, noOpening, closes]

theorem Token.parenWeight_among {tags : List Tag} (among : Grammar.Among tags token)
    (neither : Tag.leftParen ∉ tags ∧ Tag.rightParen ∉ tags) : token.parenWeight = 0 := by
  simp [parenWeight, among.is_eq_false neither.1, among.is_eq_false neither.2]

theorem Token.parenWeight_other (found : token.is tag = true)
    (neither : Tag.leftParen ≠ tag ∧ Tag.rightParen ≠ tag) : token.parenWeight = 0 :=
  Token.parenWeight_among (Grammar.among_of_is found (List.mem_singleton.mpr rfl))
    (by simpa using neither)

@[simp] theorem openParens_nil : openParens [] = 0 := rfl

@[simp] theorem openParens_cons :
    openParens (token :: tokens) = token.parenWeight + openParens tokens := rfl

@[simp] theorem openParens_append :
    openParens (tokens ++ more) = openParens tokens + openParens more := by
  induction tokens with
  | nil => simp
  | cons token tokens ih => simp [ih, Int.add_assoc]

end Weights

namespace Grammar

variable {mode : Mode} {level : Level} {form : Form} {tokens : List Token} {tree : Expr}
  {statement : Stmt} {faults : List ParseError}

theorem Separated.openParens_eq_zero {parts : List (List Token)}
    (listed : Separated parts tokens) (each : ∀ part ∈ parts, openParens part = 0) :
    openParens tokens = 0 := by
  induction listed with
  | none => rfl
  | one part => exact each part (by simp)
  | @more part next parts comma tokens between rest ih =>
    obtain ⟨first, others⟩ := List.forall_mem_cons.mp each
    simp [first, ih others, Token.parenWeight_other between (by decide)]

/-- A phrase closes all parentheses that it opens. -/
theorem Phrase.openParens_eq_zero (phrase : Phrase mode level tokens tree faults) :
    openParens tokens = 0 := by
  induction phrase with
  | inside next phrase ih => exact ih
  | assignName named equals right ih =>
    simp [Token.parenWeight_other named (by decide), Token.parenWeight_other equals (by decide), ih]
  | assignElement left opens place closes equals right ihLeft ihPlace ihRight =>
    simp [Token.parenWeight_other opens (by decide), Token.parenWeight_other closes (by decide),
      Token.parenWeight_other equals (by decide), ihLeft, ihPlace, ihRight]
  | assignOther tolerated left noName noElement equals right ihLeft ihRight =>
    simp [Token.parenWeight_other equals (by decide), ihLeft, ihRight]
  | join joins before found after ihBefore ihAfter =>
    have weightless := Token.parenWeight_other found (by cases joins <;> decide)
    simp [weightless, ihBefore, ihAfter]
  | sign found operand ih =>
    rcases found with bang | minus
    · simp [Token.parenWeight_other bang (by decide), ih]
    · simp [Token.parenWeight_other minus (by decide), ih]
  | call function opens each listed few closes ihFunction ihEach =>
    have items := listed.openParens_eq_zero (by simpa using ihEach)
    simp [Token.parenWeight_opens opens, Token.parenWeight_closes closes, ihFunction, items]
  | subscript left opens place closes ihLeft ihPlace =>
    simp [Token.parenWeight_other opens (by decide), Token.parenWeight_other closes (by decide),
      ihLeft, ihPlace]
  | number kind =>
    have among : Among [] _ := among_of_number kind
    simp [Token.parenWeight_among among (by simp)]
  | string kind =>
    have among : Among [] _ := among_of_string kind
    simp [Token.parenWeight_among among (by simp)]
  | falsehood found | truth found | nil found | name found =>
    simp [Token.parenWeight_other found (by decide)]
  | group opens phrase closes ih =>
    simp [Token.parenWeight_opens opens, Token.parenWeight_closes closes, ih]
  | array opens each listed closes ihEach =>
    have items := listed.openParens_eq_zero (by simpa using ihEach)
    simp [Token.parenWeight_other opens (by decide), Token.parenWeight_other closes (by decide),
      items]

theorem Maybe.openParens_eq_zero {value : Option Expr} (derived : Maybe mode tokens value faults) :
    openParens tokens = 0 := by
  cases derived with
  | none => rfl
  | some phrase => exact phrase.openParens_eq_zero

/-- No token of them is a semicolon. -/
def Unclosed (tokens : List Token) : Prop := ∀ token ∈ tokens, token.is .semicolon = false

theorem Phrase.unclosed (phrase : Phrase mode level tokens tree faults) : Unclosed tokens :=
  fun token member => (phrase.among token member).is_eq_false (by decide)

theorem Maybe.unclosed {value : Option Expr} (derived : Maybe mode tokens value faults) :
    Unclosed tokens := by
  cases derived with
  | none => simp [Unclosed]
  | some phrase => exact phrase.unclosed

theorem unclosed_cons {token : Token} {tag : Tag} (found : token.is tag = true)
    (other : tag ≠ .semicolon) (unclosed : Unclosed tokens) : Unclosed (token :: tokens) :=
  List.forall_mem_cons.mpr ⟨Token.is_eq_false found .semicolon other, unclosed⟩

theorem unclosed_nil : Unclosed [] := by simp [Unclosed]

theorem Unclosed.append {more : List Token} (first : Unclosed tokens) (second : Unclosed more) :
    Unclosed (tokens ++ more) := List.forall_mem_append.mpr ⟨first, second⟩

/-- A variable declaration is closed by its only semicolon. -/
theorem Variable.closed (declared : Variable mode tokens statement faults) :
    ∃ front closing, tokens = front ++ [closing] ∧ closing.is .semicolon = true ∧
      Unclosed front ∧ openParens front = 0 := by
  cases declared with
  | bare declares named closes =>
    refine ⟨_, _, rfl, closes,
      unclosed_cons declares (by decide) (unclosed_cons named (by decide) unclosed_nil), ?_⟩
    simp [Token.parenWeight_other declares (by decide), Token.parenWeight_other named (by decide)]
  | initial declares named equals phrase closes =>
    refine ⟨_, _, rfl, closes, unclosed_cons declares (by decide) (unclosed_cons named (by decide)
      (unclosed_cons equals (by decide) phrase.unclosed)), ?_⟩
    simp [Token.parenWeight_other declares (by decide), Token.parenWeight_other named (by decide),
      Token.parenWeight_other equals (by decide), phrase.openParens_eq_zero]

theorem Initial.closed {initial : Option Stmt} (first : Initial mode tokens initial faults) :
    ∃ front closing, tokens = front ++ [closing] ∧ closing.is .semicolon = true ∧
      Unclosed front ∧ openParens front = 0 := by
  cases first with
  | none closes => exact ⟨[], _, rfl, closes, unclosed_nil, rfl⟩
  | declaration declared => exact declared.closed
  | expression phrase closes =>
    exact ⟨_, _, rfl, closes, phrase.unclosed, phrase.openParens_eq_zero⟩

/-- A semicolon outside of all parentheses does not stand in these tokens, but may stand behind
them. -/
structure Preceding (front : List Token) : Prop where
  level : openParens front = 0
  inside : ∀ before semicolon after, front = before ++ semicolon :: after →
    semicolon.is .semicolon = true → openParens before ≠ 0

/-- Where a list with a marked place splits, the place is in one half or the other. -/
theorem split_at_place {front body before after : List Token} {place : Token}
    (same : front ++ body = before ++ place :: after) :
    (∃ middle, front = before ++ place :: middle ∧ after = middle ++ body) ∨
      ∃ middle, before = front ++ middle ∧ body = middle ++ place :: after := by
  rcases List.append_eq_append_iff.mp same with ⟨middle, rfl, rfl⟩ | ⟨middle, rfl, split⟩
  · exact .inr ⟨middle, rfl, rfl⟩
  · cases middle with
    | nil =>
      refine .inr ⟨[], by simp, ?_⟩
      rw [List.nil_append] at split ⊢
      exact split.symm
    | cons first middle =>
      cases split
      exact .inl ⟨middle, rfl, rfl⟩

namespace Preceding

variable {front body before after : List Token} {semicolon : Token}

theorem split (preceding : Preceding front) (same : front ++ body = before ++ semicolon :: after)
    (closes : semicolon.is .semicolon = true) (outside : openParens before = 0) :
    ∃ middle, before = front ++ middle ∧ body = middle ++ semicolon :: after ∧
      openParens middle = 0 := by
  rcases split_at_place same with ⟨middle, here, _⟩ | ⟨middle, rfl, rfl⟩
  · exact absurd outside (preceding.inside before semicolon middle here closes)
  · rw [openParens_append, preceding.level, Int.zero_add] at outside
    exact ⟨middle, rfl, rfl, outside⟩

theorem of_unclosed (unclosed : Unclosed front) (level : openParens front = 0) :
    Preceding front := by
  refine ⟨level, fun before semicolon after same closes => ?_⟩
  have opens := unclosed semicolon (by simp [same])
  rw [closes] at opens
  cases opens

end Preceding

/-- A condition in parentheses and the keyword before it. -/
theorem preceding_condition {keyword opening closing : Token} {tag : Tag}
    (found : keyword.is tag = true) (plain : tag ∉ [Tag.semicolon, .leftParen, .rightParen])
    (opens : opening.is .leftParen = true) (tested : Phrase mode .assignment tokens tree faults)
    (closes : closing.is .rightParen = true) :
    Preceding (keyword :: opening :: tokens ++ [closing]) := by
  simp only [List.mem_cons, List.not_mem_nil, or_false, not_or] at plain
  refine .of_unclosed ?_ ?_
  · exact (unclosed_cons found plain.1 (unclosed_cons opens (by decide) tested.unclosed)).append
      (unclosed_cons closes (by decide) unclosed_nil)
  · simp [Token.parenWeight_other found ⟨Ne.symm plain.2.1, Ne.symm plain.2.2⟩,
      Token.parenWeight_opens opens, Token.parenWeight_closes closes, tested.openParens_eq_zero]

/-- In a row of tokens with one semicolon it is the only place. -/
theorem Unclosed.split {front before after body : List Token} {closing semicolon : Token}
    (unclosed : Unclosed front) (same : front ++ closing :: body = before ++ semicolon :: after)
    (closes : semicolon.is .semicolon = true) :
    before = front ∧ semicolon = closing ∧ after = body ∨
      ∃ middle, before = front ++ closing :: middle ∧ body = middle ++ semicolon :: after := by
  rcases split_at_place same with ⟨middle, rfl, _⟩ | ⟨middle, rfl, rest⟩
  · have opens := unclosed semicolon (by simp)
    rw [closes] at opens
    cases opens
  · cases middle with
    | nil =>
      cases rest
      exact .inl ⟨by simp, rfl, rfl⟩
    | cons first middle =>
      cases rest
      exact .inr ⟨middle, rfl, rfl⟩

/-- Both semicolons of a loop header stand in its parentheses. -/
theorem preceding_counting {keyword opening middle closing : Token}
    {initialTokens conditionTokens stepTokens : List Token} {initial : Option Stmt}
    {condition step : Option Expr} {initialFaults conditionFaults stepFaults : List ParseError}
    (loops : keyword.is .forKeyword = true) (opens : opening.is .leftParen = true)
    (first : Initial mode initialTokens initial initialFaults)
    (tested : Maybe mode conditionTokens condition conditionFaults)
    (separates : middle.is .semicolon = true) (steps : Maybe mode stepTokens step stepFaults)
    (closes : closing.is .rightParen = true) :
    Preceding (keyword :: opening :: initialTokens ++ conditionTokens ++ middle :: stepTokens ++
      [closing]) := by
  obtain ⟨front, mark, rfl, marks, unclosed, level⟩ := first.closed
  have keywordWeight := Token.parenWeight_other loops (by decide)
  have openingWeight := Token.parenWeight_opens opens
  have closingWeight := Token.parenWeight_closes closes
  have markWeight := Token.parenWeight_other marks (by decide)
  have middleWeight := Token.parenWeight_other separates (by decide)
  refine ⟨?_, fun before semicolon after same ends outside => ?_⟩
  · simp [keywordWeight, openingWeight, closingWeight, markWeight, middleWeight, level,
      tested.openParens_eq_zero, steps.openParens_eq_zero]
  · have regroup : keyword :: opening :: (front ++ [mark]) ++ conditionTokens ++ middle ::
          stepTokens ++ [closing] =
        (keyword :: opening :: front) ++ mark :: (conditionTokens ++ middle ::
          (stepTokens ++ [closing])) := by simp
    have header : Unclosed (keyword :: opening :: front) :=
      unclosed_cons loops (by decide) (unclosed_cons opens (by decide) unclosed)
    rw [regroup] at same
    rcases header.split same ends with ⟨rfl, _⟩ | ⟨second, rfl, behind⟩
    · simp [keywordWeight, openingWeight, level] at outside
    · rcases tested.unclosed.split behind ends with ⟨rfl, _⟩ | ⟨third, rfl, last⟩
      · simp [keywordWeight, openingWeight, markWeight, level, tested.openParens_eq_zero] at outside
      · have opens := (steps.unclosed.append (unclosed_cons closes (by decide) unclosed_nil))
          semicolon (by simp [last])
        rw [ends] at opens
        cases opens

/-- A sentence closes all parentheses that it opens. -/
theorem Sentence.openParens_eq_zero (sentence : Sentence mode form tokens statement faults) :
    openParens tokens = 0 := by
  have body {parts : List (Piece Stmt)} (each : ∀ part ∈ parts, openParens part.tokens = 0) :
      openParens (parts.flatMap Piece.tokens) = 0 := by
    induction parts with
    | nil => rfl
    | cons part parts ih =>
      obtain ⟨first, others⟩ := List.forall_mem_cons.mp each
      simp [first, ih others]
  induction sentence with
  | function declares named opens each listed few closes bodyOpens inner bodyCloses ih =>
    have names := listed.openParens_eq_zero (by
      simpa using fun name member => Token.parenWeight_other (each name member) (by decide))
    simp [Token.parenWeight_other declares (by decide), Token.parenWeight_other named (by decide),
      Token.parenWeight_opens opens, Token.parenWeight_closes closes, names, body ih,
      Token.parenWeight_other bodyOpens (by decide), Token.parenWeight_other bodyCloses (by decide)]
  | declaration declared =>
    obtain ⟨front, closing, rfl, closes, _, level⟩ := declared.closed
    simp [level, Token.parenWeight_other closes (by decide)]
  | statement sentence ih => exact ih
  | counting loops opens first tested separates steps closes inner ih =>
    have header := (preceding_counting loops opens first tested separates steps closes).level
    simp only [openParens_append, openParens_cons, openParens_nil] at header ⊢
    omega
  | branch branches opens tested closes inner ih =>
    have header := (preceding_condition branches (by decide) opens tested closes).level
    simp only [List.cons_append, openParens_append, openParens_cons, openParens_nil] at header ⊢
    omega
  | alternative branches opens tested closes inner otherwise outer ihInner ihOuter =>
    have header := (preceding_condition branches (by decide) opens tested closes).level
    have weightless := Token.parenWeight_other otherwise (by decide)
    simp only [List.cons_append, openParens_append, openParens_cons, openParens_nil] at header ⊢
    omega
  | loop loops opens tested closes inner ih =>
    have header := (preceding_condition loops (by decide) opens tested closes).level
    simp only [List.cons_append, openParens_append, openParens_cons, openParens_nil] at header ⊢
    omega
  | returning returns result closes =>
    simp [Token.parenWeight_other returns (by decide), result.openParens_eq_zero,
      Token.parenWeight_other closes (by decide)]
  | block opens inner closes ih =>
    simp [Token.parenWeight_other opens (by decide), body ih,
      Token.parenWeight_other closes (by decide)]
  | print prints phrase closes =>
    simp [Token.parenWeight_other prints (by decide), phrase.openParens_eq_zero,
      Token.parenWeight_other closes (by decide)]
  | expression phrase closes =>
    simp [phrase.openParens_eq_zero, Token.parenWeight_other closes (by decide)]

end Grammar
end Script
