import Script.Parsing.Expression

/-! The grammar of statements and declarations. A complaint that stops a declaration is noted,
and parsing goes on at the next statement boundary. -/

namespace Script

namespace Token

/-- Whether a token opens a declaration or a statement that no expression can begin with. -/
def beginsStatement (token : Token) : Bool :=
  [Tag.classKeyword, .funKeyword, .varKeyword, .forKeyword, .ifKeyword, .whileKeyword,
    .printKeyword, .returnKeyword].any token.is

end Token

namespace Rule

/-- The tokens from the first statement boundary on: after a semicolon, or before a token that
begins a statement. `skipped` is the token just passed over. -/
def resume (skipped : Token) : List Token → List Token
  | [] => []
  | next :: after =>
    if skipped.is .semicolon || next.beginsStatement then next :: after else resume next after

/-- Passes over the next token, and on to a statement boundary. -/
def synchronize : List Token → List Token
  | [] => []
  | skipped :: rest => resume skipped rest

theorem resume_suffix (skipped : Token) (rest : List Token) : resume skipped rest <:+ rest := by
  induction rest generalizing skipped with
  | nil => exact List.suffix_rfl
  | cons next after ih =>
    unfold resume
    split
    · exact List.suffix_rfl
    · exact (ih next).trans (List.suffix_cons next after)

theorem synchronize_suffix {rest others : List Token} {first : Token}
    (within : rest <:+ first :: others) : synchronize rest <:+ others := by
  cases rest with
  | nil => exact List.nil_suffix
  | cons skipped after =>
    refine (resume_suffix skipped after).trans ?_
    rcases List.suffix_cons_iff.1 within with same | inner
    · exact (List.cons.inj same).2 ▸ List.suffix_rfl
    · exact (List.suffix_cons skipped after).trans inner

end Rule

/-- Turns a complaint that stops a declaration into a note, and goes on behind it. -/
def Outcome.recover {α : Type} {first : Token} {others : List Token} :
    Outcome α true (first :: others) → Outcome (Option α) true (first :: others)
  | .accepted result rest moved notes => .accepted (some result) rest moved notes
  | .stopped complaint within notes =>
    .accepted none (Rule.synchronize complaint.remaining)
      (.past first (Rule.synchronize_suffix within)) (notes ++ [complaint])

namespace Rule

/-- An expression, unless the closing token comes at once. -/
def optionalBefore (closer : Tag) (input : List Token) : Outcome (Option Expr) false input :=
  if nextIs closer input then .done none else ((expression input).map some).relax

/-- An expression and its semicolon. -/
def terminated (what : Expectation) (input : List Token) : Outcome Expr true input :=
  (expression input).andThen fun value rest _ =>
    (expect .semicolon what rest).map fun _ => value

def expressionStatement (input : List Token) : Outcome Stmt true input :=
  (terminated .expressionEnd input).map .expression

/-- A variable declaration, from its name on. -/
def variableDeclaration (input : List Token) : Outcome Stmt true input :=
  (expect .identifier .variableName input).andThen fun name rest _ =>
    match rest with
    | [] => .stop .variableEnd
    | sign :: after =>
      if sign.is .equal then
        ((terminated .variableEnd after).map fun initial => Stmt.declare name (some initial)).behind
          sign
      else ((expect .semicolon .variableEnd (sign :: after)).map fun _ =>
        Stmt.declare name none).relax

/-- A return statement, from behind its keyword on. -/
def returnStatement (keyword : Token) (input : List Token) : Outcome Stmt true input :=
  (optionalBefore .semicolon input).andThen fun value rest _ =>
    (expect .semicolon .returnEnd rest).map fun _ => Stmt.returning keyword value

/-- The condition in parentheses of a branch or a loop. -/
def condition (start stop : Expectation) (input : List Token) : Outcome Expr true input :=
  (expect .leftParen start input).andThen fun _ rest _ =>
    (expression rest).andThen fun condition rest _ =>
      (expect .rightParen stop rest).map fun _ => condition

end Rule

/-- What stands between the parentheses of a counting loop. -/
structure ForHeader where
  initial : Option Stmt
  condition : Option Expr
  step : Option Expr

/-- A counting loop is a conditional loop that runs its step after its body, in a block that
begins with its initial statement. What is missing adds no node; a missing condition holds. -/
def ForHeader.loop (header : ForHeader) (body : Stmt) : Stmt :=
  let repeated := match header.step with
    | some step => .block [body, .expression step]
    | none => body
  let loop := .loop (header.condition.getD (.literal (.boolean true))) repeated
  match header.initial with
  | some initial => .block [initial, loop]
  | none => loop

namespace Rule

def forInitial (input : List Token) : Outcome (Option Stmt) true input :=
  match input with
  | [] => (expressionStatement []).map some
  | first :: after =>
    if first.is .semicolon then
      (Outcome.done none : Outcome (Option Stmt) false after).behind first
    else if first.is .varKeyword then ((variableDeclaration after).map some).behind first
    else (expressionStatement (first :: after)).map some

def forHeader (input : List Token) : Outcome ForHeader true input :=
  (expect .leftParen .forStart input).andThen fun _ rest _ =>
    (forInitial rest).andThen fun initial rest _ =>
      (optionalBefore .semicolon rest).andThen fun condition rest _ =>
        (expect .semicolon .conditionEnd rest).andThen fun _ rest _ =>
          (optionalBefore .rightParen rest).andThen fun step rest _ =>
            (expect .rightParen .forEnd rest).map fun _ => ForHeader.mk initial condition step

/-- The names of a non-empty parameter list, `count` of which came before; each one too many is
noted where it stands. -/
def parameterNames (count : Nat) (input : List Token) : Outcome (List Token) true input :=
  ((expect .identifier .parameterName input).noting
    (if maxArity ≤ count then [⟨.tooManyParameters, input⟩] else [])).andThen
    fun name rest moved =>
      match rest, moved with
      | [], _ => .done [name]
      | comma :: after, _moved =>
        if comma.is .comma then
          ((parameterNames (count + 1) after).map (name :: ·)).behind comma
        else .done [name]
termination_by input.length
decreasing_by
  have := _moved.length_lt
  simp only [List.length_cons] at this
  omega

/-- A function's name and parameters, up to the brace that opens its body. -/
def functionHeader (input : List Token) : Outcome (Token × List Token) true input :=
  (expect .identifier .functionName input).andThen fun name rest _ =>
    (expect .leftParen .parametersStart rest).andThen fun _ rest _ =>
      (if nextIs .rightParen rest then Outcome.done [] else (parameterNames 0 rest).relax).andThen
        fun parameters rest _ =>
          (expect .rightParen .parametersEnd rest).andThen fun _ rest _ =>
            (expect .leftBrace .bodyStart rest).map fun _ => (name, parameters)

mutual

def statement (input : List Token) : Outcome Stmt true input :=
  match input with
  | [] => expressionStatement []
  | first :: after =>
    if first.is .forKeyword then
      ((forHeader after).andThen fun header rest _moved =>
        (statement rest).map header.loop).behind first
    else if first.is .ifKeyword then
      ((condition .ifStart .ifEnd after).andThen fun condition rest _moved =>
        (statement rest).andThen fun consequence rest moved =>
          match rest, moved with
          | [], _ => .done (.branch condition consequence none)
          | keyword :: others, _moved' =>
            if keyword.is .elseKeyword then
              ((statement others).map fun alternative =>
                Stmt.branch condition consequence (some alternative)).behind keyword
            else .done (.branch condition consequence none)).behind first
    else if first.is .whileKeyword then
      ((condition .whileStart .whileEnd after).andThen fun condition rest _moved =>
        (statement rest).map (.loop condition)).behind first
    else if first.is .returnKeyword then (returnStatement first after).behind first
    else if first.is .leftBrace then ((block after).map .block).behind first
    else if first.is .printKeyword then ((terminated .printEnd after).map .print).behind first
    else expressionStatement (first :: after)
termination_by input.length * 4
decreasing_by
  · have := _moved.length_lt
    simp only [List.length_cons]
    omega
  · have := _moved.length_lt
    simp only [List.length_cons]
    omega
  · have := _moved.length_lt
    have := _moved'.length_lt
    simp only [List.length_cons] at this ⊢
    omega
  · have := _moved.length_lt
    simp only [List.length_cons]
    omega
  · simp only [List.length_cons]
    omega

/-- The statements of a block and its closing brace. -/
def block (input : List Token) : Outcome (List Stmt) true input :=
  (declarations true input).andThen fun statements rest _ =>
    (expect .rightBrace .blockEnd rest).map fun _ => statements
termination_by input.length * 4 + 3
decreasing_by omega

/-- Declarations up to the end of the tokens or, in a block, up to a closing brace. Those that
were given up are left out. -/
def declarations (inBlock : Bool) (input : List Token) : Outcome (List Stmt) false input :=
  match input with
  | [] => .done []
  | first :: others =>
    if inBlock && first.is .rightBrace then .done []
    else
      ((declaration first others).andThen fun parsed rest _moved =>
        (declarations inBlock rest).map (parsed.toList ++ ·)).relax
termination_by input.length * 4 + 2
decreasing_by
  · simp only [List.length_cons]
    omega
  · have := _moved.length_lt
    simp only [List.length_cons] at this ⊢
    omega

def declaration (first : Token) (others : List Token) :
    Outcome (Option Stmt) true (first :: others) :=
  if first.is .classKeyword then
    .accepted none (synchronize others)
      (.past first (synchronize_suffix (List.suffix_cons first others)))
      [⟨.unsupportedClass, first :: others⟩]
  else if first.is .funKeyword then
    (((functionHeader others).andThen fun header rest _moved =>
      (block rest).map fun body => Stmt.function header.1 header.2 body).behind first).recover
  else if first.is .varKeyword then ((variableDeclaration others).behind first).recover
  else (statement (first :: others)).recover
termination_by others.length * 4 + 5
decreasing_by
  · have := _moved.length_lt
    omega
  · simp only [List.length_cons]
    omega

end
end Rule
end Script
