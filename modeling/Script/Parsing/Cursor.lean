import Script.Parsing.Stream

/-! The parser as a cursor over its tokens, which it reads by their places. Behind the last token
there is no place: a call that reads there gives no answer, nor does one that is given too few
steps. -/

namespace Script

/-- A fault of the grammar, the token that is blamed for it, and the place of that token. -/
structure Report extends ParseError where
  place : Nat

structure Parser where
  tokens : List Token
  current : Nat
  /-- All places that the cursor has stood at, in order. -/
  trail : List Nat
  reports : List Report

namespace Parser

/-- How a part of a parse ends: with a value, with a report that unwinds, or without an answer. -/
inductive Result (α : Type) where
  | done (value : α) (parser : Parser)
  | raised (report : Report) (parser : Parser)
  | outside
  | exhausted

/-- A part of a parse. -/
def Run (α : Type) : Type := Parser → Result α

namespace Run

variable {α β : Type}

@[always_inline, inline]
def pure (value : α) : Run α := fun parser => .done value parser

@[always_inline, inline]
def bind (first : Run α) (next : α → Run β) : Run β := fun parser =>
  match first parser with
  | .done value parser => next value parser
  | .raised report parser => .raised report parser
  | .outside => .outside
  | .exhausted => .exhausted

instance : Monad Run where
  pure := Run.pure
  bind := Run.bind

def exhausted : Run α := fun _ => .exhausted

def raise (report : Report) : Run α := fun parser => .raised report parser

/-- Records a report and goes on. -/
def note (report : Report) : Run Unit := fun parser =>
  .done () { parser with reports := parser.reports ++ [report] }

end Run

open Run

/-- The place of the next token. -/
def place : Run Nat := fun parser => .done parser.current parser

def tokenAt (place : Nat) : Run Token := fun parser =>
  match parser.tokens[place]? with
  | some token => .done token parser
  | none => .outside

def peek : Run Token := do tokenAt (← place)

/-- The token behind the cursor; at the first place it is the next one. -/
def previous : Run Token := do tokenAt ((← place) - 1)

def isAtEnd : Run Bool := do return (← peek).is .endOfText

/-- Whether the next token is of the category; the end mark is of none. -/
def check (tag : Tag) : Run Bool := do
  if ← isAtEnd then return false else return (← peek).is tag

def checkAny : List Tag → Run Bool
  | [] => return false
  | tag :: others => do if ← check tag then return true else checkAny others

/-- Moves the cursor to the next place. -/
def step : Run Unit := fun parser =>
  .done ()
    { parser with current := parser.current + 1, trail := parser.trail ++ [parser.current + 1] }

/-- Passes over the next token, but never over the end mark. -/
def advance : Run Token := do
  if ← isAtEnd then previous
  else
    step
    previous

/-- Passes over the next token if it is of the category. -/
def accept (tag : Tag) : Run Bool := do
  if ← check tag then
    let _ ← advance
    return true
  else return false

def blamePeek (cause : ParseCause) : Run Report := do return ⟨⟨cause, ← peek⟩, ← place⟩

def blamePrevious (cause : ParseCause) : Run Report := do
  return ⟨⟨cause, ← previous⟩, (← place) - 1⟩

/-- Records a report about the next token if there is cause for it. -/
def noteIf (cause : ParseCause) (holds : Bool) : Run Unit := do
  if holds then note (← blamePeek cause) else return ()

def consume (tag : Tag) (what : Expectation) : Run Token := do
  if ← check tag then advance else raise (← blamePeek (.expected what))

mutual

def expression : (steps : Nat) → Run Expr
  | 0 => exhausted
  | steps + 1 => do
    let target ← layered steps .disjunction
    if ← accept .equal then
      let blamed ← blamePrevious .invalidTarget
      let value ← expression steps
      match target.assigned? value with
      | some assignment => return assignment
      | none =>
        note blamed
        return target
    else return target

def layered : (steps : Nat) → Layer → Run Expr
  | 0, _ => exhausted
  | steps + 1, layer => do
    let left ← operand steps layer
    joined steps layer left

def operand : (steps : Nat) → Layer → Run Expr
  | 0, _ => exhausted
  | steps + 1, layer =>
    match layer.tighter? with
    | some inner => layered steps inner
    | none => signed steps

def joined : (steps : Nat) → Layer → Expr → Run Expr
  | 0, _, _ => exhausted
  | steps + 1, layer, left => do
    if ← checkAny layer.operators then
      let operator ← advance
      let right ← operand steps layer
      joined steps layer (layer.join left operator right)
    else return left

def signed : (steps : Nat) → Run Expr
  | 0 => exhausted
  | steps + 1 => do
    if ← checkAny [.bang, .minus] then
      let operator ← advance
      let right ← signed steps
      return .unary operator right
    else suffixed steps

def suffixed : (steps : Nat) → Run Expr
  | 0 => exhausted
  | steps + 1 => do
    let object ← primary steps
    suffixes steps object

def suffixes : (steps : Nat) → Expr → Run Expr
  | 0, _ => exhausted
  | steps + 1, object => do
    if ← accept .leftParen then
      let arguments ← listed steps .rightParen true
      let paren ← consume .rightParen .argumentsEnd
      suffixes steps (.call object paren arguments)
    else if ← accept .leftBracket then
      let index ← expression steps
      let bracket ← consume .rightBracket .indexEnd
      suffixes steps (.subscript object bracket index)
    else return object

def listed : (steps : Nat) → (closer : Tag) → (limited : Bool) → Run (List Expr)
  | 0, _, _ => exhausted
  | steps + 1, closer, limited => do
    if ← check closer then return [] else separated steps limited 0

def separated : (steps : Nat) → (limited : Bool) → (count : Nat) → Run (List Expr)
  | 0, _, _ => exhausted
  | steps + 1, limited, count => do
    noteIf .tooManyArguments (limited && maxArity ≤ count)
    let item ← expression steps
    if ← accept .comma then return item :: (← separated steps limited (count + 1))
    else return [item]

def primary : (steps : Nat) → Run Expr
  | 0 => exhausted
  | steps + 1 => do
    if ← accept .falseKeyword then return .literal (.boolean false)
    else if ← accept .trueKeyword then return .literal (.boolean true)
    else if ← accept .nilKeyword then return .literal .nil
    else
      match (← peek).kind with
      | .number value =>
        let _ ← advance
        return .literal (.number value)
      | .string text =>
        let _ ← advance
        return .literal (.string text)
      | .plain _ =>
        if ← accept .identifier then return .reference (← previous)
        else if ← accept .leftParen then
          let inner ← expression steps
          let _ ← consume .rightParen .groupEnd
          return .grouping inner
        else if ← accept .leftBracket then
          let elements ← listed steps .rightBracket false
          let bracket ← consume .rightBracket .elementsEnd
          return .array bracket elements
        else raise (← blamePeek (.expected .expression))

end

def optionalBefore (steps : Nat) (closer : Tag) : Run (Option Expr) := do
  if ← check closer then return none else return some (← expression steps)

def terminated (steps : Nat) (what : Expectation) : Run Expr := do
  let value ← expression steps
  let _ ← consume .semicolon what
  return value

def expressionStatement (steps : Nat) : Run Stmt :=
  return .expression (← terminated steps .expressionEnd)

/-- A variable declaration, from its name on. -/
def variableDeclaration (steps : Nat) : Run Stmt := do
  let name ← consume .identifier .variableName
  if ← accept .equal then return .declare name (some (← terminated steps .variableEnd))
  else
    let _ ← consume .semicolon .variableEnd
    return .declare name none

/-- A return statement, from behind its keyword on. -/
def returnStatement (steps : Nat) : Run Stmt := do
  let keyword ← previous
  let value ← optionalBefore steps .semicolon
  let _ ← consume .semicolon .returnEnd
  return .returning keyword value

def condition (steps : Nat) (start stop : Expectation) : Run Expr := do
  let _ ← consume .leftParen start
  let condition ← expression steps
  let _ ← consume .rightParen stop
  return condition

def forInitial (steps : Nat) : Run (Option Stmt) := do
  if ← accept .semicolon then return none
  else if ← accept .varKeyword then return some (← variableDeclaration steps)
  else return some (← expressionStatement steps)

def forHeader (steps : Nat) : Run ForHeader := do
  let _ ← consume .leftParen .forStart
  let initial ← forInitial steps
  let condition ← optionalBefore steps .semicolon
  let _ ← consume .semicolon .conditionEnd
  let step ← optionalBefore steps .rightParen
  let _ ← consume .rightParen .forEnd
  return ⟨initial, condition, step⟩

def parameterNames : (steps : Nat) → (count : Nat) → Run (List Token)
  | 0, _ => exhausted
  | steps + 1, count => do
    noteIf .tooManyParameters (maxArity ≤ count)
    let name ← consume .identifier .parameterName
    if ← accept .comma then return name :: (← parameterNames steps (count + 1))
    else return [name]

def parameters (steps : Nat) : Run (List Token) := do
  if ← check .rightParen then return [] else parameterNames steps 0

def functionHeader (steps : Nat) : Run (Token × List Token) := do
  let name ← consume .identifier .functionName
  let _ ← consume .leftParen .parametersStart
  let parameters ← parameters steps
  let _ ← consume .rightParen .parametersEnd
  let _ ← consume .leftBrace .bodyStart
  return (name, parameters)

/-- Passes over tokens up to a statement boundary. -/
def skip : (steps : Nat) → Run Unit
  | 0 => exhausted
  | steps + 1 => do
    if ← isAtEnd then return ()
    else if (← previous).is .semicolon then return ()
    else if (← peek).beginsStatement then return ()
    else
      let _ ← advance
      skip steps

def synchronize (steps : Nat) : Run Unit := do
  let _ ← advance
  skip steps

/-- Records a report that unwinds, and goes on at a statement boundary. -/
def recovering {α : Type} (steps : Nat) (run : Run α) : Run (Option α) := fun parser =>
  match run parser with
  | .done value parser => .done (some value) parser
  | .raised report parser =>
    (do
      note report
      synchronize steps
      return none : Run (Option α)) parser
  | .outside => .outside
  | .exhausted => .exhausted

/-- Whether there are no more declarations; in a block they end at its closing brace. -/
def isClosed (inBlock : Bool) : Run Bool := do
  if inBlock then
    if ← check .rightBrace then return true else isAtEnd
  else isAtEnd

mutual

def statement : (steps : Nat) → Run Stmt
  | 0 => exhausted
  | steps + 1 => do
    if ← accept .forKeyword then
      let header ← forHeader steps
      let body ← statement steps
      return header.loop body
    else if ← accept .ifKeyword then
      let condition ← condition steps .ifStart .ifEnd
      let consequence ← statement steps
      if ← accept .elseKeyword then
        return .branch condition consequence (some (← statement steps))
      else return .branch condition consequence none
    else if ← accept .whileKeyword then
      let condition ← condition steps .whileStart .whileEnd
      let body ← statement steps
      return .loop condition body
    else if ← accept .returnKeyword then returnStatement steps
    else if ← accept .leftBrace then return .block (← block steps)
    else if ← accept .printKeyword then return .print (← terminated steps .printEnd)
    else expressionStatement steps

def block : (steps : Nat) → Run (List Stmt)
  | 0 => exhausted
  | steps + 1 => do
    let statements ← declarations steps true
    let _ ← consume .rightBrace .blockEnd
    return statements

def declarations : (steps : Nat) → (inBlock : Bool) → Run (List Stmt)
  | 0, _ => exhausted
  | steps + 1, inBlock => do
    if ← isClosed inBlock then return []
    else
      let parsed ← declaration steps
      let others ← declarations steps inBlock
      return parsed.toList ++ others

def declaration : (steps : Nat) → Run (Option Stmt)
  | 0 => exhausted
  | steps + 1 => recovering steps do
    if ← accept .classKeyword then raise (← blamePrevious .unsupportedClass)
    else if ← accept .funKeyword then
      let header ← functionHeader steps
      let body ← block steps
      return .function header.1 header.2 body
    else if ← accept .varKeyword then variableDeclaration steps
    else statement steps

end

/-- The parser before its first call. An end mark is supplied if the list does not end in one. -/
def ofList (tokens : List Token) : Parser where
  tokens :=
    match tokens.getLast? with
    | some last => if last.is .endOfText then tokens else tokens ++ [TokenStream.missingLast tokens]
    | none => [TokenStream.missingLast tokens]
  current := 0
  trail := [0]
  reports := []

/-- Hands out the reports made so far, or the value if there are none. -/
def finish {α : Type} (value : α) : Run (Except (List Report) α) := fun parser =>
  if parser.reports.isEmpty then .done (.ok value) parser
  else .done (.error parser.reports) { parser with reports := [] }

/-- Parses declarations up to the end mark. -/
def parse (steps : Nat) : Run (Except (List Report) (List Stmt)) := do
  let statements ← declarations steps false
  finish statements

/-- An expression that reaches up to the end mark. -/
def wholeExpression (steps : Nat) : Run Expr := do
  let tree ← expression steps
  if ← isAtEnd then return tree else raise (← blamePeek (.expected .endOfExpression))

/-- Parses one expression. A report that unwinds is the last one. -/
def parseExpression (steps : Nat) : Run (Except (List Report) Expr) := fun parser =>
  match wholeExpression steps parser with
  | .done tree parser => finish tree parser
  | .raised report parser =>
    .done (.error (parser.reports ++ [report])) { parser with reports := [] }
  | .outside => .outside
  | .exhausted => .exhausted

/-- The two ways to call a parser. -/
inductive Call where
  | program | expression

/-- What a call can find. -/
inductive Parsed where
  | program (statements : List Stmt)
  | expression (tree : Expr)

def Call.run (steps : Nat) : Call → Run (Except (List Report) Parsed)
  | .program => return (← parse steps).map .program
  | .expression => return (← parseExpression steps).map .expression

end Parser
end Script
