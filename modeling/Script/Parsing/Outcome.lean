import Script.Diagnostic

/-! What a grammar rule makes of a list of tokens. A rule either accepts some of them or stops
with a complaint; on the way it may note complaints that do not stop it. That the tokens left
over are an end of the tokens given is part of the type, so parsing only moves forward and the
recursion of the grammar is founded on the number of tokens left. -/

namespace Script

/-- What a rule that stops was looking for. -/
inductive Expectation where
  | functionName | parametersStart | parameterName | parametersEnd | bodyStart
  | variableName | variableEnd
  | forStart | conditionEnd | forEnd
  | ifStart | ifEnd | whileStart | whileEnd
  | returnEnd | printEnd | expressionEnd | blockEnd
  | indexEnd | argumentsEnd | groupEnd | elementsEnd
  | expression | endOfExpression
  deriving Repr, DecidableEq

def Expectation.text : Expectation → String
  | .functionName => "function name"
  | .parametersStart => "'(' after function name"
  | .parameterName => "parameter name"
  | .parametersEnd => "')' after parameters"
  | .bodyStart => "'\x7b' before function body"
  | .variableName => "variable name"
  | .variableEnd => "';' after variable declaration"
  | .forStart => "'(' after 'for'"
  | .conditionEnd => "';' after loop condition"
  | .forEnd => "')' after for clauses"
  | .ifStart => "'(' after 'if'"
  | .ifEnd => "')' after if condition"
  | .whileStart => "'(' after 'while'"
  | .whileEnd => "')' after condition"
  | .returnEnd => "';' after return value"
  | .printEnd => "';' after value"
  | .expressionEnd => "';' after expression"
  | .blockEnd => "'\x7d' after block"
  | .indexEnd => "']' after index"
  | .argumentsEnd => "')' after arguments"
  | .groupEnd => "')' after expression"
  | .elementsEnd => "']' after array elements"
  | .expression => "expression"
  | .endOfExpression => "end of expression"

inductive ParseCause where
  | expected (what : Expectation)
  | unsupportedClass
  | tooManyParameters
  | tooManyArguments
  | invalidTarget
  deriving Repr, DecidableEq

def ParseCause.message : ParseCause → String
  | .expected what => "Expect " ++ what.text ++ "."
  | .unsupportedClass => "Classes are not supported."
  | .tooManyParameters => "Can't have more than 255 parameters."
  | .tooManyArguments => "Can't have more than 255 arguments."
  | .invalidTarget => "Invalid assignment target."

/-- A fault of the grammar and the tokens from the blamed one on; there are none when the end
of the tokens is to blame. -/
structure Complaint where
  cause : ParseCause
  remaining : List Token

/-- `rest` is an end of `input`, and a proper one where `progress` is asked for. -/
def Moved (progress : Bool) (rest input : List Token) : Prop :=
  rest <:+ input ∧ (progress = true → rest.length < input.length)

namespace Moved

theorem refl (input : List Token) : Moved false input input :=
  ⟨List.suffix_rfl, by simp⟩

theorem trans {first second : Bool} {rest middle input : List Token}
    (near : Moved first middle input) (far : Moved second rest middle) :
    Moved (first || second) rest input := by
  refine ⟨far.1.trans near.1, fun progress => ?_⟩
  have shrink := far.1.length_le
  have shorter := near.1.length_le
  cases first with
  | true => exact Nat.lt_of_le_of_lt shrink (near.2 rfl)
  | false => exact Nat.lt_of_lt_of_le (far.2 progress) shorter

/-- Tokens left over behind `token` are fewer than those before it. -/
theorem past {asked : Bool} {rest after : List Token} (token : Token) (left : rest <:+ after) :
    Moved asked rest (token :: after) := by
  refine ⟨left.trans (List.suffix_cons token after), fun _ => ?_⟩
  have := left.length_le
  simp only [List.length_cons]
  omega

theorem length_le {progress : Bool} {rest input : List Token} (moved : Moved progress rest input) :
    rest.length ≤ input.length := moved.1.length_le

theorem length_lt {rest input : List Token} (moved : Moved true rest input) :
    rest.length < input.length := moved.2 rfl

end Moved

/-- The outcome of a rule on `input`. A rule of which `progress` is asked takes at least one
token when it accepts. -/
inductive Outcome (α : Type) (progress : Bool) (input : List Token) where
  | accepted (result : α) (rest : List Token) (moved : Moved progress rest input)
      (notes : List Complaint)
  | stopped (complaint : Complaint) (within : complaint.remaining <:+ input)
      (notes : List Complaint)

namespace Outcome

variable {α β : Type} {progress further : Bool} {input : List Token}

/-- Accepts without taking a token. -/
def done (result : α) : Outcome α false input := .accepted result input (Moved.refl input) []

/-- Stops, blaming the next token. -/
def stop (what : Expectation) : Outcome α progress input :=
  .stopped ⟨.expected what, input⟩ List.suffix_rfl []

/-- Goes on with what the first rule left over. -/
def andThen (first : Outcome α progress input)
    (next : α → (rest : List Token) → Moved progress rest input → Outcome β further rest) :
    Outcome β (progress || further) input :=
  match first with
  | .stopped complaint within notes => .stopped complaint within notes
  | .accepted result rest moved notes =>
    match next result rest moved with
    | .stopped complaint within more =>
      .stopped complaint (within.trans moved.1) (notes ++ more)
    | .accepted result rest moved' more =>
      .accepted result rest (moved.trans moved') (notes ++ more)

/-- Replaces the result, and notes what there is to note about it. -/
def settle (outcome : Outcome α progress input) (judge : α → β × List Complaint) :
    Outcome β progress input :=
  match outcome with
  | .stopped complaint within notes => .stopped complaint within notes
  | .accepted result rest moved notes =>
    .accepted (judge result).1 rest moved (notes ++ (judge result).2)

def map (change : α → β) (outcome : Outcome α progress input) : Outcome β progress input :=
  match outcome with
  | .stopped complaint within notes => .stopped complaint within notes
  | .accepted result rest moved notes => .accepted (change result) rest moved notes

/-- Puts complaints before those of the rule. -/
def noting (earlier : List Complaint) : Outcome α progress input → Outcome α progress input
  | .stopped complaint within notes => .stopped complaint within (earlier ++ notes)
  | .accepted result rest moved notes => .accepted result rest moved (earlier ++ notes)

/-- The outcome of a rule that follows `token`, seen from before that token. -/
def behind (token : Token) {asked : Bool} (outcome : Outcome α progress input) :
    Outcome α asked (token :: input) :=
  match outcome with
  | .stopped complaint within notes =>
    .stopped complaint (within.trans (List.suffix_cons token input)) notes
  | .accepted result rest moved notes => .accepted result rest (.past token moved.1) notes

/-- Forgets that a token was taken. -/
def relax : Outcome α progress input → Outcome α false input
  | .stopped complaint within notes => .stopped complaint within notes
  | .accepted result rest moved notes =>
    .accepted result rest ⟨moved.1, fun impossible => by simp at impossible⟩ notes

end Outcome

namespace Rule

/-- Takes the next token if it is of the wanted category. -/
def expect (wanted : Tag) (what : Expectation) : (input : List Token) → Outcome Token true input
  | [] => .stop what
  | token :: after =>
    if token.is wanted then (Outcome.done token : Outcome Token false after).behind token
    else .stop what

/-- Whether the next token is of the given category. -/
def nextIs (wanted : Tag) : List Token → Bool
  | [] => false
  | token :: _ => token.is wanted

end Rule
end Script
