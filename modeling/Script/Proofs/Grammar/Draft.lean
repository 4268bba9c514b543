import Mathlib.Algebra.Order.Group.Multiset
import Script.Proofs.Grammar.Sentence
import Script.Proofs.Parsing.Rule

/-! The relaxed grammar: any disjunction may stand left of an equals sign, and no list is too long.
A draft keeps all that is written, also what a tree has no place for, so that what is wrong with it
can be counted. -/

namespace Script.Grammar

/-- An expression as it is written. -/
inductive Draft where
  | leaf (token : Token)
  | group (opening : Token) (inner : Draft)
  | array (opening : Token) (elements : List Draft)
  | sign (operator : Token) (operand : Draft)
  | join (left right : Draft)
  | call (callee : Draft) (arguments : List Draft)
  | subscript (object index : Draft)
  | assign (target : Draft) (sign : Token) (value : Draft)

namespace Draft

def first : Draft → Token
  | .leaf token => token
  | .group opening _ | .array opening _ => opening
  | .sign operator _ => operator
  | .join left _ => left.first
  | .call callee _ => callee.first
  | .subscript object _ => object.first
  | .assign target _ _ => target.first

/-- A name by itself and what ends in a subscript may be assigned to. What only has a subscript as
its last operand does not end in one. -/
def assignable : Draft → Bool
  | .leaf token => token.is .identifier
  | .subscript _ _ => true
  | _ => false

/-- The fault of an argument too many, which is at its first token. -/
def fault (argument : Draft) : ParseError := ⟨.tooManyArguments, argument.first⟩

mutual

/-- All that is wrong with a draft, at any depth: at the equals sign, what is assigned to and may
not be, and of each call the arguments behind 255 others. -/
def faults : Draft → Multiset ParseError
  | .leaf _ => 0
  | .group _ inner => inner.faults
  | .array _ elements => faultsAll elements
  | .sign _ operand => operand.faults
  | .join left right => left.faults + right.faults
  | .call callee arguments =>
    callee.faults + faultsAll arguments + ((arguments.drop 255).map fault : List ParseError)
  | .subscript object index => object.faults + index.faults
  | .assign target equals value =>
    target.faults + value.faults + if target.assignable then 0 else {⟨.invalidTarget, equals⟩}

@[simp] def faultsAll : List Draft → Multiset ParseError
  | [] => 0
  | draft :: rest => draft.faults + faultsAll rest

end

@[simp] theorem faultsAll_append (drafts others : List Draft) :
    faultsAll (drafts ++ others) = faultsAll drafts + faultsAll others := by
  induction drafts with
  | nil => simp
  | cons draft rest ih => simp [ih, add_assoc]

end Draft

/-- `Drafted level tokens draft`: the tokens are the draft written out, as an expression of the
level. -/
inductive Drafted : Level → List Token → Draft → Prop where
  | inside {level inner : Level} {tokens : List Token} {draft : Draft}
      (next : level.inner? = some inner) (drafted : Drafted inner tokens draft) :
      Drafted level tokens draft
  | assign {sign : Token} {targetTokens tokens : List Token} {target value : Draft}
      (left : Drafted .disjunction targetTokens target) (equals : sign.is .equal)
      (right : Drafted .assignment tokens value) :
      Drafted .assignment (targetTokens ++ sign :: tokens) (.assign target sign value)
  | join {level inner : Level} {tag : Tag} {node : Expr → Token → Expr → Expr} {operator : Token}
      {leftTokens rightTokens : List Token} {left right : Draft}
      (joins : Joins level tag inner node) (before : Drafted level leftTokens left)
      (found : operator.is tag) (after : Drafted inner rightTokens right) :
      Drafted level (leftTokens ++ operator :: rightTokens) (.join left right)
  | sign {operator : Token} {tokens : List Token} {operand : Draft}
      (found : operator.is .bang ∨ operator.is .minus) (right : Drafted .signed tokens operand) :
      Drafted .signed (operator :: tokens) (.sign operator operand)
  | call {opening closing : Token} {calleeTokens listTokens : List Token} {callee : Draft}
      {arguments : List (List Token × Draft)} (function : Drafted .suffixed calleeTokens callee)
      (opens : opening.is .leftParen)
      (each : ∀ argument ∈ arguments, Drafted .assignment argument.1 argument.2)
      (listed : Separated (arguments.map Prod.fst) listTokens) (closes : closing.is .rightParen) :
      Drafted .suffixed (calleeTokens ++ opening :: listTokens ++ [closing])
        (.call callee (arguments.map Prod.snd))
  | subscript {opening closing : Token} {objectTokens indexTokens : List Token}
      {object index : Draft} (left : Drafted .suffixed objectTokens object)
      (opens : opening.is .leftBracket) (place : Drafted .assignment indexTokens index)
      (closes : closing.is .rightBracket) :
      Drafted .suffixed (objectTokens ++ opening :: indexTokens ++ [closing])
        (.subscript object index)
  | leaf {token : Token} {tree : Expr} (leaf : token.leaf? = some tree) :
      Drafted .primary [token] (.leaf token)
  | group {opening closing : Token} {tokens : List Token} {inner : Draft}
      (opens : opening.is .leftParen) (drafted : Drafted .assignment tokens inner)
      (closes : closing.is .rightParen) :
      Drafted .primary (opening :: tokens ++ [closing]) (.group opening inner)
  | array {opening closing : Token} {listTokens : List Token}
      {elements : List (List Token × Draft)} (opens : opening.is .leftBracket)
      (each : ∀ element ∈ elements, Drafted .assignment element.1 element.2)
      (listed : Separated (elements.map Prod.fst) listTokens) (closes : closing.is .rightBracket) :
      Drafted .primary (opening :: listTokens ++ [closing])
        (.array opening (elements.map Prod.snd))

theorem Drafted.of_primary {tokens : List Token} {draft : Draft}
    (drafted : Drafted .primary tokens draft) : Drafted .disjunction tokens draft := by
  have signed : Drafted .signed tokens draft := .inside rfl (.inside rfl drafted)
  have comparison : Drafted .comparison tokens draft :=
    .inside rfl (.inside rfl (.inside rfl signed))
  exact .inside rfl (.inside rfl (.inside rfl comparison))

theorem Drafted.starts {level : Level} {tokens : List Token} {draft : Draft}
    (drafted : Drafted level tokens draft) : tokens.head? = some draft.first := by
  induction drafted with
  | inside next drafted ih => exact ih
  | assign left equals right ih => simp [ih, Draft.first]
  | join joins before found after ih => simp [ih, Draft.first]
  | call function opens each listed closes ih => simp [ih, Draft.first]
  | subscript left opens place closes ih => simp [ih, Draft.first]
  | sign | leaf | group | array => rfl

/-- A statement as it is written: the parameters it names, and the expressions and the statements
it is made of. -/
inductive Outline where
  | node (parameters : List Token) (drafts : List Draft) (inner : List Outline)

namespace Outline

mutual

/-- All that is wrong with an outline, at any depth: the parameters of each function behind 255
others, and what is wrong with its drafts. -/
@[simp] def faults : Outline → Multiset ParseError
  | .node parameters drafts inner =>
    parameterFaults parameters + Draft.faultsAll drafts + faultsAll inner

@[simp] def faultsAll : List Outline → Multiset ParseError
  | [] => 0
  | outline :: rest => outline.faults + faultsAll rest

end

end Outline

/-- An expression that may be missing, as it is written. -/
inductive DraftedMaybe : List Token → List Draft → Prop where
  | none : DraftedMaybe [] []
  | some {tokens : List Token} {draft : Draft} (drafted : Drafted .assignment tokens draft) :
      DraftedMaybe tokens [draft]

/-- A variable declaration from its keyword to its semicolon, as it is written. -/
inductive DraftedVariable : List Token → List Draft → Prop where
  | bare {keyword name closing : Token} (declares : keyword.is .varKeyword)
      (named : name.is .identifier) (closes : closing.is .semicolon) :
      DraftedVariable [keyword, name, closing] []
  | initial {keyword name sign closing : Token} {tokens : List Token} {draft : Draft}
      (declares : keyword.is .varKeyword) (named : name.is .identifier) (equals : sign.is .equal)
      (drafted : Drafted .assignment tokens draft) (closes : closing.is .semicolon) :
      DraftedVariable (keyword :: name :: sign :: tokens ++ [closing]) [draft]

/-- What comes first in the header of a counting loop, as it is written. -/
inductive DraftedInitial : List Token → List Draft → Prop where
  | none {closing : Token} (closes : closing.is .semicolon) : DraftedInitial [closing] []
  | declaration {tokens : List Token} {drafts : List Draft}
      (declared : DraftedVariable tokens drafts) : DraftedInitial tokens drafts
  | expression {closing : Token} {tokens : List Token} {draft : Draft}
      (drafted : Drafted .assignment tokens draft) (closes : closing.is .semicolon) :
      DraftedInitial (tokens ++ [closing]) [draft]

/-- What tokens may be an outline of. Which branch an `else` belongs to is left open. -/
inductive Rank where
  | declaration | statement

/-- `Outlined rank tokens outline`: the tokens are the outline written out, as a declaration or as a
statement. -/
inductive Outlined : Rank → List Token → Outline → Prop where
  | function {keyword name opening closing bodyOpening bodyClosing : Token}
      {listTokens parameters : List Token} {body : List (List Token × Outline)}
      (declares : keyword.is .funKeyword) (named : name.is .identifier)
      (opens : opening.is .leftParen)
      (each : ∀ parameter ∈ parameters, parameter.is .identifier)
      (listed : Separated (parameters.map ([·])) listTokens) (closes : closing.is .rightParen)
      (bodyOpens : bodyOpening.is .leftBrace)
      (inner : ∀ part ∈ body, Outlined .declaration part.1 part.2)
      (bodyCloses : bodyClosing.is .rightBrace) :
      Outlined .declaration
        (keyword :: name :: opening :: listTokens ++ closing :: bodyOpening ::
          body.flatMap Prod.fst ++ [bodyClosing])
        (.node parameters [] (body.map Prod.snd))
  | declaration {tokens : List Token} {drafts : List Draft}
      (declared : DraftedVariable tokens drafts) :
      Outlined .declaration tokens (.node [] drafts [])
  | statement {tokens : List Token} {outline : Outline}
      (outlined : Outlined .statement tokens outline) : Outlined .declaration tokens outline
  | counting {keyword opening middle closing : Token}
      {initialTokens conditionTokens stepTokens bodyTokens : List Token}
      {initial condition step : List Draft} {body : Outline} (loops : keyword.is .forKeyword)
      (opens : opening.is .leftParen) (start : DraftedInitial initialTokens initial)
      (tested : DraftedMaybe conditionTokens condition) (separates : middle.is .semicolon)
      (steps : DraftedMaybe stepTokens step) (closes : closing.is .rightParen)
      (inner : Outlined .statement bodyTokens body) :
      Outlined .statement
        (keyword :: opening :: initialTokens ++ conditionTokens ++ middle :: stepTokens ++
          closing :: bodyTokens)
        (.node [] (initial ++ condition ++ step) [body])
  | branch {keyword opening closing : Token} {conditionTokens tokens : List Token}
      {condition : Draft} {consequence : Outline} (branches : keyword.is .ifKeyword)
      (opens : opening.is .leftParen) (tested : Drafted .assignment conditionTokens condition)
      (closes : closing.is .rightParen) (inner : Outlined .statement tokens consequence) :
      Outlined .statement (keyword :: opening :: conditionTokens ++ closing :: tokens)
        (.node [] [condition] [consequence])
  | alternative {keyword opening closing other : Token}
      {conditionTokens tokens otherTokens : List Token} {condition : Draft}
      {consequence alternative : Outline} (branches : keyword.is .ifKeyword)
      (opens : opening.is .leftParen) (tested : Drafted .assignment conditionTokens condition)
      (closes : closing.is .rightParen) (inner : Outlined .statement tokens consequence)
      (otherwise : other.is .elseKeyword) (outer : Outlined .statement otherTokens alternative) :
      Outlined .statement
        (keyword :: opening :: conditionTokens ++ closing :: tokens ++ other :: otherTokens)
        (.node [] [condition] [consequence, alternative])
  | loop {keyword opening closing : Token} {conditionTokens tokens : List Token}
      {condition : Draft} {body : Outline} (loops : keyword.is .whileKeyword)
      (opens : opening.is .leftParen) (tested : Drafted .assignment conditionTokens condition)
      (closes : closing.is .rightParen) (inner : Outlined .statement tokens body) :
      Outlined .statement (keyword :: opening :: conditionTokens ++ closing :: tokens)
        (.node [] [condition] [body])
  | returning {keyword closing : Token} {tokens : List Token} {value : List Draft}
      (returns : keyword.is .returnKeyword) (result : DraftedMaybe tokens value)
      (closes : closing.is .semicolon) :
      Outlined .statement (keyword :: tokens ++ [closing]) (.node [] value [])
  | block {opening closing : Token} {body : List (List Token × Outline)}
      (opens : opening.is .leftBrace)
      (inner : ∀ part ∈ body, Outlined .declaration part.1 part.2)
      (closes : closing.is .rightBrace) :
      Outlined .statement (opening :: body.flatMap Prod.fst ++ [closing])
        (.node [] [] (body.map Prod.snd))
  | print {keyword closing : Token} {tokens : List Token} {value : Draft}
      (prints : keyword.is .printKeyword) (drafted : Drafted .assignment tokens value)
      (closes : closing.is .semicolon) :
      Outlined .statement (keyword :: tokens ++ [closing]) (.node [] [value] [])
  | expression {closing : Token} {tokens : List Token} {value : Draft}
      (drafted : Drafted .assignment tokens value) (closes : closing.is .semicolon) :
      Outlined .statement (tokens ++ [closing]) (.node [] [value] [])

/-- Declarations one after another, as they are written. -/
def OutlinedProgram (tokens : List Token) (outlines : List Outline) : Prop :=
  ∃ parts : List (List Token × Outline), (∀ part ∈ parts, Outlined .declaration part.1 part.2) ∧
    parts.flatMap Prod.fst = tokens ∧ parts.map Prod.snd = outlines

end Script.Grammar
