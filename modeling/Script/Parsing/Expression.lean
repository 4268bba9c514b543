import Script.Parsing.Outcome
import Script.Tree

/-! The grammar of expressions: assignment, six layers of binary operators, prefix operators,
calls and subscripts, and the primary forms. -/

namespace Script

/-- The layers of left-associative binary operators, the loosest first. -/
inductive Layer where
  | disjunction | conjunction | equality | comparison | sum | product
  deriving Repr, DecidableEq

namespace Layer

def operators : Layer → List Tag
  | .disjunction => [.orKeyword]
  | .conjunction => [.andKeyword]
  | .equality => [.bangEqual, .equalEqual]
  | .comparison => [.greater, .greaterEqual, .less, .lessEqual]
  | .sum => [.minus, .plus]
  | .product => [.star, .slash]

def joins (layer : Layer) (token : Token) : Bool := layer.operators.any token.is

/-- The node that an operator of the layer makes. -/
def join (layer : Layer) (left : Expr) (operator : Token) (right : Expr) : Expr :=
  match layer with
  | .disjunction | .conjunction => .logical left operator right
  | _ => .binary left operator right

/-- The layer of the operands; those of the tightest layer are prefix expressions. -/
def tighter? : Layer → Option Layer
  | .disjunction => some .conjunction
  | .conjunction => some .equality
  | .equality => some .comparison
  | .comparison => some .sum
  | .sum => some .product
  | .product => none

/-- How many layers there are from this one inward. -/
def depth : Layer → Nat
  | .disjunction => 6
  | .conjunction => 5
  | .equality => 4
  | .comparison => 3
  | .sum => 2
  | .product => 1

theorem depth_tighter {layer inner : Layer} (found : layer.tighter? = some inner) :
    layer.depth = inner.depth + 1 := by
  cases layer <;> simp [tighter?] at found <;> subst found <;> rfl

theorem depth_pos (layer : Layer) : 0 < layer.depth := by cases layer <;> decide

theorem depth_le (layer : Layer) : layer.depth ≤ 6 := by cases layer <;> decide

end Layer

/-- The greatest number of parameters and of arguments. -/
def maxArity : Nat := 255

/-- The assignment of `value` to `target`, if it is a name or a subscript. -/
def Expr.assigned? (target value : Expr) : Option Expr :=
  match target with
  | .reference name => some (.assign name value)
  | .subscript object bracket index => some (.store object bracket index value)
  | _ => none

namespace Rule

mutual

/-- An assignment groups to the right. A target that cannot be assigned to is noted at the equals
sign, and the value is dropped. -/
def expression (input : List Token) : Outcome Expr true input :=
  (layered .disjunction input).andThen fun target rest moved =>
    match rest, moved with
    | [], _ => .done target
    | sign :: after, _moved =>
      if sign.is .equal then
        ((expression after).settle fun value =>
          match target.assigned? value with
          | some assignment => (assignment, [])
          | none => (target, [⟨.invalidTarget, sign :: after⟩])).behind sign
      else .done target
termination_by input.length * 20 + 15
decreasing_by
  · have := Layer.depth_le .disjunction
    omega
  · have := _moved.length_lt
    simp only [List.length_cons] at this
    omega

/-- Operands of a layer joined by its operators. -/
def layered (layer : Layer) (input : List Token) : Outcome Expr true input :=
  (operand layer input).andThen fun left rest _moved => joined layer left rest
termination_by input.length * 20 + 2 * layer.depth + 2
decreasing_by
  · omega
  · have := _moved.length_lt
    omega

def operand (layer : Layer) (input : List Token) : Outcome Expr true input :=
  match _found : layer.tighter? with
  | some inner => layered inner input
  | none => signed input
termination_by input.length * 20 + 2 * layer.depth + 1
decreasing_by
  · have := Layer.depth_tighter _found
    omega
  · have := layer.depth_pos
    omega

/-- What the operators that follow make of the operand read so far. -/
def joined (layer : Layer) (left : Expr) (input : List Token) : Outcome Expr false input :=
  match input with
  | [] => .done left
  | operator :: after =>
    if layer.joins operator then
      ((operand layer after).andThen fun right rest _moved =>
        joined layer (layer.join left operator right) rest).behind operator
    else .done left
termination_by input.length * 20
decreasing_by
  · have := layer.depth_le
    simp only [List.length_cons]
    omega
  · have := _moved.length_lt
    simp only [List.length_cons]
    omega

/-- Prefix operators group to the right and bind tighter than all others. -/
def signed (input : List Token) : Outcome Expr true input :=
  match input with
  | [] => suffixed []
  | operator :: after =>
    if operator.is .bang || operator.is .minus then
      ((signed after).map (.unary operator)).behind operator
    else suffixed (operator :: after)
termination_by input.length * 20 + 2
decreasing_by all_goals simp only [List.length_cons, List.length_nil]; omega

def suffixed (input : List Token) : Outcome Expr true input :=
  (primary input).andThen fun object rest _moved => suffixes object rest
termination_by input.length * 20 + 1
decreasing_by
  · omega
  · have := _moved.length_lt
    omega

/-- Calls and subscripts in any mixture. -/
def suffixes (object : Expr) (input : List Token) : Outcome Expr false input :=
  match input with
  | [] => .done object
  | opening :: after =>
    if opening.is .leftParen then
      ((listed .rightParen true after).andThen fun arguments rest _moved =>
        (expect .rightParen .argumentsEnd rest).andThen fun paren rest _moved' =>
          suffixes (.call object paren arguments) rest).behind opening
    else if opening.is .leftBracket then
      ((expression after).andThen fun index rest _moved =>
        (expect .rightBracket .indexEnd rest).andThen fun bracket rest _moved' =>
          suffixes (.subscript object bracket index) rest).behind opening
    else .done object
termination_by input.length * 20
decreasing_by
  · simp only [List.length_cons]
    omega
  · have := _moved.length_le
    have := _moved'.length_le
    simp only [List.length_cons]
    omega
  · simp only [List.length_cons]
    omega
  · have := _moved.length_le
    have := _moved'.length_le
    simp only [List.length_cons]
    omega

/-- Expressions separated by commas, up to the closing token, which may come at once. -/
def listed (closer : Tag) (limited : Bool) (input : List Token) : Outcome (List Expr) false input :=
  if nextIs closer input then .done [] else (separated limited 0 input).relax
termination_by input.length * 20 + 17
decreasing_by omega

/-- The items of a non-empty list, `count` of which came before. Where the number is limited, each
item too many is noted at its first token. -/
def separated (limited : Bool) (count : Nat) (input : List Token) :
    Outcome (List Expr) true input :=
  ((expression input).noting
    (if limited && maxArity ≤ count then [⟨.tooManyArguments, input⟩] else [])).andThen
    fun first rest moved =>
      match rest, moved with
      | [], _ => .done [first]
      | comma :: after, _moved =>
        if comma.is .comma then
          ((separated limited (count + 1) after).map (first :: ·)).behind comma
        else .done [first]
termination_by input.length * 20 + 16
decreasing_by
  · omega
  · have := _moved.length_lt
    simp only [List.length_cons] at this
    omega

/-- Literals, names, groups and array literals. -/
def primary (input : List Token) : Outcome Expr true input :=
  match input with
  | [] => .stop .expression
  | token :: after =>
    let leaf (expr : Expr) : Outcome Expr true (token :: after) :=
      (Outcome.done expr : Outcome Expr false after).behind token
    match token.kind with
    | .number value => leaf (.literal (.number value))
    | .string text => leaf (.literal (.string text))
    | .plain .falseKeyword => leaf (.literal (.boolean false))
    | .plain .trueKeyword => leaf (.literal (.boolean true))
    | .plain .nilKeyword => leaf (.literal .nil)
    | .plain .identifier => leaf (.reference token)
    | .plain .leftParen =>
      ((expression after).andThen fun inner rest _ =>
        (expect .rightParen .groupEnd rest).map fun _ => Expr.grouping inner).behind token
    | .plain .leftBracket =>
      ((listed .rightBracket false after).andThen fun elements rest _ =>
        (expect .rightBracket .elementsEnd rest).map fun bracket =>
          Expr.array bracket elements).behind token
    | _ => .stop .expression
termination_by input.length * 20
decreasing_by all_goals simp only [List.length_cons]; omega

end
end Rule
end Script
