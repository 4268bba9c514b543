import Script.Evaluation.Machine
import Script.Value.Equality
import Script.Value.Text

/-! The operators, as functions of operands that are already evaluated. -/

namespace Script

namespace Operator

def unary (operator : Token) (right : Value) : Except RuntimeCause Value :=
  match operator.kind.tag?, right with
  | some .bang, right => .ok (.boolean !right.isTruthy)
  | some .minus, .number value => .ok (.number (-value))
  | some .minus, _ => .error (.numberOperand operator.lexeme)
  | _, _ => .error (.invalidUnary operator.lexeme)

/-- The operators that take two numbers and nothing else. -/
def arithmetic? : Tag → Option (Float → Float → Value)
  | .slash => some fun left right => .number (left / right)
  | .minus => some fun left right => .number (left - right)
  | .star => some fun left right => .number (left * right)
  | .greater => some fun left right => .boolean (left > right)
  | .greaterEqual => some fun left right => .boolean (left ≥ right)
  | .less => some fun left right => .boolean (left < right)
  | .lessEqual => some fun left right => .boolean (left ≤ right)
  | _ => none

/-- Numbers are added and strings joined; a number beside a string takes part as its text. -/
def add : Value → Value → Except RuntimeCause Value
  | .number left, .number right => .ok (.number (left + right))
  | .string left, .string right => .ok (.string (left ++ right))
  | .string left, .number right => .ok (.string (left ++ Value.numberStyle.write right))
  | .number left, .string right => .ok (.string (Value.numberStyle.write left ++ right))
  | _, _ => .error .additionOperands

def isZero : Value → Bool
  | .number value => value == 0.0
  | _ => false

def ofNumbers (operator : Token) (apply : Float → Float → Value) :
    Value → Value → Except RuntimeCause Value
  | .number left, .number right => .ok (apply left right)
  | _, _ => .error (.numberOperands operator.lexeme)

/-- A divisor of zero is reported before operands that are not numbers. -/
def binary (heap : Heap) (operator : Token) (left right : Value) : Except RuntimeCause Value :=
  match operator.kind.tag? with
  | some .equalEqual => .ok (.boolean (left.equals heap right))
  | some .bangEqual => .ok (.boolean !(left.equals heap right))
  | some .plus => add left right
  | some tag =>
    match arithmetic? tag with
    | some apply =>
      if tag = .slash && isZero right then .error .divisionByZero
      else ofNumbers operator apply left right
    | none => .error (.invalidBinary operator.lexeme)
  | none => .error (.invalidBinary operator.lexeme)

/-- Whether a logical operator leaves its right operand unevaluated. -/
def settles (operator : Token) (left : Value) : Bool :=
  if operator.is .orKeyword then left.isTruthy else !left.isTruthy

end Operator

/-- The place in an array that a number names. -/
def arrayPlace (heap : Heap) (array : ArrayId) (index : Float) : Except RuntimeCause Nat :=
  match (Binary64.ofFloat index).place? (heap.elements array).size with
  | some place => .ok place
  | none => .error .indexOutOfRange

end Script
