import Script.Tree
import Script.Scope

/-! Values. Arrays and functions are known by their identity; whoever holds the same array sees
every change made to it. -/

namespace Script

abbrev ArrayId := Nat
abbrev FunctionId := Nat

/-- What runs when a function of the host is called: the clock, or what the host supplies under a
key. -/
inductive Native where
  | clock
  | supplied (key : Nat)
  deriving Repr, DecidableEq

/-- A function of the host, or a declared one with the scope that its declaration ran in. -/
inductive Callable where
  | host (name : String) (arity : Nat) (native : Native)
  | declared (declaration : FunctionDecl) (closure : ScopeId)

namespace Callable

def name : Callable → String
  | .host name _ _ => name
  | .declared declaration _ => declaration.name.lexeme

def arity : Callable → Nat
  | .host _ arity _ => arity
  | .declared declaration _ => declaration.parameters.length

/-- The canonical text of a function, which does not name those of the host. -/
def text : Callable → String
  | .host _ _ _ => "<native fn>"
  | .declared declaration _ => "<fn " ++ declaration.name.lexeme ++ ">"

/-- The text of a function with its name and arity. -/
def signature (callable : Callable) : String :=
  let kind := match callable with
    | .host _ _ _ => "<native fn "
    | .declared _ _ => "<fn "
  kind ++ callable.name ++ "/" ++ toString callable.arity ++ ">"

end Callable

inductive Value where
  | nil
  | boolean (value : Bool)
  | number (value : Float)
  | string (text : String)
  | array (id : ArrayId)
  | function (id : FunctionId) (callable : Callable)

namespace Value

/-- Only nil and false do not hold as conditions. -/
def isTruthy : Value → Bool
  | .nil | .boolean false => false
  | _ => true

def typeName : Value → String
  | .nil => "nil"
  | .boolean _ => "boolean"
  | .number _ => "number"
  | .string _ => "string"
  | .array _ => "array"
  | .function _ _ => "function"

end Value

def Literal.value : Literal → Value
  | .number value => .number value
  | .string text => .string text
  | .boolean value => .boolean value
  | .nil => .nil

end Script
