import Script.Diagnostic
import Script.Output
import Script.Value.Heap

/-! The state of a running program, the ways in which a computation on it ends, and the elementary
steps: names, scopes, arrays and printing. -/

namespace Script

/-- Why a computation fails; a function of the host says so in words of its own. -/
inductive RuntimeCause where
  | undefined (name : String)
  | divisionByZero
  | additionOperands
  | numberOperands (operator : String)
  | numberOperand (operator : String)
  | invalidUnary (operator : String)
  | invalidBinary (operator : String)
  | notSubscriptable
  | notAnIndex
  | indexOutOfRange
  | notCallable
  | arity (expected given : Nat)
  | host (message : String)
  deriving Repr, DecidableEq

def RuntimeCause.message : RuntimeCause → String
  | .undefined name => "Undefined variable '" ++ name ++ "'."
  | .divisionByZero => "Division by zero."
  | .additionOperands => "Operands of '+' must be numbers or strings."
  | .numberOperands operator => "Operands of '" ++ operator ++ "' must be numbers."
  | .numberOperand operator => "Operand of '" ++ operator ++ "' must be a number."
  | .invalidUnary operator => "Invalid unary operator '" ++ operator ++ "'."
  | .invalidBinary operator => "Invalid binary operator '" ++ operator ++ "'."
  | .notSubscriptable => "Only arrays can be subscripted."
  | .notAnIndex => "Only numbers can be used to index an array."
  | .indexOutOfRange => "Array index out of range."
  | .notCallable => "Can only call functions."
  | .arity expected given =>
    "Expected " ++ toString expected ++ " arguments but got " ++ toString given ++ "."
  | .host message => message

structure RuntimeError where
  cause : RuntimeCause
  line : Nat
  deriving Repr, DecidableEq

/-- What ends a computation before its time. -/
inductive Failure where
  | runtime (error : RuntimeError)
  | output (fault : OutputFault)
  deriving Repr, DecidableEq

def RuntimeError.diagnostic (error : RuntimeError) : Diagnostic :=
  .runtime error.line error.cause.message

def Failure.diagnostic : Failure → Diagnostic
  | .runtime error => error.diagnostic
  | .output fault => .output fault.message

/-- Readings of the wall clock, in seconds, and how many were taken. -/
structure Clock where
  reading : Nat → Float
  taken : Nat

/-- All that a program can see or change. -/
structure Machine where
  scopes : ScopeTree Value
  heap : Heap
  /-- How many functions were made; each is known by its number. -/
  functions : Nat
  /-- The scope in which names are looked up. -/
  active : ScopeId
  clock : Clock
  output : Output

/-- How a computation ends: with a value, with a failure, or not within the steps allowed. -/
inductive Result (α : Type) where
  | done (value : α) (machine : Machine)
  | failed (failure : Failure) (machine : Machine)
  | exhausted

/-- A computation on the machine. -/
def Eval (α : Type) : Type := Machine → Result α

namespace Eval

variable {α β : Type}

@[always_inline, inline]
def pure (value : α) : Eval α := fun machine => .done value machine

@[always_inline, inline]
def bind (first : Eval α) (next : α → Eval β) : Eval β := fun machine =>
  match first machine with
  | .done value machine => next value machine
  | .failed failure machine => .failed failure machine
  | .exhausted => .exhausted

instance : Monad Eval where
  pure := Eval.pure
  bind := Eval.bind

theorem bind_of_done {run : Eval α} {next : α → Eval β} {machine after : Machine} {value : α}
    (ran : run machine = .done value after) : (run >>= next) machine = next value after := by
  change Eval.bind run next machine = _
  rw [Eval.bind, ran]

theorem bind_of_failed {run : Eval α} {next : α → Eval β} {machine after : Machine}
    {failure : Failure} (ran : run machine = .failed failure after) :
    (run >>= next) machine = .failed failure after := by
  change Eval.bind run next machine = _
  rw [Eval.bind, ran]

def fail (failure : Failure) : Eval α := fun machine => .failed failure machine

/-- Ends with a runtime error on the line of `token`. -/
def raise (token : Token) (cause : RuntimeCause) : Eval α :=
  fail (.runtime ⟨cause, token.line⟩)

def exhausted : Eval α := fun _ => .exhausted

/-- The value of a pure step that may fail on the line of `token`. -/
def require (token : Token) : Except RuntimeCause α → Eval α
  | .ok value => pure value
  | .error cause => raise token cause

/-- What can be read off the machine as it is. -/
def inspect (view : Machine → α) : Eval α := fun machine =>
  let seen := view machine
  .done seen machine

def lookUp (name : Token) : Eval Value := fun machine =>
  match machine.scopes.get? machine.active name.lexeme with
  | some value => .done value machine
  | none => raise name (.undefined name.lexeme) machine

theorem lookUp_of_found {name : Token} {machine : Machine} {value : Value}
    (found : machine.scopes.get? machine.active name.lexeme = some value) :
    lookUp name machine = .done value machine := by
  rw [lookUp, found]

theorem lookUp_of_unbound {name : Token} {machine : Machine}
    (unbound : machine.scopes.get? machine.active name.lexeme = none) :
    lookUp name machine = .failed (.runtime ⟨.undefined name.lexeme, name.line⟩) machine := by
  rw [lookUp, unbound]
  rfl

/-- Binds a name in the active scope. -/
def define (name : String) (value : Value) : Eval Unit := fun machine =>
  .done () { machine with scopes := machine.scopes.define machine.active name value }

/-- Overwrites the nearest binding of a name. -/
def assign (name : Token) (value : Value) : Eval Unit := fun machine =>
  match machine.scopes.owner? machine.active name.lexeme with
  | some owner => .done () { machine with scopes := machine.scopes.define owner name.lexeme value }
  | none => raise name (.undefined name.lexeme) machine

theorem assign_of_found {name : Token} {value : Value} {machine : Machine} {owner : ScopeId}
    (found : machine.scopes.owner? machine.active name.lexeme = some owner) :
    assign name value machine = .done ()
      { machine with scopes := machine.scopes.define owner name.lexeme value } := by
  rw [assign, found]

/-- Runs a computation in a new scope enclosed by `parent`, and returns to the active one however
it ends. -/
def inScope (parent : Option ScopeId) (body : Eval α) : Eval α := fun machine =>
  let active := machine.active
  let fresh := machine.scopes.size
  match body { machine with scopes := machine.scopes.add parent, active := fresh } with
  | .done value machine => .done value { machine with active := active }
  | .failed failure machine => .failed failure { machine with active := active }
  | .exhausted => .exhausted

def activeScope : Eval ScopeId := inspect Machine.active

def newArray (elements : List Value) : Eval Value := fun machine =>
  let fresh := machine.heap.size
  .done (.array fresh) { machine with heap := machine.heap.add elements.toArray }

def newFunction (callable : Callable) : Eval Value := fun machine =>
  let fresh := machine.functions
  .done (.function fresh callable) { machine with functions := fresh + 1 }

def writeElement (array : ArrayId) (place : Nat) (value : Value) : Eval Unit := fun machine =>
  .done () { machine with heap := machine.heap.write array place value }

def appendElement (array : ArrayId) (value : Value) : Eval Unit := fun machine =>
  .done () { machine with heap := machine.heap.append array value }

def readClock : Eval Float := fun machine =>
  let now := machine.clock.reading machine.clock.taken
  .done now { machine with clock := { machine.clock with taken := machine.clock.taken + 1 } }

/-- Writes text to the output, which keeps what fits. -/
def write (text : String) : Eval Unit := fun machine =>
  let bytes := Utf8.encode text
  let fits := machine.output.accepts bytes
  let machine := { machine with output := machine.output.write bytes }
  if fits then .done () machine else .failed (.output .full) machine

def flush : Eval Unit := fun machine =>
  if machine.output.flushable then .done () machine else .failed (.output .flush) machine

end Eval
end Script
