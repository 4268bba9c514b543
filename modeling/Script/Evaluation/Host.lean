import Script.Evaluation.Operator

/-! The functions of the host. A host supplies them under keys; what they do is its own matter, and
evaluation takes the host as it is. Where no other is named, it is the host at hand. -/

namespace Script

/-- What the functions do that a host supplies: with its arguments a call comes to a value, or to
the message of its failure. -/
class Host where
  call : (key : Nat) → (arguments : List Value) → Eval (Except String Value)

/-- Runs a function of the host; a failure is one of the call that ends with `paren`. -/
def Native.run [Host] (native : Native) (paren : Token) (arguments : List Value) : Eval Value :=
  match native with
  | .clock => do return .number (← Eval.readClock)
  | .supplied key => do
    match ← Host.call key arguments with
    | .ok value => return value
    | .error message => Eval.raise paren (.host message)

/-- The functions of the host at hand. They see their arguments only, and apart from one that
lengthens an array they change nothing that exists. -/
inductive HostOperation where
  | typeName | text | same | length | append | double | collect | refuse
  deriving Repr, DecidableEq

namespace HostOperation

/-- The operations in the order of their keys. -/
def all : List HostOperation :=
  [.typeName, .text, .same, .length, .append, .double, .collect, .refuse]

def native (operation : HostOperation) : Native := .supplied (all.idxOf operation)

/-- How many arguments an operation takes unless it is defined otherwise. -/
def arity : HostOperation → Nat
  | .refuse => 0
  | .typeName | .text | .length | .double => 1
  | .same | .append => 2
  | .collect => 3

/-- Twice the number that is the only argument. -/
def twice : List Value → Except String Value
  | [.number value] => .ok (.number (value * 2))
  | _ => .error "double expects a number."

/-- Runs an operation. A missing argument counts as nil. -/
def run (operation : HostOperation) (arguments : List Value) : Eval (Except String Value) :=
  let first := arguments.getD 0 .nil
  let second := arguments.getD 1 .nil
  match operation with
  | .typeName => return .ok (.string first.typeName)
  | .text => do return .ok (.string (← Eval.inspect fun machine => first.text machine.heap))
  | .same => do
    return .ok (.boolean (← Eval.inspect fun machine => first.equals machine.heap second))
  | .length =>
    match first with
    | .array id => do
      let size ← Eval.inspect fun machine => (machine.heap.elements id).size
      return .ok (.number (Float.ofNat size))
    | other => return .error ("len expects an array, got " ++ other.typeName ++ ".")
  | .append =>
    match first with
    | .array id => do
      Eval.appendElement id second
      return .ok first
    | other => return .error ("push expects an array, got " ++ other.typeName ++ ".")
  | .double => return twice arguments
  | .collect => do return .ok (← Eval.newArray arguments)
  | .refuse => return .error "native failure"

end HostOperation

instance : Coe HostOperation Native := ⟨HostOperation.native⟩

/-- The host at hand. No function is defined under a key that none of its operations has. -/
instance Host.atHand : Host where
  call key arguments :=
    match HostOperation.all[key]? with
    | some operation => operation.run arguments
    | none => return .error "native failure"

end Script
