import Script.Evaluation
import Script.Source

/-! A session: units that run one after another on one machine and share its globals. -/

namespace Script

/-- The scope that all programs share. -/
def globalScope : ScopeId := 0

/-- More nested steps than any run can take in the memory and the time there is. -/
def stepLimit : Nat := Nat.pow 2 60

/-- How a piece of a session ends. -/
inductive Ending (α : Type) where
  | value (value : α)
  | failed (failure : Failure)
  | refused (refusal : Refusal)
  | exhausted

/-- Data handed in from outside; each list becomes an array of its own. -/
inductive Datum where
  | nil
  | boolean (value : Bool)
  | number (value : Float)
  | string (text : String)
  | list (items : List Datum)

mutual

/-- The value of a datum and the heap that holds its arrays. -/
def Datum.place (heap : Heap) : Datum → Value × Heap
  | .nil => (.nil, heap)
  | .boolean value => (.boolean value, heap)
  | .number value => (.number value, heap)
  | .string text => (.string text, heap)
  | .list items =>
    let (values, heap) := Datum.placeAll heap items
    (.array heap.size, heap.add values.toArray)

def Datum.placeAll (heap : Heap) : List Datum → List Value × Heap
  | [] => ([], heap)
  | item :: rest =>
    let (value, heap) := item.place heap
    let (values, heap) := Datum.placeAll heap rest
    (value :: values, heap)

end

namespace Machine

/-- Makes a function of the host and binds it in the global scope. -/
def defineHost (machine : Machine) (name : String) (arity : Nat) (native : Native) : Machine :=
  let function := Value.function machine.functions (.host name arity native)
  { machine with
    functions := machine.functions + 1
    scopes := machine.scopes.define globalScope name function }

/-- A machine with a global scope and nothing in it. -/
def bare (reading : Nat → Float) (output : Output) : Machine :=
  { scopes := ScopeTree.empty.add none
    heap := .empty
    functions := 0
    active := globalScope
    clock := ⟨reading, 0⟩
    output := output }

/-- A machine on which nothing has run: the clock is all that its programs find. -/
def fresh (reading : Nat → Float) (output : Output) : Machine :=
  (bare reading output).defineHost "clock" 0 .clock

/-- Looks a name up from a scope; a failure is one on `line`. -/
def read (machine : Machine) (scope : ScopeId) (name : String) (line : Nat) :
    Except RuntimeError Value :=
  match machine.scopes.get? scope name with
  | some value => .ok value
  | none => .error ⟨.undefined name, line⟩

/-- Places a datum in the heap. -/
def place (machine : Machine) (datum : Datum) : Value × Machine :=
  let (value, heap) := datum.place machine.heap
  (value, { machine with heap := heap })

/-- Binds a name to a value in a scope. -/
def bind (machine : Machine) (scope : ScopeId) (name : String) (value : Value) : Machine :=
  { machine with scopes := machine.scopes.define scope name value }

/-- Binds a name to a datum in a scope. -/
def define (machine : Machine) (scope : ScopeId) (name : String) (datum : Datum) : Machine :=
  let (value, machine) := machine.place datum
  machine.bind scope name value

/-- Overwrites the nearest binding of a name, seen from a scope, with a datum. -/
def assign (machine : Machine) (scope : ScopeId) (name : String) (datum : Datum) (line : Nat) :
    Option RuntimeError × Machine :=
  match machine.scopes.owner? scope name with
  | some owner => (none, machine.define owner name datum)
  | none => (some ⟨.undefined name, line⟩, machine)

/-- A new scope, enclosed by another or by none. -/
def addScope (machine : Machine) (parent : Option ScopeId) : ScopeId × Machine :=
  (machine.scopes.size, { machine with scopes := machine.scopes.add parent })

/-- Runs a computation, which leaves the machine as it was if it is exhausted. -/
def perform {α : Type} (machine : Machine) (computation : Eval α) : Ending α × Machine :=
  match computation machine with
  | .done value machine => (.value value, machine)
  | .failed failure machine => (.failed failure, machine)
  | .exhausted => (.exhausted, machine)

variable [Host]

/-- Runs a unit as a program. -/
def run (machine : Machine) (source : Source) : Ending Unit × Machine :=
  match source.program? with
  | .ok program => machine.perform (interpret stepLimit program)
  | .error refusal => (.refused refusal, machine)

/-- The value of a unit that is one expression. -/
def evaluate (machine : Machine) (source : Source) : Ending Value × Machine :=
  match source.expression? with
  | .ok expr => machine.perform (Script.evaluate stepLimit expr)
  | .error refusal => (.refused refusal, machine)

/-- Executes statements one by one up to the first that fails; a return ends only its own
statement. -/
def executeEach (machine : Machine) : List Stmt → List (Ending Flow) × Machine
  | [] => ([], machine)
  | stmt :: rest =>
    match machine.perform (execute stepLimit stmt) with
    | (.value flow, machine) =>
      let (endings, machine) := machine.executeEach rest
      (.value flow :: endings, machine)
    | (ending, machine) => ([ending], machine)

/-- Executes statements as a block in an existing scope. -/
def executeIn (machine : Machine) (scope : ScopeId) (statements : List Stmt) :
    Ending Flow × Machine :=
  let active := machine.active
  let (ending, machine) :=
    { machine with active := scope }.perform (executeAll (execute stepLimit) statements)
  (ending, { machine with active := active })

end Machine
end Script
