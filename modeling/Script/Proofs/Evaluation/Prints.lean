import Script.Proofs.Evaluation.Truncation

/-! What a run prints, one entry for each print that it comes to and in that order. It is told from
where the run goes, also if the run fails later or is out of steps before it ends. -/

namespace Script

/-- A value that is printed, and the heap as it is then. -/
structure Printed where
  value : Value
  heap : Heap

namespace Printed

def text (printed : Printed) : String := printed.value.text printed.heap

/-- The bytes of a print, which ends its line. -/
def bytes (printed : Printed) : List UInt8 := Utf8.encode (printed.text ++ "\n")

end Printed

/-- What is printed behind a computation, if it goes on. -/
def Result.thenPrints {α : Type} (result : Result α) (rest : α → Machine → List Printed) :
    List Printed :=
  match result with
  | .done value after => rest value after
  | .failed _ _ | .exhausted => []

section

variable (evaluate : Expr → Eval Value) (execute : Stmt → Eval Flow)
  (exprPrints : Expr → Machine → List Printed) (stmtPrints : Stmt → Machine → List Printed)

def printsAll : List Expr → Machine → List Printed
  | [], _ => []
  | expr :: rest, machine =>
    exprPrints expr machine ++ (evaluate expr machine).thenPrints fun _ after =>
      printsAll rest after

def printsOptional : Option Expr → Machine → List Printed
  | none, _ => []
  | some expr, machine => exprPrints expr machine

def printsTarget (object index : Expr) (machine : Machine) : List Printed :=
  exprPrints object machine ++ (evaluate object machine).thenPrints fun value after =>
    match value with
    | .array _ => exprPrints index after
    | _ => []

def printsInOrder : List Stmt → Machine → List Printed
  | [], _ => []
  | stmt :: rest, machine =>
    stmtPrints stmt machine ++ (execute stmt machine).thenPrints fun flow after =>
      match flow with
      | .normal => printsInOrder rest after
      | .returned _ => []

/-- What a call prints. Functions of the host print nothing. -/
def printsCall (callee : Value) (arguments : List Value) (machine : Machine) : List Printed :=
  match callee with
  | .function _ (.declared declaration closure) =>
    if arguments.length = declaration.parameters.length then
      (bindParameters declaration.parameters arguments
        (machine.enter (some closure))).thenPrints fun _ inside =>
          printsInOrder execute stmtPrints declaration.body inside
    else []
  | _ => []

variable {execute stmtPrints} {id : FunctionId} {declaration : FunctionDecl} {closure : ScopeId}
  {arguments : List Value}

theorem printsCall_declared (fits : arguments.length = declaration.parameters.length) :
    printsCall execute stmtPrints (.function id (.declared declaration closure)) arguments =
      fun machine => (bindParameters declaration.parameters arguments
        (machine.enter (some closure))).thenPrints fun _ =>
          printsInOrder execute stmtPrints declaration.body :=
  funext fun _ => if_pos fits

theorem printsCall_misfit {callable : Callable} (misfit : arguments.length ≠ callable.arity) :
    printsCall execute stmtPrints (.function id callable) arguments = fun _ => [] := by
  cases callable with
  | host => rfl
  | declared => exact funext fun _ => if_neg misfit

end

mutual

/-- What the evaluation of an expression prints, within `steps` nested steps. -/
def Expr.prints : (steps : Nat) → Expr → Machine → List Printed
  | 0, _, _ | _ + 1, .literal _, _ | _ + 1, .reference _, _ => []
  | steps + 1, .grouping inner, machine | steps + 1, .assign _ inner, machine
  | steps + 1, .unary _ inner, machine => Expr.prints steps inner machine
  | steps + 1, .logical left operator right, machine =>
    Expr.prints steps left machine ++ (evaluate steps left machine).thenPrints fun value after =>
      if Operator.settles operator value then [] else Expr.prints steps right after
  | steps + 1, .binary left _ right, machine =>
    Expr.prints steps left machine ++ (evaluate steps left machine).thenPrints fun _ after =>
      Expr.prints steps right after
  | steps + 1, .call callee _ arguments, machine =>
    Expr.prints steps callee machine ++
      (evaluate steps callee machine).thenPrints fun callee after =>
        printsAll (evaluate steps) (Expr.prints steps) arguments after ++
          (evaluateAll (evaluate steps) arguments after).thenPrints fun values given =>
            printsCall (execute steps) (Stmt.prints steps) callee values given
  | steps + 1, .array _ elements, machine =>
    printsAll (evaluate steps) (Expr.prints steps) elements machine
  | steps + 1, .subscript object _ index, machine =>
    printsTarget (evaluate steps) (Expr.prints steps) object index machine
  | steps + 1, .store object bracket index value, machine =>
    printsTarget (evaluate steps) (Expr.prints steps) object index machine ++
      (subscriptTarget (evaluate steps) object bracket index machine).thenPrints fun _ after =>
        Expr.prints steps value after

/-- What the execution of a statement prints, within `steps` nested steps. -/
def Stmt.prints : (steps : Nat) → Stmt → Machine → List Printed
  | 0, _, _ | _ + 1, .function _ _ _, _ => []
  | steps + 1, .expression value, machine => Expr.prints steps value machine
  | steps + 1, .print value, machine =>
    Expr.prints steps value machine ++ (evaluate steps value machine).thenPrints fun shown after =>
      [⟨shown, after.heap⟩]
  | steps + 1, .declare _ initial, machine => printsOptional (Expr.prints steps) initial machine
  | steps + 1, .block statements, machine =>
    printsInOrder (execute steps) (Stmt.prints steps) statements
      (machine.enter (some machine.active))
  | steps + 1, .branch condition consequence alternative, machine =>
    Expr.prints steps condition machine ++
      (evaluate steps condition machine).thenPrints fun value after =>
        if value.isTruthy then Stmt.prints steps consequence after
        else
          match alternative with
          | some alternative => Stmt.prints steps alternative after
          | none => []
  | steps + 1, .loop condition body, machine =>
    Expr.prints steps condition machine ++
      (evaluate steps condition machine).thenPrints fun value after =>
        if value.isTruthy then
          Stmt.prints steps body after ++ (execute steps body after).thenPrints fun flow again =>
            match flow with
            | .normal => Stmt.prints steps (.loop condition body) again
            | .returned _ => []
        else []
  | steps + 1, .returning _ value, machine => printsOptional (Expr.prints steps) value machine

end

/-- What a program prints. -/
def programPrints (steps : Nat) (program : List Stmt) (machine : Machine) : List Printed :=
  printsInOrder (execute steps) (Stmt.prints steps) program machine

/-- Where an output has no limit, a run leaves it with what it printed behind what was there. -/
def Writes {α : Type} (before : Output) (prints : List Printed) (result : Result α) : Prop :=
  before.capacity = none → ∀ after, result.machine? = some after →
    after.output = before.write (prints.flatMap Printed.bytes)

namespace Writes

variable {α β : Type} {before : Output} {prints more : List Printed}

/-- A run that leaves the output as it is prints nothing. -/
theorem nothing {result : Result α}
    (kept : ∀ after, result.machine? = some after → after.output = before) :
    Writes before [] result := by
  intro _ after ended
  rw [List.flatMap_nil, Output.write_nil, kept after ended]

theorem bind {value : α} {after : Machine} {result : Result β}
    (first : Writes before prints (.done value after)) (second : Writes after.output more result) :
    Writes before (prints ++ more) result := by
  intro unlimited last ended
  have wrote := first unlimited after rfl
  rw [wrote] at second
  rw [second unlimited last ended, List.flatMap_append, Output.write_append, if_pos]
  simp only [Output.accepts, unlimited]

/-- Nothing is printed behind a failure. -/
theorem fail {failure : Failure} {after : Machine}
    (first : Writes before prints (.failed failure after : Result α)) :
    Writes before prints (.failed failure after : Result β) :=
  fun unlimited last ended => first unlimited last ended

theorem exhausted : Writes before prints (.exhausted : Result α) :=
  fun _ _ ended => nomatch ended

theorem withActive {result : Result α} (wrote : Writes before prints result) (active : ScopeId) :
    Writes before prints (result.withActive active) := by
  intro unlimited after ended
  rw [Result.machine?_withActive] at ended
  obtain ⟨inner, found, rfl⟩ := Option.map_eq_some_iff.mp ended
  exact wrote unlimited inner found

end Writes

/-- How the print of a value ends. -/
def Machine.print (machine : Machine) (printed : Printed) : Result Flow :=
  let after := { machine with output := machine.output.write printed.bytes }
  if machine.output.accepts printed.bytes then .done .normal after
  else .failed (.output .full) after

theorem print_eq (value : Value) (machine : Machine) :
    (do
      Eval.write ((← Eval.inspect fun machine => value.text machine.heap) ++ "\n")
      return Flow.normal : Eval Flow) machine = machine.print ⟨value, machine.heap⟩ := by
  let printed : Printed := ⟨value, machine.heap⟩
  show Eval.bind (Eval.write (printed.text ++ "\n")) (fun _ => Eval.pure .normal) machine =
    machine.print printed
  unfold Eval.bind Eval.write Machine.print
  rw [← Printed.bytes]
  dsimp only
  cases machine.output.accepts printed.bytes <;> rfl

theorem Writes.print (machine : Machine) (printed : Printed) :
    Writes machine.output [printed] (machine.print printed) := by
  intro _ after ended
  rw [List.flatMap_singleton]
  unfold Machine.print at ended
  split at ended
  · cases ended
    rfl
  · cases ended
    rfl

end Script
