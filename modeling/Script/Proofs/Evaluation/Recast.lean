import Script.Session
import Script.Proofs.Evaluation.Congruence
import Script.Proofs.Value.Relabel

/-! Runs of recast code. On a machine whose functions are recast too, recast code does step by step
what the code did, and fails on the recast line where that failed. -/

namespace Script
namespace Recast

variable (change : Recast) {α β : Type}

def failure : Failure → Failure
  | .runtime error => .runtime { error with line := change.line error.line }
  | .output fault => .output fault

/-- The functions that a machine holds are recast; nothing else in it changes. -/
def machine (machine : Machine) : Machine :=
  { machine with
    scopes := machine.scopes.map change.value
    heap := machine.heap.map change.value }

def result (image : α → α) : Result α → Result α
  | .done value after => .done (image value) (change.machine after)
  | .failed failure after => .failed (change.failure failure) (change.machine after)
  | .exhausted => .exhausted

@[simp] theorem machine_active (machine : Machine) :
    (change.machine machine).active = machine.active := rfl

@[simp] theorem machine_output (machine : Machine) :
    (change.machine machine).output = machine.output := rfl

@[simp] theorem machine_scopes (machine : Machine) :
    (change.machine machine).scopes = machine.scopes.map change.value := rfl

@[simp] theorem machine_heap (machine : Machine) :
    (change.machine machine).heap = machine.heap.map change.value := rfl

/-- On a recast machine `run'` ends as `run` does on the machine, but for the recast. -/
def Follows (image : α → α) (run run' : Eval α) : Prop :=
  ∀ machine, run' (change.machine machine) = change.result image (run machine)

namespace Follows

variable {change} {image : α → α} {further : β → β}

theorem bind {run run' : Eval α} {next next' : α → Eval β} (first : change.Follows image run run')
    (others : ∀ value, change.Follows further (next value) (next' (image value))) :
    change.Follows further (run >>= next) (run' >>= next') := by
  intro machine
  show Eval.bind run' next' _ = change.result further (Eval.bind run next machine)
  unfold Eval.bind
  rw [first machine]
  cases run machine with
  | done value after => exact others value after
  | failed failure after => rfl
  | exhausted => rfl

theorem inScope {run run' : Eval α} (parent : Option ScopeId)
    (body : change.Follows image run run') :
    change.Follows image (Eval.inScope parent run) (Eval.inScope parent run') := by
  intro machine
  have entered := body
    { machine with scopes := machine.scopes.add parent, active := machine.scopes.size }
  simp only [Recast.machine, ← ScopeTree.add_map] at entered
  simp only [Eval.inScope, Recast.machine, ScopeTree.size_map, entered]
  cases run _ <;> rfl

theorem lookUp (name : Token) :
    change.Follows change.value (Eval.lookUp name) (Eval.lookUp (change.token name)) := by
  intro machine
  simp only [Eval.lookUp, machine_scopes, machine_active, token_lexeme, ScopeTree.get?_map]
  cases machine.scopes.get? machine.active name.lexeme <;> rfl

theorem assign (name : Token) (value : Value) :
    change.Follows id (Eval.assign name value)
      (Eval.assign (change.token name) (change.value value)) := by
  intro machine
  simp only [Eval.assign, machine_scopes, machine_active, token_lexeme, ScopeTree.owner?_map,
    ScopeTree.define_map]
  cases machine.scopes.owner? machine.active name.lexeme <;> rfl

theorem write (text : String) : change.Follows id (Eval.write text) (Eval.write text) := by
  intro machine
  cases fits : machine.output.accepts (Utf8.encode text) <;> simp [Eval.write, fits] <;> rfl

theorem flush : change.Follows id Eval.flush Eval.flush := by
  intro machine
  cases flushes : machine.output.flushable <;> simp [Eval.flush, flushes] <;> rfl

end Follows

theorem congruence_follows : change.Congruence change.Follows where
  pure image value machine := rfl
  bind first others := first.bind others
  exhausted image machine := rfl
  raise image token cause machine := rfl
  inspect image view view' same machine :=
    congrArg (Result.done · (change.machine machine)) (same machine.heap)
  activeScope machine := rfl
  inScope parent body := body.inScope parent
  lookUp := Follows.lookUp
  define name value machine := by
    simp only [Eval.define, machine_scopes, machine_active, ScopeTree.define_map]
    rfl
  assign := Follows.assign
  newArray items machine := by
    simp only [Eval.newArray, machine_heap, Heap.add_map, Heap.size_map]
    rfl
  newFunction callable machine := rfl
  writeElement array place value machine := by
    simp only [Eval.writeElement, machine_heap, Heap.write_map]
    rfl
  appendElement array value machine := by
    simp only [Eval.appendElement, machine_heap, Heap.append_map]
    rfl
  readClock machine := rfl
  write := Follows.write
  flush := Follows.flush

/-- A whole run of recast code, on a machine that is recast with it. -/
theorem evaluate_machine (steps : Nat) (expr : Expr) (machine : Machine) :
    evaluate steps (change.expr expr) (change.machine machine) =
      change.result change.value (evaluate steps expr machine) :=
  (change.congruence_follows.runs steps).1 expr machine

theorem interpret_machine (steps : Nat) (program : List Stmt) (machine : Machine) :
    interpret steps (change.stmts program) (change.machine machine) =
      change.result id (interpret steps program machine) :=
  change.congruence_follows.interpret steps program machine

/-- Functions of the host are not recast, so on a fresh machine there is nothing to recast. -/
theorem machine_fresh (reading : Nat → Float) (output : Output) :
    change.machine (Machine.fresh reading output) = Machine.fresh reading output := by
  simp only [machine, Machine.fresh, Machine.defineHost, Machine.bare, ← ScopeTree.define_map,
    ← ScopeTree.add_map, ScopeTree.map_empty, Heap.map_empty, value, callable]

/-! Two changes of lines in a row, and lines kept. -/

variable (line later : Nat → Nat)

theorem failure_comp (failure : Failure) :
    (relabel later).failure ((relabel line).failure failure) =
      (relabel (later ∘ line)).failure failure := by
  cases failure <;> rfl

theorem machine_comp (machine : Machine) :
    (relabel later).machine ((relabel line).machine machine) =
      (relabel (later ∘ line)).machine machine := by
  have values : (relabel later).value ∘ (relabel line).value = (relabel (later ∘ line)).value :=
    funext (value_comp line later)
  simp only [Recast.machine, ScopeTree.map_map, Heap.map_map, values]

theorem result_comp (result : Result Unit) :
    (relabel later).result id ((relabel line).result id result) =
      (relabel (later ∘ line)).result id result := by
  cases result with
  | done value after => simp only [result, machine_comp, id]
  | failed failure after => simp only [result, failure_comp, machine_comp]
  | exhausted => rfl

theorem machine_id (machine : Machine) : (relabel id).machine machine = machine := by
  have values : (relabel id).value = id := funext value_id
  simp only [Recast.machine, values, ScopeTree.map_id, Heap.map_id]

/-- A machine in which only old lines stand, whatever is done about new ones. -/
theorem machine_old (renew : Nat → Nat) (machine : Machine) :
    (relabel (mergeLines renew)).machine ((relabel oldLine).machine machine) = machine := by
  rw [machine_comp, mergeLines_old, machine_id]

end Recast
end Script
