import Script.Proofs.Evaluation.Truncation

/-! Runs on an output that takes whatever is written. If such a run fails, it fails at runtime. -/

namespace Script

variable {α β : Type}

/-- There is always room, and what is written can be flushed. -/
structure Output.Free (output : Output) : Prop where
  unlimited : output.capacity = none
  flushable : output.flushable = true

theorem Output.Free.write {output : Output} (free : output.Free) (bytes : List UInt8) :
    (output.write bytes).Free := ⟨free.unlimited, free.flushable⟩

/-- A run that leaves the output free, and that can only fail at runtime. -/
inductive Result.Unhindered : Result α → Prop
  | done {value : α} {after : Machine} (free : after.output.Free) : Unhindered (.done value after)
  | failed {error : RuntimeError} {after : Machine} (free : after.output.Free) :
    Unhindered (.failed (.runtime error) after)
  | exhausted : Unhindered .exhausted

theorem Result.Unhindered.withActive {result : Result α} (unhindered : result.Unhindered)
    (active : ScopeId) : (result.withActive active).Unhindered := by
  cases unhindered with
  | done free => exact .done free
  | failed free => exact .failed free
  | exhausted => exact .exhausted

/-- The output does not hinder the computation. -/
def Eval.Unhindered (run : Eval α) : Prop :=
  ∀ machine : Machine, machine.output.Free → (run machine).Unhindered

namespace Eval.Unhindered

theorem bind {run : Eval α} {next : α → Eval β} (first : run.Unhindered)
    (others : ∀ value, (next value).Unhindered) : (run >>= next).Unhindered := by
  intro machine free
  show (Eval.bind run next machine).Unhindered
  unfold Eval.bind
  have start := first machine free
  cases ended : run machine with
  | done value after =>
    rw [ended] at start
    cases start with
    | done free => exact others value after free
  | failed failure after =>
    rw [ended] at start
    cases start with
    | failed free => exact .failed free
  | exhausted => exact .exhausted

theorem inScope {run : Eval α} (parent : Option ScopeId) (body : run.Unhindered) :
    (Eval.inScope parent run).Unhindered := by
  intro machine free
  rw [Eval.inScope_eq]
  exact (body (machine.enter parent) free).withActive machine.active

theorem lookUp (name : Token) : (Eval.lookUp name).Unhindered := by
  intro machine free
  unfold Eval.lookUp
  cases machine.scopes.get? machine.active name.lexeme with
  | some value => exact .done free
  | none => exact .failed free

theorem assign (name : Token) (value : Value) : (Eval.assign name value).Unhindered := by
  intro machine free
  unfold Eval.assign
  cases machine.scopes.owner? machine.active name.lexeme with
  | some owner => exact .done free
  | none => exact .failed free

theorem write (text : String) : (Eval.write text).Unhindered := by
  intro machine free
  have accepted : machine.output.accepts (Utf8.encode text) = true := by
    simp only [Output.accepts, free.unlimited]
  simp only [Eval.write, accepted, if_true]
  exact .done (free.write _)

theorem flush : Eval.flush.Unhindered := by
  intro machine free
  simp only [Eval.flush, free.flushable, if_true]
  exact .done free

/-- No elementary step is hindered, so no run is. The recast has no part in it. -/
theorem congruence (change : Recast) : change.Congruence fun _ run _ => run.Unhindered where
  pure _ _ := fun _ free => .done free
  bind first others := first.bind others
  exhausted _ := fun _ _ => .exhausted
  raise _ _ _ := fun _ free => .failed free
  inspect _ _ _ _ := fun _ free => .done free
  activeScope := fun _ free => .done free
  inScope parent body := body.inScope parent
  lookUp := lookUp
  define _ _ := fun _ free => .done free
  assign := assign
  newArray _ := fun _ free => .done free
  newFunction _ := fun _ free => .done free
  writeElement _ _ _ := fun _ free => .done free
  appendElement _ _ := fun _ free => .done free
  readClock := fun _ free => .done free
  write := write
  flush := flush

theorem interpret (steps : Nat) (program : List Stmt) : (interpret steps program).Unhindered :=
  (congruence .trim).interpret steps program

end Eval.Unhindered
end Script
