import Script.Proofs.Evaluation.Recast
import Script.Proofs.Evaluation.Simulation

/-! Returns. A return ends the lists it stands in up to the body of its function or the unit, so
what stands behind it in its list is dead. -/

namespace Script

mutual

/-- The second statement is the first without what stands behind a return in one of its lists. -/
inductive Stmt.Pruned : Stmt → Stmt → Prop
  | block {statements pruned : List Stmt} (inner : PrunedAll statements pruned) :
    Pruned (.block statements) (.block pruned)
  | consequence {condition : Expr} {consequence pruned : Stmt} {alternative : Option Stmt}
    (inner : Pruned consequence pruned) :
    Pruned (.branch condition consequence alternative) (.branch condition pruned alternative)
  | alternative {condition : Expr} {consequence alternative pruned : Stmt}
    (inner : Pruned alternative pruned) :
    Pruned (.branch condition consequence (some alternative))
      (.branch condition consequence (some pruned))
  | loop {condition : Expr} {body pruned : Stmt} (inner : Pruned body pruned) :
    Pruned (.loop condition body) (.loop condition pruned)
  | function {name : Token} {parameters : List Token} {body pruned : List Stmt}
    (inner : PrunedAll body pruned) :
    Pruned (.function name parameters body) (.function name parameters pruned)

/-- The second list is the first without what stands behind a return, in itself or in one of its
statements. -/
inductive Stmt.PrunedAll : List Stmt → List Stmt → Prop
  | behind (before : List Stmt) (keyword : Token) (value : Option Expr) (dead : List Stmt) :
    PrunedAll (before ++ .returning keyword value :: dead) (before ++ [.returning keyword value])
  | inside (before after : List Stmt) {statement pruned : Stmt} (inner : Pruned statement pruned) :
    PrunedAll (before ++ statement :: after) (before ++ pruned :: after)

end

namespace Recast

theorem trim_behind (before : List Stmt) (keyword : Token) (value : Option Expr)
    (dead : List Stmt) :
    trim.stmts (before ++ .returning keyword value :: dead) =
      trim.stmts (before ++ [.returning keyword value]) := by
  induction before with
  | nil => rfl
  | cons first rest ih => rw [List.cons_append, List.cons_append, stmts, stmts, ih]

theorem trim_inside (before after : List Stmt) {statement pruned : Stmt}
    (same : trim.stmt statement = trim.stmt pruned) :
    trim.stmts (before ++ statement :: after) = trim.stmts (before ++ pruned :: after) := by
  have returns : statement.returns = pruned.returns := by
    rw [← trim.returns_stmt statement, same, trim.returns_stmt]
  induction before with
  | nil => rw [List.nil_append, List.nil_append, stmts, stmts, same, returns]
  | cons first rest ih => rw [List.cons_append, List.cons_append, stmts, stmts, ih]

end Recast

open Recast

mutual

theorem Stmt.Pruned.trim_eq {statement pruned : Stmt} :
    Stmt.Pruned statement pruned → trim.stmt statement = trim.stmt pruned
  | .block inner => congrArg Stmt.block inner.trim_eq
  | .consequence inner => by rw [stmt, stmt, inner.trim_eq]
  | .alternative inner => by rw [stmt, stmt, Recast.optional, Recast.optional, inner.trim_eq]
  | .loop inner => by rw [stmt, stmt, inner.trim_eq]
  | .function inner => by rw [stmt, stmt, inner.trim_eq]

/-- What is pruned is gone from a trimmed list as well. -/
theorem Stmt.PrunedAll.trim_eq {statements pruned : List Stmt} :
    Stmt.PrunedAll statements pruned → trim.stmts statements = trim.stmts pruned
  | .behind before keyword value dead => trim_behind before keyword value dead
  | .inside before after inner => trim_inside before after inner.trim_eq

end

/-- Nothing that is seen of a run changes when the code is trimmed. -/
theorem report_trim {α : Type} (result : Result α) :
    (trim.result id result).report = result.report := by
  cases result with
  | done value after => rfl
  | failed failure after => cases failure <;> rfl
  | exhausted => rfl

/-- The functions that the two runs make differ, but both do as the trimmed run does. -/
theorem Stmt.PrunedAll.report_interpret {program pruned : List Stmt}
    (pruning : Stmt.PrunedAll program pruned) (steps : Nat) (machine : Machine) :
    (interpret steps program machine).report = (interpret steps pruned machine).report := by
  rw [← report_trim, ← trim.interpret_machine, pruning.trim_eq, trim.interpret_machine,
    report_trim]

theorem executeAll_behind (steps : Nat) (before : List Stmt) (keyword : Token)
    (value : Option Expr) (dead : List Stmt) :
    executeAll (execute steps) (before ++ .returning keyword value :: dead) =
      executeAll (execute steps) (before ++ [.returning keyword value]) := by
  induction before with
  | nil => exact executeAll_returning steps keyword value dead
  | cons first rest ih => rw [List.cons_append, List.cons_append, executeAll, executeAll, ih]

mutual

/-- Executed within `steps`, the statement comes to a return of its own activation, the first one,
with a value. The calls that it makes on the way are no part of this. -/
inductive Stmt.Leaves : Nat → Stmt → Machine → Value → Machine → Prop
  | returning {steps : Nat} {keyword : Token} {expr : Option Expr} {machine after : Machine}
    {value : Value}
    (computed : evaluateOptional (evaluate steps) expr machine = .done value after) :
    Leaves (steps + 1) (.returning keyword expr) machine value after
  | block {steps : Nat} {statements : List Stmt} {machine inner : Machine} {value : Value}
    (left : LeavesAll steps statements (machine.enter (some machine.active)) value inner) :
    Leaves (steps + 1) (.block statements) machine value { inner with active := machine.active }
  | consequence {steps : Nat} {condition : Expr} {consequence : Stmt} {alternative : Option Stmt}
    {machine middle after : Machine} {test value : Value}
    (tested : evaluate steps condition machine = .done test middle) (holds : test.isTruthy = true)
    (left : Leaves steps consequence middle value after) :
    Leaves (steps + 1) (.branch condition consequence alternative) machine value after
  | alternative {steps : Nat} {condition : Expr} {consequence alternative : Stmt}
    {machine middle after : Machine} {test value : Value}
    (tested : evaluate steps condition machine = .done test middle) (fails : test.isTruthy = false)
    (left : Leaves steps alternative middle value after) :
    Leaves (steps + 1) (.branch condition consequence (some alternative)) machine value after
  | turn {steps : Nat} {condition : Expr} {body : Stmt} {machine middle after : Machine}
    {test value : Value} (tested : evaluate steps condition machine = .done test middle)
    (holds : test.isTruthy = true) (left : Leaves steps body middle value after) :
    Leaves (steps + 1) (.loop condition body) machine value after
  | later {steps : Nat} {condition : Expr} {body : Stmt} {machine middle next after : Machine}
    {test value : Value} (tested : evaluate steps condition machine = .done test middle)
    (holds : test.isTruthy = true) (turned : execute steps body middle = .done .normal next)
    (left : Leaves steps (.loop condition body) next value after) :
    Leaves (steps + 1) (.loop condition body) machine value after

/-- The first of the statements that comes to a return; those behind it have no part. -/
inductive Stmt.LeavesAll : Nat → List Stmt → Machine → Value → Machine → Prop
  | here {steps : Nat} {statement : Stmt} {rest : List Stmt} {machine after : Machine}
    {value : Value} (left : Leaves steps statement machine value after) :
    LeavesAll steps (statement :: rest) machine value after
  | later {steps : Nat} {statement : Stmt} {rest : List Stmt} {machine middle after : Machine}
    {value : Value} (passed : execute steps statement machine = .done .normal middle)
    (left : LeavesAll steps rest middle value after) :
    LeavesAll steps (statement :: rest) machine value after

end

theorem execute_block (steps : Nat) (statements : List Stmt) (machine : Machine) :
    execute (steps + 1) (.block statements) machine =
      (executeAll (execute steps) statements (machine.enter (some machine.active))).withActive
        machine.active :=
  Eval.inScope_eq (some machine.active) _ machine

theorem Result.withActive_eq_done {α : Type} {result : Result α} {active : ScopeId} {value : α}
    {after : Machine} : result.withActive active = .done value after ↔
      ∃ inner, result = .done value inner ∧ after = { inner with active := active } := by
  cases result with
  | done other inner =>
    simp only [withActive, Result.done.injEq]
    constructor
    · rintro ⟨rfl, rfl⟩
      exact ⟨inner, ⟨rfl, rfl⟩, rfl⟩
    · rintro ⟨_, ⟨rfl, rfl⟩, rfl⟩
      exact ⟨rfl, rfl⟩
  | failed failure inner => simp [withActive]
  | exhausted => simp [withActive]

theorem Eval.bind_eq_done {α β : Type} {run : Eval α} {next : α → Eval β} {machine after : Machine}
    {value : β} : (run >>= next) machine = .done value after ↔
      ∃ first middle, run machine = .done first middle ∧ next first middle = .done value after := by
  show Eval.bind run next machine = _ ↔ _
  unfold Eval.bind
  cases run machine <;> simp

mutual

theorem Stmt.Leaves.executed {steps : Nat} {statement : Stmt} {machine after : Machine}
    {value : Value} : Stmt.Leaves steps statement machine value after →
      execute steps statement machine = .done (.returned value) after
  | .returning computed => Eval.bind_eq_done.mpr ⟨_, _, computed, rfl⟩
  | .block left => by
    rw [execute_block, left.executed]
    rfl
  | .consequence tested holds left => by
    apply Eval.bind_eq_done.mpr
    refine ⟨_, _, tested, ?_⟩
    rw [if_pos holds]
    exact left.executed
  | .alternative tested fails left => by
    apply Eval.bind_eq_done.mpr
    refine ⟨_, _, tested, ?_⟩
    rw [fails]
    exact left.executed
  | .turn tested holds left => by
    apply Eval.bind_eq_done.mpr
    refine ⟨_, _, tested, ?_⟩
    rw [if_pos holds]
    exact Eval.bind_eq_done.mpr ⟨_, _, left.executed, rfl⟩
  | .later tested holds turned left => by
    apply Eval.bind_eq_done.mpr
    refine ⟨_, _, tested, ?_⟩
    rw [if_pos holds]
    exact Eval.bind_eq_done.mpr ⟨_, _, turned, left.executed⟩

theorem Stmt.LeavesAll.executed {steps : Nat} {statements : List Stmt} {machine after : Machine}
    {value : Value} : Stmt.LeavesAll steps statements machine value after →
      executeAll (execute steps) statements machine = .done (.returned value) after
  | .here left => Eval.bind_eq_done.mpr ⟨_, _, left.executed, rfl⟩
  | .later passed left => Eval.bind_eq_done.mpr ⟨_, _, passed, left.executed⟩

end

/-- Statements in a row return only where one of them does. -/
theorem Stmt.LeavesAll.of_executed {steps : Nat}
    (leaves : ∀ {statement machine value after},
      execute steps statement machine = .done (.returned value) after →
        Stmt.Leaves steps statement machine value after)
    {statements : List Stmt} {machine after : Machine} {value : Value}
    (returned : executeAll (execute steps) statements machine = .done (.returned value) after) :
    Stmt.LeavesAll steps statements machine value after := by
  induction statements generalizing machine with
  | nil => cases returned
  | cons statement rest ih =>
    obtain ⟨flow, middle, passed, others⟩ := Eval.bind_eq_done.mp returned
    cases flow with
    | normal => exact .later passed (ih others)
    | returned other =>
      cases others
      exact .here (leaves passed)

theorem Stmt.Leaves.of_executed {steps : Nat} {statement : Stmt} {machine after : Machine}
    {value : Value} (returned : execute steps statement machine = .done (.returned value) after) :
    Stmt.Leaves steps statement machine value after := by
  -- The induction is on the steps, since a loop goes on as the same statement with fewer of them.
  induction steps generalizing statement machine value after with
  | zero => cases returned
  | succ steps ih =>
    cases statement with
    | expression expr =>
      obtain ⟨_, _, _, passed⟩ := Eval.bind_eq_done.mp returned
      cases passed
    | print expr =>
      obtain ⟨_, _, _, shown⟩ := Eval.bind_eq_done.mp returned
      obtain ⟨_, _, _, written⟩ := Eval.bind_eq_done.mp shown
      obtain ⟨_, _, _, passed⟩ := Eval.bind_eq_done.mp written
      cases passed
    | declare name initial =>
      obtain ⟨_, _, _, bound⟩ := Eval.bind_eq_done.mp returned
      obtain ⟨_, _, _, passed⟩ := Eval.bind_eq_done.mp bound
      cases passed
    | function name parameters body => cases returned
    | returning keyword expr =>
      obtain ⟨_, _, computed, passed⟩ := Eval.bind_eq_done.mp returned
      cases passed
      exact .returning computed
    | block statements =>
      rw [execute_block] at returned
      obtain ⟨inner, left, rfl⟩ := Result.withActive_eq_done.mp returned
      exact .block (.of_executed ih left)
    | branch condition consequence alternative =>
      obtain ⟨test, middle, tested, passed⟩ := Eval.bind_eq_done.mp returned
      cases holds : test.isTruthy with
      | true =>
        rw [if_pos holds] at passed
        exact .consequence tested holds (ih passed)
      | false =>
        rw [holds] at passed
        cases alternative with
        | none => cases passed
        | some alternative => exact .alternative tested holds (ih passed)
    | loop condition body =>
      obtain ⟨test, middle, tested, passed⟩ := Eval.bind_eq_done.mp returned
      cases holds : test.isTruthy with
      | true =>
        rw [if_pos holds] at passed
        obtain ⟨flow, next, turned, others⟩ := Eval.bind_eq_done.mp passed
        cases flow with
        | normal => exact .later tested holds turned (ih others)
        | returned other =>
          cases others
          exact .turn tested holds (ih turned)
      | false =>
        rw [holds] at passed
        cases passed

mutual

/-- Whether a return stands in a statement, outside of the functions declared in it. -/
def Stmt.canReturn : Stmt → Bool
  | .returning _ _ => true
  | .block statements => canReturnAny statements
  | .branch _ consequence alternative => canReturn consequence || canReturnElse alternative
  | .loop _ body => canReturn body
  | .expression _ | .print _ | .declare _ _ | .function _ _ _ => false

def Stmt.canReturnElse : Option Stmt → Bool
  | none => false
  | some statement => canReturn statement

def Stmt.canReturnAny : List Stmt → Bool
  | [] => false
  | statement :: rest => canReturn statement || canReturnAny rest

end

mutual

theorem Stmt.Leaves.canReturn {steps : Nat} {statement : Stmt} {machine after : Machine}
    {value : Value} : Stmt.Leaves steps statement machine value after → statement.canReturn = true
  | .returning _ => rfl
  | .block left => left.canReturnAny
  | .consequence _ _ left => by rw [Stmt.canReturn, left.canReturn, Bool.true_or]
  | .alternative _ _ left => by
    rw [Stmt.canReturn, Stmt.canReturnElse, left.canReturn, Bool.or_true]
  | .turn _ _ left => left.canReturn
  | .later _ _ _ left => left.canReturn

theorem Stmt.LeavesAll.canReturnAny {steps : Nat} {statements : List Stmt}
    {machine after : Machine} {value : Value} :
    Stmt.LeavesAll steps statements machine value after → Stmt.canReturnAny statements = true
  | .here left => by rw [Stmt.canReturnAny, left.canReturn, Bool.true_or]
  | .later _ left => by rw [Stmt.canReturnAny, left.canReturnAny, Bool.or_true]

end

/-- A call of a declared function is worth what the first return of its own body is, or nil if the
body ends without one. -/
theorem invoke_declared_iff {steps : Nat} {id : Nat} {declaration : FunctionDecl}
    {closure : ScopeId} {paren : Token} {arguments : List Value} {machine after : Machine}
    {value : Value} (given : arguments.length = declaration.parameters.length) :
    invoke (execute steps) (.function id (.declared declaration closure)) paren arguments
        machine = .done value after ↔
      ∃ start inner, bindParameters declaration.parameters arguments
          (machine.enter (some closure)) = .done () start ∧
        after = { inner with active := machine.active } ∧
        (Stmt.LeavesAll steps declaration.body start value inner ∨
          executeAll (execute steps) declaration.body start = .done .normal inner ∧
            value = .nil) := by
  have entered (flow : Flow) (last : Machine) :
      Eval.inScope (some closure) (do
          bindParameters declaration.parameters arguments
          executeAll (execute steps) declaration.body) machine = .done flow last ↔
        ∃ start inner, bindParameters declaration.parameters arguments
            (machine.enter (some closure)) = .done () start ∧
          last = { inner with active := machine.active } ∧
          executeAll (execute steps) declaration.body start = .done flow inner := by
    rw [Eval.inScope_eq, Result.withActive_eq_done]
    constructor
    · rintro ⟨inner, body, rfl⟩
      obtain ⟨_, start, bound, executed⟩ := Eval.bind_eq_done.mp body
      exact ⟨start, inner, bound, rfl, executed⟩
    · rintro ⟨start, inner, bound, rfl, executed⟩
      exact ⟨inner, Eval.bind_eq_done.mpr ⟨(), start, bound, executed⟩, rfl⟩
  have arity : arguments.length = (Callable.declared declaration closure).arity := given
  rw [invoke, if_pos arity, Eval.bind_eq_done]
  constructor
  · rintro ⟨flow, last, ran, ended⟩
    obtain ⟨start, inner, bound, rfl, executed⟩ := (entered flow last).mp ran
    cases flow with
    | normal =>
      cases ended
      exact ⟨start, inner, bound, rfl, .inr ⟨executed, rfl⟩⟩
    | returned other =>
      cases ended
      exact ⟨start, inner, bound, rfl, .inl (.of_executed Stmt.Leaves.of_executed executed)⟩
  · rintro ⟨start, inner, bound, rfl, left | ⟨executed, rfl⟩⟩
    · exact ⟨.returned value, _, (entered _ _).mpr ⟨start, inner, bound, rfl, left.executed⟩, rfl⟩
    · exact ⟨.normal, _, (entered _ _).mpr ⟨start, inner, bound, rfl, executed⟩, rfl⟩

/-- A return ends its own activation and no other, and what stands behind it in its list is dead.
Without the dead code the run is seen to be the same; a list comes to nothing behind its return; a
statement returns exactly if its own activation comes to a return; a call is worth the first such
return of the body; and a statement in which no return stands returns from nowhere, whatever the
functions that it calls do. -/
theorem code_behind_return_dead :
    (∀ program pruned, Stmt.PrunedAll program pruned → ∀ steps machine,
      (interpret steps program machine).report = (interpret steps pruned machine).report) ∧
    (∀ steps before keyword value dead,
      executeAll (execute steps) (before ++ .returning keyword value :: dead) =
        executeAll (execute steps) (before ++ [.returning keyword value])) ∧
    (∀ steps statement machine value after,
      execute steps statement machine = .done (.returned value) after ↔
        Stmt.Leaves steps statement machine value after) ∧
    (∀ steps id declaration closure paren arguments machine value after,
      arguments.length = declaration.parameters.length →
      (invoke (execute steps) (.function id (.declared declaration closure)) paren arguments
          machine = .done value after ↔
        ∃ start inner, bindParameters declaration.parameters arguments
            (machine.enter (some closure)) = .done () start ∧
          after = { inner with active := machine.active } ∧
          (Stmt.LeavesAll steps declaration.body start value inner ∨
            executeAll (execute steps) declaration.body start = .done .normal inner ∧
              value = .nil))) ∧
    ∀ steps (statement : Stmt) machine value after, statement.canReturn = false →
      execute steps statement machine ≠ .done (.returned value) after := by
  refine ⟨?_, executeAll_behind, ?_, ?_, ?_⟩
  · intro program pruned pruning
    exact pruning.report_interpret
  · intro steps statement machine value after
    exact ⟨.of_executed, Stmt.Leaves.executed⟩
  · intro steps id declaration closure paren arguments machine value after given
    exact invoke_declared_iff given
  · intro steps statement machine value after none returned
    rw [(Stmt.Leaves.of_executed returned).canReturn] at none
    cases none

/-- A function that prints behind its return, pruned; a call of it; and a statement that returns
from nowhere. -/
theorem code_behind_return_dead_in_function :
    let machine := Machine.fresh (fun _ => 0) .unlimited
    let keyword : Token := ⟨.plain .returnKeyword, "return", 1⟩
    let name : Token := ⟨.plain .identifier, "f", 1⟩
    let body : List Stmt := [.returning keyword none, .print (.literal .nil)]
    (interpret 4 [.function name [] body] machine).report =
      (interpret 4 [.function name [] [.returning keyword none]] machine).report ∧
    invoke (execute 1) (.function 0 (.declared ⟨name, [], body⟩ 0)) name [] machine =
      .done .nil { machine.enter (some 0) with active := machine.active } ∧
    execute 2 (.expression (.literal .nil)) machine ≠ .done (.returned .nil) machine := by
  intro machine keyword name body
  obtain ⟨pruned, _, _, called, kept⟩ := code_behind_return_dead
  refine ⟨?_, ?_, ?_⟩
  · apply pruned
    exact .inside [] [] (.function (.behind [] keyword none [.print (.literal .nil)]))
  · apply (called 1 0 ⟨name, [], body⟩ 0 name [] machine .nil _ rfl).mpr
    exact ⟨_, _, rfl, rfl, .inl (.here (.returning rfl))⟩
  · exact kept 2 (.expression (.literal .nil)) machine .nil machine rfl

end Script
