import Script.Proofs.Evaluation.Observation
import Script.Proofs.Evaluation.Congruence
import Script.Proofs.Scope.Declaration
import Script.Proofs.Scope.Activity

/-! A statement and a block of that statement alone do the same, wherever in a program it stands.
Nothing is ever bound in the scope of the block, but functions made there keep it in their chains,
and the code of functions may hold the block itself; so a run with the block is simulated under
blank scopes and under code that differs by it. -/

namespace Script

namespace Stmt

/-- A place in a statement where another one stands: in its lists, as a branch or body, or as the
statement itself. -/
inductive Context where
  | here
  | block (before : List Stmt) (inner : Context) (after : List Stmt)
  | consequence (condition : Expr) (inner : Context) (other : Option Stmt)
  | alternative (condition : Expr) (other : Stmt) (inner : Context)
  | loop (condition : Expr) (inner : Context)
  | function (name : Token) (parameters : List Token) (before : List Stmt) (inner : Context)
      (after : List Stmt)

/-- The whole with a statement in that place. -/
def Context.fill : Context → Stmt → Stmt
  | .here, stmt => stmt
  | .block before inner after, stmt => .block (before ++ inner.fill stmt :: after)
  | .consequence condition inner other, stmt => .branch condition (inner.fill stmt) other
  | .alternative condition other inner, stmt =>
    .branch condition other (some (inner.fill stmt))
  | .loop condition inner, stmt => .loop condition (inner.fill stmt)
  | .function name parameters before inner after, stmt =>
    .function name parameters (before ++ inner.fill stmt :: after)

theorem Orderly.of_fill {context : Context} {stmt : Stmt} (orderly : (context.fill stmt).Orderly) :
    stmt.Orderly := by
  induction context with
  | here => exact orderly
  | block before inner after ih =>
    cases orderly with
    | block each => exact ih (each _ (List.mem_append_right before (List.mem_cons_self ..)))
  | consequence condition inner other ih =>
    cases orderly with
    | branch first | alternative first => exact ih first
  | alternative condition other inner ih =>
    cases orderly with
    | alternative _ _ second => exact ih second
  | loop condition inner ih =>
    cases orderly with
    | loop body => exact ih body
  | function name parameters before inner after ih =>
    cases orderly with
    | function each => exact ih (each _ (List.mem_append_right before (List.mem_cons_self ..)))

/-- The second statement is the first, or it is the first without a block around one statement
that declares nothing. -/
inductive Unwraps : Stmt → Stmt → Prop where
  | same (stmt : Stmt) : Unwraps stmt stmt
  | inside (context : Context) {stmt : Stmt} (undeclaring : stmt.declares = []) :
      Unwraps (context.fill (.block [stmt])) (context.fill stmt)

theorem unwraps_all {stmt stmt' : Stmt} (before : List Stmt) (unwraps : Unwraps stmt stmt')
    (after : List Stmt) :
    List.Forall₂ Unwraps (before ++ stmt :: after) (before ++ stmt' :: after) :=
  List.rel_append (List.forall₂_same.mpr fun stmt _ => .same stmt)
    (.cons unwraps (List.forall₂_same.mpr fun stmt _ => .same stmt))

/-- The block is the whole statement, or else stands in one part of it. -/
theorem Unwraps.parallel_or {stmt stmt' : Stmt} (unwraps : Unwraps stmt stmt') :
    Parallel Unwraps stmt stmt' ∨ stmt = .block [stmt'] ∧ stmt'.declares = [] := by
  cases unwraps with
  | same => exact .inl (.refl .same stmt)
  | inside context undeclaring =>
    cases context with
    | here => exact .inr ⟨rfl, undeclaring⟩
    | block before inner after =>
      exact .inl (.block (unwraps_all before (.inside inner undeclaring) after))
    | consequence condition inner other =>
      refine .inl (.branch condition (.inside inner undeclaring) ?_)
      cases other with
      | none => exact .none
      | some other => exact .some (.same other)
    | alternative condition other inner =>
      exact .inl (.branch condition (.same other) (.some (.inside inner undeclaring)))
    | loop condition inner =>
      exact .inl (.loop condition (.inside inner undeclaring)
        (.inside (.loop condition inner) undeclaring))
    | function name parameters before inner after =>
      exact .inl (.function name parameters
        (unwraps_all before (.inside inner undeclaring) after))

end Stmt

/-- The first of two runs may run out before the second with as many steps, and the second may run
out before the first with half as many. -/
def Pace.doubles (pace : Pace) (first second : Nat) : Prop :=
  match pace with
  | .together => False
  | .firstShort => first ≤ second
  | .secondShort => 2 * second ≤ first

section Doubles

variable {pace : Pace} {first second : Nat}

theorem Pace.admits_of_doubles (doubles : pace.doubles first second) :
    pace.admits first second := by
  cases pace <;> simp only [Pace.doubles, admits] at doubles ⊢ <;> omega

theorem Pace.doubles_of_succ (doubles : pace.doubles (first + 1) (second + 1)) :
    pace.doubles first second := by
  cases pace <;> simp only [Pace.doubles] at doubles ⊢ <;> omega

/-- The first run may take one step more than the second for each of its steps. -/
theorem Pace.doubles_of_succ_succ (doubles : pace.doubles (first + 2) (second + 1)) :
    pace.doubles first second := by
  cases pace <;> simp only [Pace.doubles] at doubles ⊢ <;> omega

theorem Pace.admits_zero_of_doubles (doubles : pace.doubles 1 (second + 1)) :
    pace.admits 0 (second + 1) := by
  cases pace <;> simp only [Pace.doubles, admits] at doubles ⊢ <;> omega

end Doubles

namespace Overlay

open Simulation

/-- A run with blank scopes and with blocks around some statements, beside one without. -/
def unwrapping : Simulation (List.Forall₂ Stmt.Unwraps) := simulation _

variable {pace : Pace}

/-- With these numbers of steps all expressions end alike, and all statements of which one is the
other without a block. -/
def Alike (pace : Pace) (first second : Nat) : Prop :=
  unwrapping.Evaluates pace (evaluate first) (evaluate second) ∧
    unwrapping.Performs pace Stmt.Unwraps (execute first) (execute second)

theorem Alike.calls {first second : Nat} (alike : Alike pace first second) :
    unwrapping.Calls pace (execute first) (execute second) :=
  fun _ _ _ here any _ _ each => .performAll alike.2 here each fun _ _ name _ => any name

/-- Statements of one form end alike in one step more. -/
theorem Alike.parallel {first second : Nat} (alike : Alike pace first second) :
    unwrapping.Performs pace (Stmt.Parallel Stmt.Unwraps) (execute (first + 1))
      (execute (second + 1)) :=
  perform_step (fun _ _ same => same) alike.1 alike.2

/-- A block around a statement takes a step that the statement alone does not. -/
theorem runs_wrapped {first second : Nat} {stage : Overlay} {left right : ScopeId} {stmt : Stmt}
    (doubles : pace.doubles (first + 1) (second + 1))
    (earlier : ∀ less < first, pace.doubles less second → Alike pace less second)
    (here : stage.Scopes left right) (undeclaring : stmt.declares = []) :
    unwrapping.Runs pace stage left right unwrapping.flows (execute (first + 1) (.block [stmt]))
      (execute (second + 1) stmt) := by
  refine runs_block here fun later blank grown here => ?_
  rw [executeAll_singleton]
  cases first with
  | zero =>
    exact Runs.outOfSteps (fun steps => execute steps stmt) (Pace.admits_zero_of_doubles doubles)
      rfl
  | succ first =>
    have inside := earlier first (Nat.lt_succ_self first) (Pace.doubles_of_succ_succ doubles)
    refine inside.parallel later blank right here stmt stmt (.refl .same stmt) ?_
    simp [undeclaring]

/-- Code with the blocks and code without them run alike, by induction on the steps of the first
run, which is two steps further than the second where it has passed a block. -/
theorem alike_of_doubles {first second : Nat} (doubles : pace.doubles first second) :
    Alike pace first second := by
  induction first using Nat.strongRecOn generalizing second with
  | ind first ih =>
    have admitted := Pace.admits_of_doubles doubles
    cases first with
    | zero => exact unwrapping.outOfSteps _ admitted (.inl rfl)
    | succ first =>
      cases second with
      | zero => exact unwrapping.outOfSteps _ admitted (.inr rfl)
      | succ second =>
        have below := ih first (Nat.lt_succ_self first) (Pace.doubles_of_succ doubles)
        refine ⟨evaluate_step (unwrapping.serves pace) below.1 below.calls, ?_⟩
        intro stage left right here stmt stmt' unwraps declares
        rcases unwraps.parallel_or with parallel | ⟨rfl, undeclaring⟩
        · exact below.parallel stage left right here stmt stmt' parallel declares
        · exact runs_wrapped doubles (fun less fewer => ih less (Nat.lt_succ_of_lt fewer)) here
            undeclaring

theorem interpret_ends {machine : Machine} (sound : machine.Sound) {program program' : List Stmt}
    (each : List.Forall₂ Stmt.Unwraps program program') (pace : Pace) {first second : Nat}
    (doubles : pace.doubles first second) :
    unwrapping.Ends pace (.plain machine) machine.active machine.active (fun _ _ _ => True)
      (interpret first program machine) (interpret second program' machine) := by
  have fixes := fixes_plain machine
  have runs := Runs.performAll (alike_of_doubles doubles).2 (fixes.scopes sound.active) each
    fun _ _ _ _ => (fixes machine.active sound.active).2.2
  have same (body : List Stmt) : List.Forall₂ Stmt.Unwraps body body :=
    List.forall₂_same.mpr fun stmt _ => .same stmt
  exact (runs.bind fun _ _ _ _ _ => .flush) _ machine machine (.refl _)
    (machines_plain same sound)

end Overlay

namespace Simulation

variable {code : List Stmt → List Stmt → Prop} {between : Simulation code} {stage : between.Stage}
  {first second : ScopeId} {related : between.Stage → Unit → Unit → Prop}
  {result result' : Result Unit} {seen : Except Failure Unit × Array UInt8}

/-- What is seen of the first run is seen of the second, unless the second is short of steps. -/
theorem Ends.second_report
    (ends : between.Ends .firstShort stage first second related result result')
    (shown : result.report = some seen) : result'.report = some seen := by
  cases ends with
  | done grown machines same => rwa [Result.report, machines.output] at shown
  | failed failure grown machines => rwa [Result.report, machines.output] at shown
  | exhausted => exact shown
  | firstShort => cases shown
  | secondShort short => cases short

theorem Ends.first_report
    (ends : between.Ends .secondShort stage first second related result result')
    (shown : result'.report = some seen) : result.report = some seen := by
  cases ends with
  | done grown machines same => rwa [Result.report, ← machines.output] at shown
  | failed failure grown machines => rwa [Result.report, ← machines.output] at shown
  | exhausted => exact shown
  | firstShort short => cases short
  | secondShort => cases shown

end Simulation

/-- In an accepted program, at any place where a statement stands that is not a declaration, a block
of that statement alone does the same. Either program ends if the other does, with the same failure
or none, and the same is printed; the block only takes more steps, at most as many again. -/
theorem blocks_of_one_are_invisible {stream : TokenStream} {before after : List Stmt}
    {context : Stmt.Context} {stmt : Stmt}
    (accepted : stream.program.1 = .ok (before ++ context.fill stmt :: after))
    (plain : stmt.declaration? = none) {machine : Machine} (sound : machine.Sound) (steps : Nat) :
    let program := before ++ context.fill stmt :: after
    let wrapped := before ++ context.fill (.block [stmt]) :: after
    (∀ seen, (interpret steps wrapped machine).report = some seen →
      (interpret steps program machine).report = some seen) ∧
    ∀ seen, (interpret steps program machine).report = some seen →
      (interpret (2 * steps) wrapped machine).report = some seen := by
  intro program wrapped
  have orderly := (stream.program_eq_ok.mp accepted).orderly (context.fill stmt)
    (List.mem_append_right before (List.mem_cons_self ..))
  have each : List.Forall₂ Stmt.Unwraps wrapped program :=
    Stmt.unwraps_all before (.inside context (orderly.of_fill.declares_eq_nil plain)) after
  constructor
  · intro seen shown
    have ends := Overlay.interpret_ends sound each .firstShort (Nat.le_refl steps)
    exact ends.second_report shown
  · intro seen shown
    have ends := Overlay.interpret_ends sound each .secondShort (Nat.le_refl (2 * steps))
    exact ends.first_report shown

open Grammar in
/-- A branch that is taken, around a statement and around a block of it. -/
theorem blocks_of_one_are_invisible_in_branch :
    ∃ stream : TokenStream,
      stream.program.1 =
        .ok [.branch (.literal (.boolean true)) (.expression (.literal .nil)) none] ∧
      (interpret 6 [.branch (.literal (.boolean true)) (.block [.expression (.literal .nil)]) none]
        (.fresh (fun _ => 0) .unlimited)).report = some (.ok (), #[]) := by
  have condition : Phrase .strict .primary [Tag.trueKeyword.mark "true"]
      (.literal (.boolean true)) [] := .truth (Tag.mark_is _ _)
  have phrase : Phrase .strict .primary [Tag.nilKeyword.mark "nil"] (.literal .nil) [] :=
    .nil (Tag.mark_is _ _)
  have inner := Sentence.expression phrase.of_primary (Tag.mark_is .semicolon ";")
  have branch := Sentence.branch (Tag.mark_is .ifKeyword "if") (Tag.mark_is .leftParen "(")
    condition.of_primary (Tag.mark_is .rightParen ")") inner
  have accepted := (TokenStream.program_eq_ok (.ofList [Tag.ifKeyword.mark "if",
    Tag.leftParen.mark "(", Tag.trueKeyword.mark "true", Tag.rightParen.mark ")",
    Tag.nilKeyword.mark "nil", Tag.semicolon.mark ";"])).mpr (Program.nil.cons (.statement branch))
  have sound := (Machine.rooted_fresh (fun _ => 0) .unlimited).toSound
  have kept := @blocks_of_one_are_invisible _ [] [] (.consequence _ .here none) _ accepted rfl _
    sound 3
  exact ⟨_, accepted, kept.2 _ rfl⟩

end Script
