import Script.Proofs.Evaluation.Simulation

/-! Evaluation keeps every simulation: two runs of one tree from corresponding machines end alike.
The only condition is that the names a statement may declare in the active scope may be declared
there. -/

namespace Script

/-- The names that a statement may declare in the scope it runs in. What stands in a block or in the
body of a function is declared in a scope of its own. -/
def Stmt.declares : Stmt → List String
  | .declare name _ | .function name _ _ => [name.lexeme]
  | .branch _ consequence none => consequence.declares
  | .branch _ consequence (some alternative) => consequence.declares ++ alternative.declares
  | .loop _ body => body.declares
  | .expression _ | .print _ | .block _ | .returning _ _ => []

/-- Statements of one form with parts that stand for each other. What follows a turn of a loop is
the loop itself, so loops have to stand for each other as a whole, too. -/
inductive Stmt.Parallel (related : Stmt → Stmt → Prop) : Stmt → Stmt → Prop where
  | expression (value : Expr) : Parallel related (.expression value) (.expression value)
  | print (value : Expr) : Parallel related (.print value) (.print value)
  | declare (name : Token) (initial : Option Expr) :
      Parallel related (.declare name initial) (.declare name initial)
  | block {statements statements' : List Stmt}
      (each : List.Forall₂ related statements statements') :
      Parallel related (.block statements) (.block statements')
  | branch (condition : Expr) {consequence consequence' : Stmt}
      {alternative alternative' : Option Stmt} (first : related consequence consequence')
      (second : Option.Rel related alternative alternative') :
      Parallel related (.branch condition consequence alternative)
        (.branch condition consequence' alternative')
  | loop (condition : Expr) {body body' : Stmt} (turn : related body body')
      (next : related (.loop condition body) (.loop condition body')) :
      Parallel related (.loop condition body) (.loop condition body')
  | function (name : Token) (parameters : List Token) {body body' : List Stmt}
      (each : List.Forall₂ related body body') :
      Parallel related (.function name parameters body) (.function name parameters body')
  | returning (keyword : Token) (value : Option Expr) :
      Parallel related (.returning keyword value) (.returning keyword value)

theorem Stmt.Parallel.refl {related : Stmt → Stmt → Prop} (same : ∀ stmt, related stmt stmt)
    (stmt : Stmt) : Parallel related stmt stmt := by
  have all (stmts : List Stmt) : List.Forall₂ related stmts stmts :=
    List.forall₂_same.mpr fun stmt _ => same stmt
  cases stmt with
  | expression value => exact .expression value
  | print value => exact .print value
  | declare name initial => exact .declare name initial
  | block statements => exact .block (all statements)
  | branch condition consequence alternative =>
    refine .branch condition (same consequence) ?_
    cases alternative with
    | none => exact .none
    | some alternative => exact .some (same alternative)
  | loop condition body => exact .loop condition (same body) (same _)
  | function name parameters body => exact .function name parameters (all body)
  | returning keyword value => exact .returning keyword value

/-- Both succeed with related results, or both fail for the same cause. -/
inductive Agree {ε α β : Type} (related : α → β → Prop) : Except ε α → Except ε β → Prop where
  | ok {value : α} {value' : β} (same : related value value') :
      Agree related (.ok value) (.ok value')
  | error (cause : ε) : Agree related (.error cause) (.error cause)

/-- Both go on, or both return related values. -/
inductive Flow.Agree (related : Value → Value → Prop) : Flow → Flow → Prop where
  | normal : Agree related .normal .normal
  | returned {value value' : Value} (same : related value value') :
      Agree related (.returned value) (.returned value')

namespace Operator

variable {code : List Stmt → List Stmt → Prop} {scopes : ScopeId → ScopeId → Prop}
  {arrays : ArrayId → ArrayId → Prop} {left left' right right' : Value}

theorem settles_eq (operator : Token) (same : Value.Corresponds code scopes arrays left left') :
    settles operator left = settles operator left' := by
  simp only [settles, same.isTruthy_eq]

theorem unary_agree (operator : Token)
    (same : Value.Corresponds code scopes arrays right right') :
    Agree (Value.Corresponds code scopes arrays) (unary operator right)
      (unary operator right') := by
  by_cases bang : operator.kind.tag? = some .bang
  · simp only [unary, bang, same.isTruthy_eq]
    exact .ok (.boolean _)
  · by_cases minus : operator.kind.tag? = some .minus
    · simp only [unary, minus]
      cases same with
      | number value => exact .ok (.number _)
      | _ => exact .error _
    · have invalid (operand : Value) :
          unary operator operand = .error (.invalidUnary operator.lexeme) := by
        unfold unary
        split <;> simp_all
      rw [invalid, invalid]
      exact .error _

theorem add_agree (first : Value.Corresponds code scopes arrays left left')
    (second : Value.Corresponds code scopes arrays right right') :
    Agree (Value.Corresponds code scopes arrays) (add left right) (add left' right') := by
  cases first with
  | number value =>
    cases second with
    | number other => exact .ok (.number _)
    | string text => exact .ok (.string _)
    | _ => exact .error _
  | string text =>
    cases second with
    | number value => exact .ok (.string _)
    | string other => exact .ok (.string _)
    | _ => exact .error _
  | _ => exact .error _

theorem isZero_eq (same : Value.Corresponds code scopes arrays right right') :
    isZero right = isZero right' := by
  cases same <;> rfl

/-- Arithmetic on two numbers refers to no scope and no array. -/
theorem arithmetic_corresponds {tag : Tag} {apply : Float → Float → Value}
    (found : arithmetic? tag = some apply) (x y : Float) :
    Value.Corresponds code scopes arrays (apply x y) (apply x y) := by
  cases tag <;> simp only [arithmetic?, Option.some.injEq, reduceCtorEq] at found <;> subst found
  case slash | minus | star => exact .number _
  case greater | greaterEqual | less | lessEqual => exact .boolean _

theorem ofNumbers_agree {tag : Tag} {apply : Float → Float → Value} (operator : Token)
    (found : arithmetic? tag = some apply) (first : Value.Corresponds code scopes arrays left left')
    (second : Value.Corresponds code scopes arrays right right') :
    Agree (Value.Corresponds code scopes arrays) (ofNumbers operator apply left right)
      (ofNumbers operator apply left' right') := by
  cases first with
  | number value =>
    cases second with
    | number other => exact .ok (arithmetic_corresponds found value other)
    | _ => exact .error _
  | _ => exact .error _

theorem binary_agree {heap heap' : Heap}
    (heaps : Heap.Corresponds code scopes arrays heap heap')
    (operator : Token) (first : Value.Corresponds code scopes arrays left left')
    (second : Value.Corresponds code scopes arrays right right') :
    Agree (Value.Corresponds code scopes arrays) (binary heap operator left right)
      (binary heap' operator left' right') := by
  unfold binary
  rw [Value.equals_across heaps first second, isZero_eq second]
  split
  · exact .ok (.boolean _)
  · exact .ok (.boolean _)
  · exact add_agree first second
  · split
    · rename_i found
      split
      · exact .error _
      · exact ofNumbers_agree operator found first second
    · exact .error _
  · exact .error _

end Operator

theorem arrayPlace_agree {code : List Stmt → List Stmt → Prop} {scopes : ScopeId → ScopeId → Prop}
    {arrays : ArrayId → ArrayId → Prop} {heap heap' : Heap} {array array' : ArrayId}
    (heaps : Heap.Corresponds code scopes arrays heap heap') (found : arrays array array')
    (index : Float) :
    Agree Eq (arrayPlace heap array index) (arrayPlace heap' array' index) := by
  have size : (heap.elements array).size = (heap'.elements array').size := by
    simpa using (heaps.elements found).length_eq
  unfold arrayPlace
  rw [size]
  split
  · exact .ok rfl
  · exact .error _

theorem executeAll_singleton (run : Stmt → Eval Flow) (stmt : Stmt) :
    executeAll run [stmt] = run stmt := by
  funext machine
  show Eval.bind (run stmt) _ machine = run stmt machine
  unfold Eval.bind
  cases run stmt machine with
  | done flow after => cases flow <;> rfl
  | failed | exhausted => rfl

section Invocation

variable [Host] {execute : Stmt → Eval Flow} {id : FunctionId} {paren : Token}
  {arguments : List Value}

theorem invoke_host {name : String} {arity : Nat} {native : Native}
    (fits : arguments.length = arity) :
    invoke execute (.function id (.host name arity native)) paren arguments =
      native.run paren arguments := if_pos fits

/-- A call of a declared function: the body runs in a scope of its own behind the closure. -/
theorem invoke_declared {declaration : FunctionDecl} {closure : ScopeId}
    (fits : arguments.length = declaration.parameters.length) :
    invoke execute (.function id (.declared declaration closure)) paren arguments = (do
      let flow ← Eval.inScope (some closure) do
        bindParameters declaration.parameters arguments
        executeAll execute declaration.body
      match flow with
      | .returned value => return value
      | .normal => return .nil) := if_pos fits

theorem invoke_misfit {callable : Callable} (misfit : arguments.length ≠ callable.arity) :
    invoke execute (.function id callable) paren arguments =
      Eval.raise paren (.arity callable.arity arguments.length) := if_neg misfit

end Invocation

namespace Simulation

variable {code : List Stmt → List Stmt → Prop} {between : Simulation code} {pace : Pace}
  {stage : between.Stage} {first second : ScopeId} {α β : Type}

def flows (between : Simulation code) (stage : between.Stage) : Flow → Flow → Prop :=
  Flow.Agree (between.values stage)

/-- Two ways to evaluate expressions that end alike from corresponding scopes. -/
def Evaluates (between : Simulation code) (pace : Pace) (run run' : Expr → Eval Value) : Prop :=
  ∀ stage first second, between.scopes stage first second → ∀ expr,
    between.Runs pace stage first second between.values (run expr) (run' expr)

/-- Two ways to execute statements that end alike from corresponding scopes, if all names that a
statement may declare in its scope may be declared there. -/
def Executes (between : Simulation code) (pace : Pace) (run run' : Stmt → Eval Flow) : Prop :=
  ∀ stage first second, between.scopes stage first second → ∀ stmt,
    (∀ name ∈ stmt.declares, between.declares stage first name) →
      between.Runs pace stage first second between.flows (run stmt) (run' stmt)

/-- The same for two statements of which one stands for the other. -/
def Performs (between : Simulation code) (pace : Pace) (related : Stmt → Stmt → Prop)
    (run run' : Stmt → Eval Flow) : Prop :=
  ∀ stage first second, between.scopes stage first second → ∀ stmt stmt', related stmt stmt' →
    (∀ name ∈ stmt.declares, between.declares stage first name) →
      between.Runs pace stage first second between.flows (run stmt) (run' stmt')

/-- Two ways to execute the bodies of functions that end alike from corresponding scopes in which
any name may be declared. -/
def Calls (between : Simulation code) (pace : Pace) (run run' : Stmt → Eval Flow) : Prop :=
  ∀ stage first second, between.scopes stage first second →
    (∀ name, between.declares stage first name) → ∀ body body', code body body' →
      between.Runs pace stage first second between.flows (executeAll run body)
        (executeAll run' body')

theorem Executes.performs {run run' : Stmt → Eval Flow} (inner : between.Executes pace run run') :
    between.Performs pace Eq run run' := by
  rintro stage first second here stmt _ rfl declares
  exact inner stage first second here stmt declares

/-- An item, or nil where there is none. -/
theorem item {items items' : List Value} (same : List.Forall₂ (between.values stage) items items')
    (place : Nat) : between.values stage (items.getD place .nil) (items'.getD place .nil) := by
  induction same generalizing place with
  | nil => exact .nil
  | cons same _ ih =>
    cases place with
    | zero => exact same
    | succ place => simpa using ih place

theorem twice_agree {arguments arguments' : List Value}
    (same : List.Forall₂ (between.values stage) arguments arguments') :
    Agree (between.values stage) (HostOperation.twice arguments)
      (HostOperation.twice arguments') := by
  cases same with
  | nil => exact .error _
  | cons same others =>
    cases others with
    | nil =>
      cases same with
      | number value => exact .ok (.number _)
      | _ => exact .error _
    | cons _ _ => cases same <;> exact .error _

namespace Runs

theorem require {related : between.Stage → α → β → Prop} {result : Except RuntimeCause α}
    {result' : Except RuntimeCause β} (token : Token)
    (same : ∀ later, between.grows stage later → Agree (related later) result result') :
    between.Runs pace stage first second related (Eval.require token result)
      (Eval.require token result') := by
  cases same stage (between.grows_refl stage) with
  | error cause => exact raise token cause
  | ok =>
    refine pure fun later grown => ?_
    cases same later grown with
    | ok same => exact same

theorem evaluateAll {run run' : Expr → Eval Value} (inner : between.Evaluates pace run run')
    (here : between.scopes stage first second) (exprs : List Expr) :
    between.Runs pace stage first second (fun later => List.Forall₂ (between.values later))
      (evaluateAll run exprs) (Script.evaluateAll run' exprs) := by
  induction exprs generalizing stage with
  | nil => exact pure fun _ _ => .nil
  | cons expr rest ih =>
    refine (inner _ _ _ here expr).bind fun later value value' grown same => ?_
    refine (ih (between.scopes_grow grown here)).bind fun after values values' grown' others => ?_
    exact pure fun _ last => .cons (between.values_grow (between.grows_trans grown' last) same)
      (others.imp fun _ _ => between.values_grow last)

theorem performAll {related : Stmt → Stmt → Prop} {run run' : Stmt → Eval Flow}
    (inner : between.Performs pace related run run') (here : between.scopes stage first second)
    {stmts stmts' : List Stmt} (each : List.Forall₂ related stmts stmts')
    (declares : ∀ stmt ∈ stmts, ∀ name ∈ stmt.declares, between.declares stage first name) :
    between.Runs pace stage first second between.flows (executeAll run stmts)
      (executeAll run' stmts') := by
  induction each generalizing stage with
  | nil => exact pure fun _ _ => .normal
  | cons same _ ih =>
    obtain ⟨own, others⟩ := List.forall_mem_cons.mp declares
    refine (inner _ _ _ here _ _ same own).bind fun later flow flow' grown same => ?_
    cases same with
    | returned same => exact pure fun _ grown' => .returned (between.values_grow grown' same)
    | normal =>
      exact ih (between.scopes_grow grown here) fun stmt member name declared =>
        between.declares_grow grown here name (others stmt member name declared)

theorem executeAll {run run' : Stmt → Eval Flow} (inner : between.Executes pace run run')
    (here : between.scopes stage first second) (stmts : List Stmt)
    (declares : ∀ stmt ∈ stmts, ∀ name ∈ stmt.declares, between.declares stage first name) :
    between.Runs pace stage first second between.flows (executeAll run stmts)
      (Script.executeAll run' stmts) :=
  performAll inner.performs here (List.forall₂_same.mpr fun _ _ => rfl) declares

theorem evaluateOptional {run run' : Expr → Eval Value} (inner : between.Evaluates pace run run')
    (here : between.scopes stage first second) (expr : Option Expr) :
    between.Runs pace stage first second between.values (evaluateOptional run expr)
      (Script.evaluateOptional run' expr) := by
  cases expr with
  | none => exact pure fun _ _ => .nil
  | some expr => exact inner _ _ _ here expr

theorem subscriptTarget {run run' : Expr → Eval Value} (inner : between.Evaluates pace run run')
    (here : between.scopes stage first second) (object : Expr) (bracket : Token) (index : Expr) :
    between.Runs pace stage first second
      (fun later target target' =>
        between.arrays later target.1 target'.1 ∧ target.2 = target'.2)
      (subscriptTarget run object bracket index)
      (Script.subscriptTarget run' object bracket index) := by
  refine (inner _ _ _ here object).bind fun later value value' grown same => ?_
  cases same with
  | array found =>
    refine (inner _ _ _ (between.scopes_grow grown here) index).bind
      fun after value value' grown' same => ?_
    cases same with
    | number number =>
      exact pure fun _ last => ⟨between.arrays_grow (between.grows_trans grown' last) found, rfl⟩
    | _ => exact raise _ _
  | _ => exact raise _ _

theorem locate {array array' : ArrayId} (found : between.arrays stage array array')
    (bracket : Token) (number : Float) :
    between.Runs pace stage first second (fun _ => Eq) (locate array bracket number)
      (Script.locate array' bracket number) := by
  refine (inspect (fun _ => Agree Eq) fun later left right grown heaps =>
    arrayPlace_agree heaps (between.arrays_grow grown found) number).bind
      fun later result result' grown same => ?_
  exact require bracket fun _ _ => same

theorem bindParameters (here : between.scopes stage first second)
    {arguments arguments' : List Value} (parameters : List Token)
    (declares : ∀ name, between.declares stage first name)
    (same : List.Forall₂ (between.values stage) arguments arguments') :
    between.Runs pace stage first second (fun _ _ _ => True) (bindParameters parameters arguments)
      (Script.bindParameters parameters arguments') := by
  induction parameters generalizing stage arguments arguments' with
  | nil =>
    cases same <;> exact pure fun _ _ => trivial
  | cons parameter parameters ih =>
    cases same with
    | nil => exact pure fun _ _ => trivial
    | cons same others =>
      refine (define here (declares _) same).bind fun later _ _ grown _ => ?_
      exact ih (between.scopes_grow grown here)
        (fun name => between.declares_grow grown here name (declares name))
        (others.imp fun _ _ => between.values_grow grown)

/-- The operations of the host at hand. -/
theorem operation {arguments arguments' : List Value} (operation : HostOperation)
    (same : List.Forall₂ (between.values stage) arguments arguments') :
    between.Runs pace stage first second (fun later => Agree (between.values later))
      (operation.run arguments) (operation.run arguments') := by
  have one := item same 0
  have two := item same 1
  cases operation with
  | typeName =>
    simp only [HostOperation.run, Value.Corresponds.typeName_eq one]
    exact pure fun _ _ => .ok (.string _)
  | text =>
    refine (inspect (fun _ => Eq) fun _ _ _ grown heaps =>
      Value.text_across heaps (between.values_grow grown one)).bind fun _ text _ _ same => ?_
    exact same ▸ pure fun _ _ => .ok (.string text)
  | same =>
    refine (inspect (fun _ => Eq) fun _ _ _ grown heaps =>
      Value.equals_across heaps (between.values_grow grown one)
        (between.values_grow grown two)).bind fun _ equal _ _ same => ?_
    exact same ▸ pure fun _ _ => .ok (.boolean equal)
  | length =>
    simp only [HostOperation.run]
    generalize arguments.getD 0 .nil = array, arguments'.getD 0 .nil = array' at one
    cases one with
    | array found =>
      refine (inspect (fun _ => Eq) fun _ _ _ grown heaps => ?_).bind
        fun _ size _ _ same => ?_
      · simpa using (heaps.elements (between.arrays_grow grown found)).length_eq
      · exact same ▸ pure fun _ _ => .ok (.number _)
    | _ => exact pure fun _ _ => .error _
  | append =>
    simp only [HostOperation.run]
    generalize arguments.getD 0 .nil = array, arguments'.getD 0 .nil = array' at one
    cases one with
    | array found =>
      refine (appendElement found two).bind fun _ _ _ grown _ => ?_
      refine pure fun _ last => .ok (.array ?_)
      exact between.arrays_grow (between.grows_trans grown last) found
    | _ => exact pure fun _ _ => .error _
  | double =>
    exact pure fun _ grown => twice_agree (same.imp fun _ _ => between.values_grow grown)
  | collect =>
    refine (newArray same).bind fun _ _ _ _ made => ?_
    exact pure fun _ last => .ok (between.values_grow last made)
  | refuse => exact pure fun _ _ => .error _

/-- The bodies of declared functions, in scopes of their own. -/
theorem body {run run' : Stmt → Eval Flow} (inner : between.Calls pace run run')
    {closure closure' : ScopeId} (enclosed : between.scopes stage closure closure')
    (parameters : List Token) {body body' : List Stmt} (runs : code body body')
    {arguments arguments' : List Value}
    (same : List.Forall₂ (between.values stage) arguments arguments') :
    between.Runs pace stage first second between.flows
      (Eval.inScope (some closure) do
        Script.bindParameters parameters arguments
        Script.executeAll run body)
      (Eval.inScope (some closure') do
        Script.bindParameters parameters arguments'
        Script.executeAll run' body') := by
  refine inScope enclosed fun later scope scope' grown here declares => ?_
  refine (bindParameters here _ declares
    (same.imp fun _ _ => between.values_grow grown)).bind fun after _ _ grown' _ => ?_
  exact inner after scope scope' (between.scopes_grow grown' here)
    (fun name => between.declares_grow grown' here name (declares name)) _ _ runs

end Runs

/-- The functions of the host end alike for corresponding arguments. -/
def Serves [Host] (between : Simulation code) (pace : Pace) : Prop :=
  ∀ stage first second arguments arguments',
    List.Forall₂ (between.values stage) arguments arguments' →
    ∀ key, between.Runs pace stage first second (fun later => Agree (between.values later))
      (Host.call key arguments) (Host.call key arguments')

/-- Those of the host at hand do. -/
theorem serves (between : Simulation code) (pace : Pace) : between.Serves pace := by
  intro stage first second arguments arguments' same key
  simp only [Host.call]
  split
  · exact .operation _ same
  · exact .pure fun _ _ => .error _

theorem Executes.calls {between : Simulation} {run run' : Stmt → Eval Flow}
    (inner : between.Executes pace run run') : between.Calls pace run run' := by
  rintro stage first second here any body _ rfl
  exact .executeAll inner here body fun _ _ name _ => any name

/-- A run that is out of steps, and may be before the other. -/
theorem Runs.firstOut {related : between.Stage → α → β → Prop} {run' : Eval β} :
    between.Runs .firstShort stage first second related Eval.exhausted run' :=
  fun _ _ _ _ _ => .firstShort rfl _

theorem Runs.secondOut {related : between.Stage → α → β → Prop} {run : Eval α} :
    between.Runs .secondShort stage first second related run Eval.exhausted :=
  fun _ _ _ _ _ => .secondShort rfl _

theorem Runs.bothOut {related : between.Stage → α → β → Prop} :
    between.Runs pace stage first second related Eval.exhausted Eval.exhausted :=
  fun _ _ _ _ _ => .exhausted

/-- A run without any step allowed keeps pace. -/
theorem Runs.outOfSteps {related : between.Stage → α → β → Prop} {steps : Nat} (run : Nat → Eval β)
    (admitted : pace.admits 0 steps) (none : run 0 = Eval.exhausted) :
    between.Runs pace stage first second related Eval.exhausted (run steps) := by
  cases steps with
  | zero => exact none ▸ bothOut
  | succ steps =>
    cases pace with
    | firstShort => exact firstOut
    | together => simp [Pace.admits] at admitted
    | secondShort => simp [Pace.admits] at admitted

/-- The same for the second run. -/
theorem Runs.outOfSteps' {related : between.Stage → α → β → Prop} {steps : Nat} {run : Eval α}
    (admitted : pace.admits (steps + 1) 0) :
    between.Runs pace stage first second related run (Eval.exhausted : Eval β) := by
  cases pace with
  | secondShort => exact secondOut
  | together => simp [Pace.admits] at admitted
  | firstShort => simp [Pace.admits] at admitted

section Hosted

variable [Host]

namespace Runs

theorem host (serves : between.Serves pace) {arguments arguments' : List Value} (native : Native)
    (paren : Token) (same : List.Forall₂ (between.values stage) arguments arguments') :
    between.Runs pace stage first second between.values (native.run paren arguments)
      (native.run paren arguments') := by
  cases native with
  | clock =>
    refine readClock.bind fun _ reading _ _ same => ?_
    exact same ▸ pure fun _ _ => .number reading
  | supplied key =>
    refine (serves _ _ _ _ _ same key).bind fun _ _ _ _ agree => ?_
    cases agree with
    | ok same => exact pure fun _ last => between.values_grow last same
    | error message => exact raise _ _

theorem call (serves : between.Serves pace) {run run' : Stmt → Eval Flow}
    (inner : between.Calls pace run run')
    {callee callee' : Value} {arguments arguments' : List Value}
    (called : between.values stage callee callee') (paren : Token)
    (same : List.Forall₂ (between.values stage) arguments arguments') :
    between.Runs pace stage first second between.values (invoke run callee paren arguments)
      (Script.invoke run' callee' paren arguments') := by
  cases called with
  | host id name arity native =>
    by_cases fits : arguments.length = arity
    · rw [invoke_host fits, invoke_host (same.length_eq ▸ fits)]
      exact host serves native paren same
    · rw [invoke_misfit fits, invoke_misfit (same.length_eq ▸ fits), same.length_eq]
      exact raise _ _
  | declared id name parameters runs closure =>
    by_cases fits : arguments.length = parameters.length
    · rw [invoke_declared fits, invoke_declared (same.length_eq ▸ fits)]
      refine (body inner closure parameters runs same).bind fun _ flow flow' _ same => ?_
      cases same with
      | returned same => exact pure fun _ grown => between.values_grow grown same
      | normal => exact pure fun _ _ => .nil
    · rw [invoke_misfit fits, invoke_misfit (same.length_eq ▸ fits), same.length_eq]
      exact raise _ _
  | _ => exact raise _ _

end Runs

theorem Runs.invoke {between : Simulation} {stage : between.Stage} {run run' : Stmt → Eval Flow}
    (serves : between.Serves pace) (inner : between.Executes pace run run') {callee callee' : Value}
    {arguments arguments' : List Value} (called : between.values stage callee callee')
    (paren : Token) (same : List.Forall₂ (between.values stage) arguments arguments') :
    between.Runs pace stage first second between.values (invoke run callee paren arguments)
      (Script.invoke run' callee' paren arguments') :=
  .call serves inner.calls called paren same

/-- One more step of evaluation ends alike if what it calls does. -/
theorem evaluate_step {steps steps' : Nat} (serves : between.Serves pace)
    (evaluates : between.Evaluates pace (evaluate steps) (evaluate steps'))
    (calls : between.Calls pace (execute steps) (execute steps')) :
    between.Evaluates pace (evaluate (steps + 1)) (evaluate (steps' + 1)) := by
  intro stage first second here expr
  have inner (expr : Expr) := evaluates stage first second here expr
  cases expr with
  | literal literal => exact .pure fun _ _ => Value.corresponds_literal literal
  | reference name => exact .lookUp here name
  | grouping expr => exact inner expr
  | assign name value =>
    refine (inner value).bind fun later value value' grown same => ?_
    refine (Runs.assign (between.scopes_grow grown here) name same).bind fun _ _ _ grown _ => ?_
    exact .pure fun _ last => between.values_grow (between.grows_trans grown last) same
  | logical left operator right =>
    refine (inner left).bind fun later value value' grown same => ?_
    rw [Operator.settles_eq operator same]
    split
    · exact .pure fun _ last => between.values_grow last same
    · exact (inner right).later grown
  | unary operator right =>
    refine (inner right).bind fun later value value' grown same => ?_
    exact .require operator fun _ last =>
      Operator.unary_agree operator (between.values_grow last same)
  | binary left operator right =>
    refine (inner left).bind fun later value value' grown same => ?_
    refine ((inner right).later grown).bind fun after other other' grown' same' => ?_
    refine (Runs.inspect (fun now => Agree (between.values now)) fun _ _ _ last heaps =>
      Operator.binary_agree heaps operator
        (between.values_grow (between.grows_trans grown' last) same)
        (between.values_grow last same')).bind fun final _ _ _ agree => ?_
    refine .require operator fun _ last => ?_
    cases agree with
    | ok same => exact .ok (between.values_grow last same)
    | error cause => exact .error cause
  | call callee paren arguments =>
    refine (inner callee).bind fun later value value' grown called => ?_
    refine (Runs.evaluateAll evaluates (between.scopes_grow grown here) arguments).bind
      fun _ values values' grown' same => ?_
    exact .call serves calls (between.values_grow grown' called) paren same
  | array bracket elements =>
    refine (Runs.evaluateAll evaluates here elements).bind fun _ values values' _ same => ?_
    exact .newArray same
  | subscript object bracket index =>
    refine (Runs.subscriptTarget evaluates here object bracket index).bind
      fun later target target' grown same => ?_
    obtain ⟨array, number⟩ := target
    obtain ⟨array', number'⟩ := target'
    obtain ⟨found, rfl⟩ := same
    refine (Runs.locate found bracket number).bind fun after place place' grown' same => ?_
    subst same
    refine .inspect _ fun _ _ _ last heaps => ?_
    have same := heaps.elements (between.arrays_grow (between.grows_trans grown' last) found)
    simpa using item same place
  | store object bracket index value =>
    refine (Runs.subscriptTarget evaluates here object bracket index).bind
      fun later target target' grown same => ?_
    obtain ⟨array, number⟩ := target
    obtain ⟨array', number'⟩ := target'
    obtain ⟨found, rfl⟩ := same
    refine ((inner value).later grown).bind fun after value value' grown' same => ?_
    refine (Runs.locate (between.arrays_grow grown' found) bracket number).bind
      fun last place place' placed agree => ?_
    subst agree
    have reached := between.grows_trans grown' placed
    refine (Runs.writeElement (between.arrays_grow reached found) place
      (between.values_grow placed same)).bind fun _ _ _ written _ => ?_
    exact .pure fun _ final => between.values_grow
      (between.grows_trans placed (between.grows_trans written final)) same

/-- One more step of two statements of one form ends alike if what it calls does. -/
theorem perform_step {related : Stmt → Stmt → Prop} {steps steps' : Nat}
    (codes : ∀ body body', List.Forall₂ related body body' → code body body')
    (evaluates : between.Evaluates pace (evaluate steps) (evaluate steps'))
    (performs : between.Performs pace related (execute steps) (execute steps')) :
    between.Performs pace (Stmt.Parallel related) (execute (steps + 1)) (execute (steps' + 1)) := by
  intro stage first second here stmt stmt' parallel declares
  have inner (expr : Expr) := evaluates stage first second here expr
  have onward {later : between.Stage} (grown : between.grows stage later) {stmt stmt' : Stmt}
      (same : related stmt stmt') (declares : ∀ name ∈ stmt.declares,
        between.declares stage first name) :=
    performs later first second (between.scopes_grow grown here) stmt stmt' same
      fun name member => between.declares_grow grown here name (declares name member)
  cases parallel with
  | expression value =>
    refine (inner value).bind fun _ _ _ _ _ => ?_
    exact .pure fun _ _ => .normal
  | print value =>
    refine (inner value).bind fun later value value' _ same => ?_
    refine (Runs.inspect (fun _ => Eq) fun _ _ _ grown heaps =>
      Value.text_across heaps (between.values_grow grown same)).bind fun _ text _ _ same => ?_
    subst same
    refine (Runs.write _).bind fun _ _ _ _ _ => ?_
    exact .pure fun _ _ => .normal
  | declare name initial =>
    refine (Runs.evaluateOptional evaluates here initial).bind fun later _ _ grown same => ?_
    have allowed := between.declares_grow grown here name.lexeme
      (declares name.lexeme (by simp [Stmt.declares]))
    refine (Runs.define (between.scopes_grow grown here) allowed same).bind fun _ _ _ _ _ => ?_
    exact .pure fun _ _ => .normal
  | block each =>
    refine (Runs.activeScope here).bind fun later scope scope' grown same => ?_
    refine .inScope same fun after inner inner' _ fresh any => ?_
    exact .performAll performs fresh each fun _ _ name _ => any name
  | branch condition consequence alternative =>
    cases alternative with
    | none =>
      refine (inner condition).bind fun later value value' grown same => ?_
      rw [same.isTruthy_eq]
      split
      · exact onward grown consequence fun name member => declares name member
      · exact .pure fun _ _ => .normal
    | some alternative =>
      refine (inner condition).bind fun later value value' grown same => ?_
      rw [same.isTruthy_eq]
      split
      · exact onward grown consequence fun name member =>
          declares name (List.mem_append_left _ member)
      · exact onward grown alternative fun name member =>
          declares name (List.mem_append_right _ member)
  | loop condition turn next =>
    refine (inner condition).bind fun later value value' grown same => ?_
    rw [same.isTruthy_eq]
    split
    · refine (onward grown turn declares).bind fun after flow flow' grown' same => ?_
      cases same with
      | returned same => exact .pure fun _ last => .returned (between.values_grow last same)
      | normal => exact onward (between.grows_trans grown grown') next declares
    · exact .pure fun _ _ => .normal
  | function name parameters each =>
    refine (Runs.activeScope here).bind fun later scope scope' grown same => ?_
    refine (Runs.newFunction same name parameters (codes _ _ each)).bind
      fun after _ _ grown' same => ?_
    have reached := between.grows_trans grown grown'
    have allowed := between.declares_grow reached here name.lexeme
      (declares name.lexeme (by simp [Stmt.declares]))
    refine (Runs.define (between.scopes_grow reached here) allowed same).bind fun _ _ _ _ _ => ?_
    exact .pure fun _ _ => .normal
  | returning keyword value =>
    refine (Runs.evaluateOptional evaluates here value).bind fun later _ _ grown same => ?_
    exact .pure fun _ last => .returned (between.values_grow last same)

/-- One more step of a statement ends alike if what it calls does. -/
theorem execute_step {between : Simulation} {steps steps' : Nat}
    (evaluates : between.Evaluates pace (evaluate steps) (evaluate steps'))
    (executes : between.Executes pace (execute steps) (execute steps')) :
    between.Executes pace (execute (steps + 1)) (execute (steps' + 1)) := by
  intro stage first second here stmt declares
  have codes (body body' : List Stmt) (same : List.Forall₂ Eq body body') : body = body' := by
    rwa [List.forall₂_eq_eq_eq] at same
  exact perform_step codes evaluates executes.performs stage first second here stmt stmt
    (.refl (fun _ => rfl) stmt) declares

/-- Runs of which one has no step left keep pace. -/
theorem outOfSteps (between : Simulation code) (related : Stmt → Stmt → Prop) {steps steps' : Nat}
    (admitted : pace.admits steps steps') (out : steps = 0 ∨ steps' = 0) :
    between.Evaluates pace (evaluate steps) (evaluate steps') ∧
      between.Performs pace related (execute steps) (execute steps') := by
  cases steps with
  | zero =>
    constructor
    · intro stage first second here expr
      exact Runs.outOfSteps (fun steps => evaluate steps expr) admitted rfl
    · intro stage first second here stmt stmt' same declares
      exact Runs.outOfSteps (fun steps => execute steps stmt') admitted rfl
  | succ steps =>
    obtain rfl := out.resolve_left (Nat.succ_ne_zero steps)
    constructor
    · intro stage first second here expr
      exact Runs.outOfSteps' admitted
    · intro stage first second here stmt stmt' same declares
      exact Runs.outOfSteps' admitted

/-- A simulation that the functions of the host keep is kept by whole runs, by induction on the
steps allowed. -/
theorem runs_of_serves {between : Simulation} {pace : Pace} (serves : between.Serves pace)
    (steps steps' : Nat) (admitted : pace.admits steps steps') :
    between.Evaluates pace (evaluate steps) (evaluate steps') ∧
      between.Executes pace (execute steps) (execute steps') := by
  have alone {steps steps' : Nat} (admitted : pace.admits steps steps')
      (out : steps = 0 ∨ steps' = 0) : between.Evaluates pace (evaluate steps) (evaluate steps') ∧
        between.Executes pace (execute steps) (execute steps') := by
    obtain ⟨evaluates, performs⟩ := between.outOfSteps Eq admitted out
    exact ⟨evaluates, fun stage first second here stmt =>
      performs stage first second here stmt stmt rfl⟩
  induction steps generalizing steps' with
  | zero => exact alone admitted (.inl rfl)
  | succ steps ih =>
    cases steps' with
    | zero => exact alone admitted (.inr rfl)
    | succ steps' =>
      obtain ⟨evaluates, executes⟩ := ih steps' (Pace.admits_of_succ admitted)
      exact ⟨evaluate_step serves evaluates executes.calls, execute_step evaluates executes⟩

end Hosted

/-- With the host at hand every simulation is kept. -/
theorem runs (between : Simulation) (pace : Pace) (steps steps' : Nat)
    (admitted : pace.admits steps steps') :
    between.Evaluates pace (evaluate steps) (evaluate steps') ∧
      between.Executes pace (execute steps) (execute steps') :=
  runs_of_serves (between.serves pace) steps steps' admitted

end Simulation
end Script
