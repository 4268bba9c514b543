import Script.Proofs.Scope.Activity
import Script.Proofs.Session.Renaming

/-! Sessions in which all code that runs is parsed. What parses is formed, so wherever such a
session comes to, all code that it runs or keeps in a function is formed, and no operator falls
through. -/

namespace Script

/-- The names in code are identifiers. -/
def Token.Names (token : Token) : Prop := token.is .identifier = true

/-- Any function of the host may be called. -/
def Native.any (_ : Native) : Prop := True

variable {named : Token → Prop} {α β : Type}

namespace Renaming

/-- No new names at all. A run of formed code beside itself tells what it keeps. -/
def keep (named : Token → Prop) : Renaming where
  change := id
  named := named
  hosts := Native.any
  injective _ _ same := same
  quiet _ := rfl

theorem twins_keep {machine : Machine} (formed : machine.Formed named Native.any) :
    (keep named).Twins machine
      { machine with
        scopes := machine.scopes.map (Value.rename id)
        heap := machine.heap.map (Value.rename id) } where
  formed := formed
  size := ScopeTree.size_map _ _
  parent := ScopeTree.parent?_map _ _
  bound id token _ := ScopeTree.own?_map _ _ id token.lexeme
  heap := rfl
  active := rfl
  functions := rfl
  clock := rfl
  output := .inl ⟨rfl, rfl⟩

end Renaming

/-- A run that ends leaves a formed machine, with a value of the right kind or with a failure that
no operator falls through to. -/
inductive Result.Sound (named : Token → Prop) (right : α → Prop) : Result α → Prop where
  | done {value : α} {after : Machine} (kind : right value)
      (formed : after.Formed named Native.any) : Sound named right (.done value after)
  | failed {failure : Failure} {after : Machine} (known : failure.fallsThrough = false)
      (formed : after.Formed named Native.any) : Sound named right (.failed failure after)
  | exhausted : Sound named right .exhausted

/-- How a statement ends that returns a formed value, if it returns one. -/
def Flow.Formed (named : Token → Prop) : Flow → Prop
  | .normal => True
  | .returned value => value.Formed named Native.any

def Flow.value? : Flow → Option Value
  | .normal => none
  | .returned value => some value

theorem Flow.Formed.value? {flow : Flow} {value : Value} (formed : flow.Formed named)
    (given : flow.value? = some value) : value.Formed named Native.any := by
  cases flow with
  | normal => cases given
  | returned =>
    cases given
    exact formed

theorem Flow.Formed.of_flows {flow flow' : Flow} (same : (Renaming.keep named).Flows flow flow') :
    flow.Formed named := by
  cases same with
  | normal => trivial
  | returned same => exact same.1

/-- The value that a computation ends with. -/
def Result.value? : Result α → Option α
  | .done value _ => some value
  | .failed _ _ | .exhausted => none

/-- The failure that a computation ends with. -/
def Result.failure? : Result α → Option Failure
  | .failed failure _ => some failure
  | .done _ _ | .exhausted => none

theorem Result.Sound.of_done {right : α → Prop} {result : Result α} {value : α} {after : Machine}
    (sound : result.Sound named right) (ended : result = .done value after) :
    right value ∧ after.Formed named Native.any := by
  subst ended
  cases sound with
  | done kind formed => exact ⟨kind, formed⟩

theorem Result.Sound.ends {right : α → Prop} {result : Result α}
    (sound : result.Sound named right) :
    (∀ after, result.machine? = some after → after.Formed named Native.any) ∧
      ∀ failure, result.failure? = some failure → failure.fallsThrough = false := by
  cases sound with
  | done kind formed => exact ⟨fun _ ended => Option.some.inj ended ▸ formed, nofun⟩
  | failed known formed =>
    exact ⟨fun _ ended => Option.some.inj ended ▸ formed,
      fun _ failed => Option.some.inj failed ▸ known⟩
  | exhausted => exact ⟨nofun, nofun⟩

theorem Result.Sound.value? {right : α → Prop} {result : Result α} {value : α}
    (sound : result.Sound named right) (given : result.value? = some value) : right value := by
  cases sound with
  | done kind formed =>
    cases given
    exact kind
  | failed | exhausted => cases given

theorem Renaming.Runs.sound {related : α → β → Prop} {right : α → Prop} {run : Eval α}
    {run' : Eval β} {prints prints' : Machine → List Printed} {machine : Machine}
    (runs : (keep named).Runs related run prints run' prints')
    (formed : machine.Formed named Native.any)
    (kind : ∀ value value', related value value' → right value) :
    (run machine).Sound named right := by
  have together := (runs _ _ (twins_keep formed)).together
  generalize run machine = result at together ⊢
  generalize run' _ = result' at together
  cases together with
  | done same twins => exact .done (kind _ _ same) twins.formed
  | failed known twins => exact .failed known twins.formed
  | exhausted => exact .exhausted

namespace Machine.Formed

variable {machine : Machine} {steps : Nat}

theorem evaluate (formed : machine.Formed named Native.any) (steps : Nat) {expr : Expr}
    (ofExpr : expr.Formed named) : (Script.evaluate steps expr machine).Sound named
      (Value.Formed named Native.any) :=
  (((Renaming.keep named).runs steps).1 expr ofExpr).sound formed fun _ _ same => same.1

theorem evaluateAll (formed : machine.Formed named Native.any) (steps : Nat)
    {exprs : List Expr} (ofExprs : ∀ expr ∈ exprs, expr.Formed named) :
    (Script.evaluateAll (Script.evaluate steps) exprs machine).Sound named
      fun values => ∀ value ∈ values, value.Formed named Native.any :=
  (Renaming.Runs.evaluateAll fun expr member =>
    ((Renaming.keep named).runs steps).1 expr (ofExprs expr member)).sound formed
      fun _ _ same => same.1

theorem execute (formed : machine.Formed named Native.any) (steps : Nat) {stmt : Stmt}
    (ofStmt : stmt.Formed named) :
    (Script.execute steps stmt machine).Sound named (Flow.Formed named) :=
  (((Renaming.keep named).runs steps).2 stmt ofStmt).sound formed fun _ _ same => .of_flows same

theorem executeAll (formed : machine.Formed named Native.any) (steps : Nat)
    {statements : List Stmt} (ofStatements : ∀ stmt ∈ statements, stmt.Formed named) :
    (Script.executeAll (Script.execute steps) statements machine).Sound named
      (Flow.Formed named) :=
  (Renaming.Runs.executeAll fun stmt member =>
    ((Renaming.keep named).runs steps).2 stmt (ofStatements stmt member)).sound formed
      fun _ _ same => .of_flows same

theorem interpret (formed : machine.Formed named Native.any) (steps : Nat)
    {statements : List Stmt} (ofStatements : ∀ stmt ∈ statements, stmt.Formed named) :
    (Script.interpret steps statements machine).Sound named fun _ => True :=
  (Renaming.Runs.interpret (Renaming.keep named) steps ofStatements).sound formed
    fun _ _ _ => trivial

theorem subscriptTarget (formed : machine.Formed named Native.any) (steps : Nat)
    {object index : Expr} (bracket : Token) (ofObject : object.Formed named)
    (ofIndex : index.Formed named) :
    (Script.subscriptTarget (Script.evaluate steps) object bracket index machine).Sound named
      fun _ => True :=
  (Renaming.Runs.subscriptTarget bracket (((Renaming.keep named).runs steps).1 object ofObject)
    (((Renaming.keep named).runs steps).1 index ofIndex)).sound formed fun _ _ _ => trivial

theorem bindParameters (formed : machine.Formed named Native.any) {parameters : List Token}
    {values : List Value} (names : ∀ parameter ∈ parameters, named parameter)
    (ofValues : ∀ value ∈ values, value.Formed named Native.any) :
    (Script.bindParameters parameters values machine).Sound named fun _ => True :=
  (@Renaming.Runs.bindParameters (Renaming.keep named) _ _ _ names ⟨ofValues, rfl⟩).sound formed
    fun _ _ _ => trivial

end Machine.Formed

/-- Code that is formed, in any task. -/
def Task.Formed (named : Token → Prop) : Task → Prop
  | .program statements | .sequence statements => ∀ stmt ∈ statements, stmt.Formed named
  | .statement stmt => stmt.Formed named
  | .operands exprs => ∀ expr ∈ exprs, expr.Formed named
  | .expression expr => expr.Formed named

structure Activity.Formed (named : Token → Prop) (activity : Activity) : Prop where
  task : activity.task.Formed named
  machine : activity.machine.Formed named Native.any

/-- The failure that an activity ends with. -/
def Activity.failure? : Activity → Option Failure
  | ⟨steps, .program statements, machine⟩ => (interpret steps statements machine).failure?
  | ⟨steps, .sequence statements, machine⟩ =>
    (executeAll (execute steps) statements machine).failure?
  | ⟨steps, .statement stmt, machine⟩ => (execute steps stmt machine).failure?
  | ⟨steps, .operands exprs, machine⟩ => (evaluateAll (evaluate steps) exprs machine).failure?
  | ⟨steps, .expression expr, machine⟩ => (evaluate steps expr machine).failure?

theorem Expr.Formed.first {expr inner : Expr} (formed : expr.Formed named)
    (first : expr.first? = some inner) : inner.Formed named := by
  cases formed <;> cases first <;> assumption

theorem Expr.Formed.subscript? {expr object index : Expr} (formed : expr.Formed named)
    (element : expr.subscript? = some (object, index)) :
    object.Formed named ∧ index.Formed named := by
  cases formed <;> cases element <;> exact ⟨‹_›, ‹_›⟩

theorem Stmt.Formed.first {stmt : Stmt} {inner : Expr} (formed : stmt.Formed named)
    (first : stmt.first? = some inner) : inner.Formed named := by
  cases formed with
  | expression ofInner | print ofInner =>
    cases first
    exact ofInner
  | branch tested | loop tested =>
    cases first
    exact tested
  | declare _ each | returning each => exact each inner first
  | block | function => cases first

namespace Activity

variable {activity inner : Activity}

/-- What a formed activity comes to is formed. -/
theorem Enters.formed (enters : activity.Enters inner) (formed : activity.Formed named) :
    inner.Formed named := by
  obtain ⟨task, machine⟩ := formed
  cases enters with
  | program => exact ⟨task, machine⟩
  | head => exact ⟨(List.forall_mem_cons.mp task).1, machine⟩
  | tail goesOn =>
    obtain ⟨first, others⟩ := List.forall_mem_cons.mp task
    exact ⟨others, ((machine.execute _ first).of_done goesOn).2⟩
  | operand => exact ⟨(List.forall_mem_cons.mp task).1, machine⟩
  | further found =>
    obtain ⟨first, others⟩ := List.forall_mem_cons.mp task
    exact ⟨others, ((machine.evaluate _ first).of_done found).2⟩
  | condition first => exact ⟨Stmt.Formed.first task first, machine⟩
  | block =>
    cases task with
    | block each => exact ⟨each, machine.enter _⟩
  | consequence found =>
    cases task with
    | branch tested inner =>
      exact ⟨inner, ((machine.evaluate _ tested).of_done found).2⟩
  | alternative found =>
    cases task with
    | branch tested _ _ other =>
      exact ⟨other _ rfl, ((machine.evaluate _ tested).of_done found).2⟩
  | body found =>
    cases task with
    | loop tested inner =>
      exact ⟨inner, ((machine.evaluate _ tested).of_done found).2⟩
  | again found _ goesOn =>
    cases task with
    | loop tested inner plain =>
      have middle := ((machine.evaluate _ tested).of_done found).2
      exact ⟨.loop tested inner plain,
        ((middle.execute _ inner).of_done goesOn).2⟩
  | inner first => exact ⟨Expr.Formed.first task first, machine⟩
  | otherwise found =>
    cases task with
    | logical first _ second =>
      exact ⟨second, ((machine.evaluate _ first).of_done found).2⟩
  | right found =>
    cases task with
    | binary first _ second =>
      exact ⟨second, ((machine.evaluate _ first).of_done found).2⟩
  | index element found =>
    obtain ⟨object, index⟩ := Expr.Formed.subscript? task element
    exact ⟨index, ((machine.evaluate _ object).of_done found).2⟩
  | stored found =>
    cases task with
    | store left _ place right =>
      exact ⟨right, ((machine.subscriptTarget _ _ left place).of_done found).2⟩
  | elements =>
    cases task with
    | array _ each => exact ⟨each, machine⟩
  | arguments found =>
    cases task with
    | call function _ _ each =>
      exact ⟨each, ((machine.evaluate _ function).of_done found).2⟩
  | call called given _ bound =>
    cases task with
    | call function _ _ each =>
      obtain ⟨ofCallee, middle⟩ := (machine.evaluate _ function).of_done called
      obtain ⟨ofValues, after⟩ := (middle.evaluateAll _ each).of_done given
      cases ofCallee with
      | function _ parameters _ ofBody =>
        exact ⟨ofBody, (((after.enter _).bindParameters parameters ofValues).of_done bound).2⟩

/-- A formed activity that ends leaves a formed machine, and it ends with no failure that an
operator falls through to. -/
theorem Formed.ends (formed : activity.Formed named) :
    (∀ machine, activity.after? = some machine → machine.Formed named Native.any) ∧
      ∀ failure, activity.failure? = some failure → failure.fallsThrough = false := by
  obtain ⟨steps, task, machine⟩ := activity
  obtain ⟨ofTask, ofMachine⟩ := formed
  cases task with
  | program statements => exact (ofMachine.interpret steps ofTask).ends
  | sequence statements => exact (ofMachine.executeAll steps ofTask).ends
  | statement stmt => exact (ofMachine.execute steps ofTask).ends
  | operands exprs => exact (ofMachine.evaluateAll steps ofTask).ends
  | expression expr => exact (ofMachine.evaluate steps ofTask).ends

end Activity

/-- The value that an activity gives to whoever asked for it. -/
def Activity.value? : Activity → Option Value
  | ⟨steps, .expression expr, machine⟩ => (evaluate steps expr machine).value?
  | ⟨steps, .statement stmt, machine⟩ => (execute steps stmt machine).value?.bind Flow.value?
  | ⟨steps, .sequence statements, machine⟩ =>
    (executeAll (execute steps) statements machine).value?.bind Flow.value?
  | ⟨_, .program _, _⟩ | ⟨_, .operands _, _⟩ => none

/-- The tasks whose code is what some parse has given. -/
inductive Task.Parsed : Task → Prop where
  | program {stream : TokenStream} {statements : List Stmt}
      (parsed : stream.program.1 = .ok statements) : Parsed (.program statements)
  | sequence {stream : TokenStream} {statements : List Stmt}
      (parsed : stream.program.1 = .ok statements) : Parsed (.sequence statements)
  | statement {stream : TokenStream} {statements : List Stmt} {stmt : Stmt}
      (parsed : stream.program.1 = .ok statements) (member : stmt ∈ statements) :
      Parsed (.statement stmt)
  | expression {stream : TokenStream} {expr : Expr} (parsed : stream.expression.1 = .ok expr) :
      Parsed (.expression expr)

/-- The machines that a session comes to in which all code that runs is parsed, each with the values
that its host holds. The host may define functions of its own and hand in data, make scopes, bind in
any scope what it holds, read names and elements, and run tasks in any scope. -/
inductive ParsedSession (reading : Nat → Float) (output : Output) :
    Machine → List Value → Prop where
  | start : ParsedSession reading output (.fresh reading output) []
  | host {machine : Machine} {held : List Value} (name : String) (arity : Nat)
      (native : Native) (before : ParsedSession reading output machine held) :
      ParsedSession reading output (machine.defineHost name arity native) held
  | datum {machine : Machine} {held : List Value} (datum : Datum)
      (before : ParsedSession reading output machine held) :
      ParsedSession reading output (machine.place datum).2 ((machine.place datum).1 :: held)
  | scope {machine : Machine} {held : List Value} (parent : Option ScopeId)
      (before : ParsedSession reading output machine held) :
      ParsedSession reading output (machine.addScope parent).2 held
  | bind {machine : Machine} {held : List Value} {value : Value} (scope : ScopeId) (name : String)
      (known : value ∈ held) (before : ParsedSession reading output machine held) :
      ParsedSession reading output (machine.bind scope name value) held
  | read {machine : Machine} {held : List Value} {value : Value} {scope : ScopeId} {name : String}
      {line : Nat} (found : machine.read scope name line = .ok value)
      (before : ParsedSession reading output machine held) :
      ParsedSession reading output machine (value :: held)
  | element {machine : Machine} {held : List Value} {value : Value} {id : ArrayId}
      (found : value ∈ machine.heap.elements id)
      (before : ParsedSession reading output machine held) :
      ParsedSession reading output machine (value :: held)
  | run {machine after : Machine} {held : List Value} {steps : Nat} {task : Task} {scope : ScopeId}
      (parsed : task.Parsed)
      (ended : Activity.after? ⟨steps, task, { machine with active := scope }⟩ = some after)
      (before : ParsedSession reading output machine held) :
      ParsedSession reading output { after with active := machine.active }
        ((Activity.value? ⟨steps, task, { machine with active := scope }⟩).toList ++ held)

/-- What parses as a program is formed. -/
theorem TokenStream.program_formed {stream : TokenStream} {statements : List Stmt}
    (parsed : stream.program.1 = .ok statements) :
    ∀ stmt ∈ statements, stmt.Formed Token.Names :=
  (stream.program_eq_ok.mp parsed).formed fun _ _ found => found

/-- What parses as an expression is formed. -/
theorem TokenStream.expression_formed {stream : TokenStream} {expr : Expr}
    (parsed : stream.expression.1 = .ok expr) : expr.Formed Token.Names :=
  (stream.expression_eq_ok.mp parsed).formed fun _ _ found => found

theorem Task.Parsed.formed {task : Task} (parsed : task.Parsed) : task.Formed Token.Names := by
  cases parsed with
  | program parsed | sequence parsed => exact TokenStream.program_formed parsed
  | statement parsed member => exact TokenStream.program_formed parsed _ member
  | expression parsed => exact TokenStream.expression_formed parsed

theorem Task.Parsed.activity {task : Task} {machine : Machine} (parsed : task.Parsed)
    (formed : machine.Formed Token.Names Native.any) (steps : Nat) (scope : ScopeId) :
    Activity.Formed Token.Names ⟨steps, task, { machine with active := scope }⟩ :=
  ⟨parsed.formed, formed.withActive scope⟩

namespace Activity

variable {activity : Activity}

theorem Formed.value? (formed : activity.Formed named) :
    ∀ value ∈ activity.value?, value.Formed named Native.any := by
  intro value given
  obtain ⟨steps, task, start⟩ := activity
  obtain ⟨ofTask, ofStart⟩ := formed
  cases task with
  | program | operands => cases given
  | expression expr => exact (ofStart.evaluate steps ofTask).value? given
  | statement stmt =>
    obtain ⟨flow, ended, returned⟩ := Option.bind_eq_some_iff.mp given
    exact ((ofStart.execute steps ofTask).value? ended).value? returned
  | sequence statements =>
    obtain ⟨flow, ended, returned⟩ := Option.bind_eq_some_iff.mp given
    exact ((ofStart.executeAll steps ofTask).value? ended).value? returned

end Activity

namespace Machine.Formed

variable {machine : Machine}

mutual

/-- Data hold no functions. -/
theorem place {heap : Heap}
    (formed : Machine.Formed named Native.any { machine with heap := heap }) :
    (datum : Datum) → (datum.place heap).1.Formed named Native.any ∧
      Machine.Formed named Native.any { machine with heap := (datum.place heap).2 }
  | .nil | .boolean _ | .number _ | .string _ => ⟨trivial, formed⟩
  | .list items => by
    obtain ⟨values, after⟩ := placeAll formed items
    exact ⟨trivial, after.addArray values⟩

theorem placeAll {heap : Heap}
    (formed : Machine.Formed named Native.any { machine with heap := heap }) :
    (items : List Datum) →
      (∀ value ∈ (Datum.placeAll heap items).1, value.Formed named Native.any) ∧
        Machine.Formed named Native.any
          { machine with heap := (Datum.placeAll heap items).2 }
  | [] => ⟨by simp [Datum.placeAll], formed⟩
  | item :: rest => by
    obtain ⟨value, middle⟩ := place formed item
    obtain ⟨values, after⟩ := placeAll middle rest
    exact ⟨List.forall_mem_cons.mpr ⟨value, values⟩, after⟩

end

end Machine.Formed

/-- All that a session of parsed code keeps is formed, and so is all that its host holds. -/
theorem ParsedSession.formed {reading : Nat → Float} {output : Output} {machine : Machine}
    {held : List Value} (session : ParsedSession reading output machine held) :
    machine.Formed Token.Names Native.any ∧
      ∀ value ∈ held, value.Formed Token.Names Native.any := by
  induction session with
  | start => exact ⟨Machine.formed_fresh reading output trivial, by simp⟩
  | @host machine _ name arity native _ ih =>
    have function : Value.Formed Token.Names Native.any
        (.function machine.functions (.host name arity native)) := trivial
    have defined := ih.1.define function globalScope name
    exact ⟨⟨defined.bound, defined.kept⟩, ih.2⟩
  | datum datum _ ih =>
    obtain ⟨value, after⟩ := ih.1.place datum
    exact ⟨after, List.forall_mem_cons.mpr ⟨value, ih.2⟩⟩
  | scope parent _ ih => exact ⟨(ih.1.enter parent).withActive _, ih.2⟩
  | bind scope name known _ ih => exact ⟨ih.1.define (ih.2 _ known) scope name, ih.2⟩
  | @read machine _ value scope name _ found _ ih =>
    refine ⟨ih.1, List.forall_mem_cons.mpr ⟨?_, ih.2⟩⟩
    unfold Machine.read at found
    split at found
    · cases found
      exact ih.1.get? ‹_›
    · cases found
  | element found _ ih => exact ⟨ih.1, List.forall_mem_cons.mpr ⟨ih.1.kept _ _ found, ih.2⟩⟩
  | @run _ _ _ steps _ scope parsed ended _ ih =>
    have start := parsed.activity ih.1 steps scope
    refine ⟨(start.ends.1 _ ended).withActive _, List.forall_mem_append.mpr ⟨?_, ih.2⟩⟩
    simpa using start.value?

/-- A call with another number of arguments than the function has parameters fails on the machine
that the arguments leave. -/
theorem evaluate_misfit {steps : Nat} {callee : Expr} {paren : Token} {exprs : List Expr}
    {id : FunctionId} {callable : Callable} {values : List Value} {machine middle after : Machine}
    (called : evaluate steps callee machine = .done (.function id callable) middle)
    (given : evaluateAll (evaluate steps) exprs middle = .done values after)
    (misfit : values.length ≠ callable.arity) :
    evaluate (steps + 1) (.call callee paren exprs) machine =
      .failed (.runtime ⟨.arity callable.arity values.length, paren.line⟩) after := by
  show Eval.bind (evaluate steps callee) _ machine = _
  rw [Eval.bind, called]
  show Eval.bind (evaluateAll (evaluate steps) exprs) _ middle = _
  rw [Eval.bind, given]
  exact congrFun (invoke_misfit misfit) after

/-- What parses is formed: operators, brackets and names are of their categories, lists are no
longer than 255, and no branch or loop has a declaration for its body. So in a session in which all
code that runs is parsed, also in functions declared earlier, all code that it comes to and all that
it keeps is formed, and nothing ends with a fault that an operator falls through to. A function is
called with as many arguments as it has parameters, or its body is not entered. -/
theorem parsed_code_is_formed :
    (∀ (stream : TokenStream) (statements : List Stmt), stream.program.1 = .ok statements →
      ∀ stmt ∈ statements, stmt.Formed Token.Names) ∧
    (∀ (stream : TokenStream) (expr : Expr), stream.expression.1 = .ok expr →
      expr.Formed Token.Names) ∧
    (∀ reading output machine held, ParsedSession reading output machine held →
      ∀ steps task scope, task.Parsed → ∀ activity, Relation.ReflTransGen Activity.Enters
          ⟨steps, task, { machine with active := scope }⟩ activity →
        activity.task.Formed Token.Names ∧
        activity.machine.Formed Token.Names Native.any ∧
        ∀ failure, activity.failure? = some failure → failure.fallsThrough = false) ∧
    ∀ steps callee paren exprs machine id declaration closure values middle after,
      evaluate steps callee machine =
          .done (.function id (.declared declaration closure)) middle →
        evaluateAll (evaluate steps) exprs middle = .done values after →
          values.length = declaration.parameters.length ∨
            evaluate (steps + 1) (.call callee paren exprs) machine =
              .failed (.runtime
                ⟨.arity declaration.parameters.length values.length, paren.line⟩) after := by
  refine ⟨?_, ?_, ?_, ?_⟩
  · intro stream statements parsed
    exact TokenStream.program_formed parsed
  · intro stream expr parsed
    exact TokenStream.expression_formed parsed
  · intro reading output machine held session steps task scope parsed activity path
    have formed : activity.Formed Token.Names := by
      induction path with
      | refl => exact parsed.activity session.formed.1 steps scope
      | tail _ enters ih => exact enters.formed ih
    exact ⟨formed.task, formed.machine, formed.ends.2⟩
  · intro steps callee paren exprs machine id declaration closure values middle after called given
    by_cases fits : values.length = declaration.parameters.length
    · exact .inl fits
    · exact .inr (evaluate_misfit called given fits)

end Script
