import Script.Proofs.Evaluation.Twins

/-! Runs of formed code beside runs of the same code with other names. Every construct keeps twins,
and the operators of formed code never fall through, so whole runs end together. -/

namespace Script

namespace Renaming

variable {scheme : Renaming} {α β : Type} {steps : Nat}

/-- A formed value, or a fault that is told without a name and by an operator that is known. -/
def Sound (scheme : Renaming) : Except RuntimeCause Value → Prop
  | .ok value => value.Formed scheme.named scheme.hosts
  | .error cause => cause.fallsThrough = false ∧ cause.rename scheme.change = cause

/-- Replies of the host with formed values, if any, that are the same but for names. -/
def replies (scheme : Renaming) (reply reply' : Except String Value) : Prop :=
  (∀ value, reply = .ok value → value.Formed scheme.named scheme.hosts) ∧
    reply' = reply.map (Value.rename scheme.change)

theorem replies_ok {value value' : Value} (same : scheme.values value value') :
    scheme.replies (.ok value) (.ok value') :=
  ⟨fun _ given => Except.ok.inj given ▸ same.1, congrArg Except.ok same.2⟩

theorem replies_error (message : String) : scheme.replies (.error message) (.error message) :=
  ⟨fun _ given => (by cases given), rfl⟩

theorem unary_sound {operator : Token}
    (known : operator.is .bang = true ∨ operator.is .minus = true) (right : Value) :
    scheme.Sound (Operator.unary operator right) := by
  rcases known with bang | minus
  · simp only [Operator.unary, Token.is_iff.mp bang, Kind.tag?]
    trivial
  · simp only [Operator.unary, Token.is_iff.mp minus, Kind.tag?]
    cases right with
    | number value => trivial
    | _ => exact ⟨rfl, rfl⟩

theorem add_sound (left right : Value) : scheme.Sound (Operator.add left right) := by
  cases left with
  | number | string =>
    cases right with
    | number | string => trivial
    | _ => exact ⟨rfl, rfl⟩
  | _ => exact ⟨rfl, rfl⟩

theorem ofNumbers_sound {apply : Float → Float → Value}
    (formed : ∀ first second, (apply first second).Formed scheme.named scheme.hosts)
    (operator : Token) (left right : Value) :
    scheme.Sound (Operator.ofNumbers operator apply left right) := by
  cases left with
  | number first =>
    cases right with
    | number second => exact formed first second
    | _ => exact ⟨rfl, rfl⟩
  | _ => exact ⟨rfl, rfl⟩

theorem binary_sound {operator : Token}
    (known : ∃ tag ∈ binaryOperators, operator.is tag = true) (heap : Heap) (left right : Value) :
    scheme.Sound (Operator.binary heap operator left right) := by
  obtain ⟨tag, member, found⟩ := known
  have numbers (zero : Bool) {apply : Float → Float → Value}
      (formed : ∀ first second, (apply first second).Formed scheme.named scheme.hosts) :
      scheme.Sound (if zero = true then .error .divisionByZero
        else Operator.ofNumbers operator apply left right) := by
    split
    · exact ⟨rfl, rfl⟩
    · exact ofNumbers_sound formed operator left right
  simp only [Operator.binary, Token.is_iff.mp found, Kind.tag?]
  cases tag with
  | equalEqual | bangEqual => trivial
  | plus => exact add_sound left right
  | minus | star | slash | greater | greaterEqual | less | lessEqual =>
    exact numbers _ fun _ _ => trivial
  | _ => exact absurd member (by decide)

namespace Runs

/-- A sound result and the same with other names. -/
theorem require {token : Token} {result : Except RuntimeCause Value}
    (sound : scheme.Sound result) :
    scheme.Quiet scheme.values (Eval.require token result)
      (Eval.require token (result.map (Value.rename scheme.change))) := by
  cases result with
  | ok value => exact pure ⟨sound, rfl⟩
  | error cause =>
    obtain ⟨known, same⟩ := sound
    have raised : scheme.Quiet scheme.values (Eval.raise token cause) _ := raise known rfl
    rwa [same] at raised

variable {eval eval' : Expr → Eval Value} {prints prints' : Expr → Machine → List Printed}

theorem evaluateAll {exprs : List Expr}
    (evaluates : ∀ expr ∈ exprs, scheme.Runs scheme.values (eval expr) (prints expr)
      (eval' (expr.rename scheme.change)) (prints' (expr.rename scheme.change))) :
    scheme.Runs scheme.lists (evaluateAll eval exprs) (printsAll eval prints exprs)
      (evaluateAll eval' (Expr.renameAll scheme.change exprs))
      (printsAll eval' prints' (Expr.renameAll scheme.change exprs)) := by
  induction exprs with
  | nil => exact pure ⟨by simp, rfl⟩
  | cons expr rest ih =>
    obtain ⟨first, others⟩ := List.forall_mem_cons.mp evaluates
    refine bind first fun value value' same => ?_
    refine thenQuiet (ih others) fun values values' alike => ?_
    obtain ⟨formed, rfl⟩ := same
    obtain ⟨allFormed, rfl⟩ := alike
    exact pure ⟨List.forall_mem_cons.mpr ⟨formed, allFormed⟩, rfl⟩

theorem evaluateOptional {expr : Option Expr}
    (evaluates : ∀ inner ∈ expr, scheme.Runs scheme.values (eval inner) (prints inner)
      (eval' (inner.rename scheme.change)) (prints' (inner.rename scheme.change))) :
    scheme.Runs scheme.values (evaluateOptional eval expr) (printsOptional prints expr)
      (evaluateOptional eval' (expr.map (Expr.rename scheme.change)))
      (printsOptional prints' (expr.map (Expr.rename scheme.change))) := by
  cases expr with
  | none => exact pure ⟨trivial, rfl⟩
  | some inner => exact evaluates inner rfl

theorem subscriptTarget {object index : Expr} (bracket : Token)
    (ofObject : scheme.Runs scheme.values (eval object) (prints object)
      (eval' (object.rename scheme.change)) (prints' (object.rename scheme.change)))
    (ofIndex : scheme.Runs scheme.values (eval index) (prints index)
      (eval' (index.rename scheme.change)) (prints' (index.rename scheme.change))) :
    scheme.Runs Eq (subscriptTarget eval object bracket index)
      (printsTarget eval prints object index)
      (subscriptTarget eval' (object.rename scheme.change) bracket (index.rename scheme.change))
      (printsTarget eval' prints' (object.rename scheme.change) (index.rename scheme.change)) := by
  refine bind ofObject fun value value' same => ?_
  obtain ⟨_, rfl⟩ := same
  cases value with
  | array array =>
    refine thenQuiet ofIndex fun place place' same => ?_
    obtain ⟨_, rfl⟩ := same
    cases place with
    | number number => exact pure rfl
    | _ => exact raise rfl rfl
  | _ => exact raise rfl rfl

theorem locate (array : ArrayId) (bracket : Token) (number : Float) :
    scheme.Quiet Eq (locate array bracket number) (locate array bracket number) := by
  let related (result result' : Except RuntimeCause Nat) : Prop :=
    result' = result ∧ (result = .error .indexOutOfRange ∨ ∃ place, result = .ok place)
  have seen : scheme.Quiet related
      (Eval.inspect fun machine => arrayPlace machine.heap array number)
      (Eval.inspect fun machine => arrayPlace machine.heap array number) := by
    refine inspect (arrayPlace · array number) (arrayPlace · array number)
      fun machine _ => ⟨arrayPlace_mapCallable _ machine.heap array number, ?_⟩
    unfold arrayPlace
    split
    · exact .inr ⟨_, rfl⟩
    · exact .inl rfl
  refine thenQuiet seen fun result result' same => ?_
  obtain ⟨rfl, rfl | ⟨place, rfl⟩⟩ := same
  · exact raise rfl rfl
  · exact pure rfl

theorem bindParameters {parameters : List Token} {arguments arguments' : List Value}
    (names : ∀ parameter ∈ parameters, scheme.named parameter)
    (same : scheme.lists arguments arguments') :
    scheme.Quiet Eq (bindParameters parameters arguments)
      (bindParameters (parameters.map (Token.rename scheme.change)) arguments') := by
  obtain ⟨formed, rfl⟩ := same
  induction parameters generalizing arguments with
  | nil => exact pure rfl
  | cons parameter parameters ih =>
    obtain ⟨named, others⟩ := List.forall_mem_cons.mp names
    cases arguments with
    | nil => exact pure rfl
    | cons argument arguments =>
      obtain ⟨first, rest⟩ := List.forall_mem_cons.mp formed
      exact thenQuiet (define named ⟨first, rfl⟩) fun _ _ _ => ih others rest

theorem text {value value' : Value} (same : scheme.values value value')
    (kept : scheme.change = id) :
    scheme.Quiet Eq (Eval.inspect fun machine => value.text machine.heap)
      (Eval.inspect fun machine => value'.text machine.heap) := by
  obtain ⟨_, rfl⟩ := same
  refine inspect value.text (Value.text · (value.rename scheme.change)) fun machine _ => ?_
  rw [kept, Value.text_rename_id]

theorem equals {left left' right right' : Value} (first : scheme.values left left')
    (second : scheme.values right right') :
    scheme.Quiet Eq (Eval.inspect fun machine => left.equals machine.heap right)
      (Eval.inspect fun machine => left'.equals machine.heap right') := by
  obtain ⟨_, rfl⟩ := first
  obtain ⟨_, rfl⟩ := second
  exact inspect (left.equals · right) (Value.equals · (left.rename scheme.change) _)
    fun machine _ => (Value.equals_mapCallable _ machine.heap left right).symm

theorem size (array : ArrayId) :
    scheme.Quiet Eq (Eval.inspect fun machine => (machine.heap.elements array).size)
      (Eval.inspect fun machine => (machine.heap.elements array).size) :=
  inspect (fun heap => (heap.elements array).size) (fun heap => (heap.elements array).size)
    fun machine _ => by rw [Heap.elements_map, Array.size_map]

theorem element (array : ArrayId) (place : Nat) :
    scheme.Quiet scheme.values
      (Eval.inspect fun machine => (machine.heap.elements array).getD place .nil)
      (Eval.inspect fun machine => (machine.heap.elements array).getD place .nil) := by
  refine inspect (fun heap => (heap.elements array).getD place .nil)
    (fun heap => (heap.elements array).getD place .nil) fun machine formed => ?_
  refine ⟨formed.element array place, ?_⟩
  simp only [Heap.elements_map, Array.getD_eq_getD_getElem?, Array.getElem?_map]
  cases (machine.heap.elements array)[place]? <;> rfl

theorem binary {operator : Token} {left left' right right' : Value}
    (known : ∃ tag ∈ binaryOperators, operator.is tag = true) (first : scheme.values left left')
    (second : scheme.values right right') :
    scheme.Quiet scheme.values
      (do
        Eval.require operator
          (← Eval.inspect fun machine => Operator.binary machine.heap operator left right))
      (do
        Eval.require operator
          (← Eval.inspect fun machine => Operator.binary machine.heap operator left' right')) := by
  obtain ⟨_, rfl⟩ := first
  obtain ⟨_, rfl⟩ := second
  let related (result result' : Except RuntimeCause Value) : Prop :=
    scheme.Sound result ∧ result' = result.map (Value.rename scheme.change)
  have seen : scheme.Quiet related
      (Eval.inspect fun machine => Operator.binary machine.heap operator left right)
      (Eval.inspect fun machine => Operator.binary machine.heap operator
        (left.rename scheme.change) (right.rename scheme.change)) := by
    refine inspect (Operator.binary · operator left right) (Operator.binary · operator _ _)
      fun machine _ => ⟨binary_sound known machine.heap left right, ?_⟩
    exact Operator.binary_mapCallable _ machine.heap operator left right
  refine thenQuiet seen fun result result' same => ?_
  obtain ⟨sound, rfl⟩ := same
  exact require sound

/-- A missing argument counts as nil, under any names. -/
theorem argument {arguments arguments' : List Value} (same : scheme.lists arguments arguments')
    (place : Nat) : scheme.values (arguments.getD place .nil) (arguments'.getD place .nil) := by
  obtain ⟨formed, rfl⟩ := same
  simp only [values, List.getD_eq_getElem?_getD, List.getElem?_map]
  cases found : arguments[place]? with
  | none => exact ⟨trivial, rfl⟩
  | some value => exact ⟨formed value (List.mem_of_getElem? found), rfl⟩

theorem twice {arguments arguments' : List Value} (same : scheme.lists arguments arguments') :
    scheme.replies (HostOperation.twice arguments) (HostOperation.twice arguments') := by
  obtain ⟨_, rfl⟩ := same
  cases arguments with
  | nil => exact replies_error _
  | cons first others =>
    cases others with
    | nil =>
      cases first with
      | number value => exact replies_ok ⟨trivial, rfl⟩
      | _ => exact replies_error _
    | cons second rest => cases first <;> exact replies_error _

/-- The operations of the host at hand. -/
theorem operation (operation : HostOperation) (kept : scheme.change = id)
    {arguments arguments' : List Value} (same : scheme.lists arguments arguments') :
    scheme.Quiet scheme.replies (operation.run arguments) (operation.run arguments') := by
  have first := argument same 0
  have second := argument same 1
  cases operation with
  | typeName =>
    obtain ⟨_, renamed⟩ := first
    simp only [HostOperation.run, renamed, Value.typeName_mapCallable]
    exact pure (replies_ok ⟨trivial, rfl⟩)
  | text =>
    refine thenQuiet (text first kept) fun shown shown' same => ?_
    subst same
    exact pure (replies_ok ⟨trivial, rfl⟩)
  | same =>
    refine thenQuiet (equals first second) fun equal equal' same => ?_
    subst same
    exact pure (replies_ok ⟨trivial, rfl⟩)
  | length =>
    obtain ⟨_, renamed⟩ := first
    simp only [HostOperation.run, renamed]
    cases arguments.getD 0 .nil with
    | array id =>
      refine thenQuiet (size id) fun count count' same => ?_
      subst same
      exact pure (replies_ok ⟨trivial, rfl⟩)
    | _ => exact pure (replies_error _)
  | append =>
    obtain ⟨_, renamed⟩ := first
    simp only [HostOperation.run, renamed]
    cases arguments.getD 0 .nil with
    | array id =>
      refine thenQuiet (appendElement second id) fun _ _ _ => ?_
      exact pure (replies_ok ⟨trivial, rfl⟩)
    | _ => exact pure (replies_error _)
  | double => exact pure (twice same)
  | collect =>
    refine thenQuiet (newArray same) fun value value' same => ?_
    exact pure (replies_ok same)
  | refuse => exact pure (replies_error _)

theorem host {native : Native} (allowed : scheme.hosts native) (paren : Token)
    {arguments arguments' : List Value} (same : scheme.lists arguments arguments') :
    scheme.Quiet scheme.values (native.run paren arguments) (native.run paren arguments') := by
  cases native with
  | clock =>
    refine thenQuiet readClock fun reading reading' same => ?_
    exact pure ⟨trivial, congrArg Value.number same.symm⟩
  | supplied key =>
    have called : scheme.Quiet scheme.replies (Host.call key arguments)
        (Host.call key arguments') := by
      simp only [Host.call]
      split
      · exact operation _ (scheme.quiet allowed) same
      · exact pure (replies_error _)
    refine thenQuiet called fun reply reply' same => ?_
    obtain ⟨formed, rfl⟩ := same
    cases reply with
    | ok value => exact pure ⟨formed value rfl, rfl⟩
    | error message => exact raise rfl rfl

variable {exec exec' : Stmt → Eval Flow} {tells tells' : Stmt → Machine → List Printed}

theorem executeAll {statements : List Stmt}
    (executes : ∀ stmt ∈ statements, scheme.Runs scheme.Flows (exec stmt) (tells stmt)
      (exec' (stmt.rename scheme.change)) (tells' (stmt.rename scheme.change))) :
    scheme.Runs scheme.Flows (executeAll exec statements) (printsInOrder exec tells statements)
      (executeAll exec' (Stmt.renameAll scheme.change statements))
      (printsInOrder exec' tells' (Stmt.renameAll scheme.change statements)) := by
  induction statements with
  | nil => exact pure .normal
  | cons stmt rest ih =>
    obtain ⟨first, others⟩ := List.forall_mem_cons.mp executes
    refine bind first fun flow flow' same => ?_
    cases same with
    | normal => exact ih others
    | returned same => exact pure (.returned same)

theorem invoke {callee callee' : Value} (paren : Token) {arguments arguments' : List Value}
    (executes : ∀ stmt : Stmt, stmt.Formed scheme.named → scheme.Runs scheme.Flows (exec stmt)
      (tells stmt) (exec' (stmt.rename scheme.change)) (tells' (stmt.rename scheme.change)))
    (called : scheme.values callee callee') (given : scheme.lists arguments arguments') :
    scheme.Runs scheme.values (invoke exec callee paren arguments)
      (printsCall exec tells callee arguments) (invoke exec' callee' paren arguments')
      (printsCall exec' tells' callee' arguments') := by
  obtain ⟨formed, rfl⟩ := called
  have length : arguments'.length = arguments.length := by
    rw [given.2, List.length_map]
  cases callee with
  | function id callable =>
    rw [Value.rename, Value.mapCallable]
    by_cases fits : arguments.length = callable.arity
    · have fits' : arguments'.length = (callable.rename scheme.change).arity := by
        rw [length, fits, Callable.arity_rename]
      cases callable with
      | host name arity native =>
        simp only [Callable.rename, Callable.arity] at fits fits' ⊢
        rw [invoke_host fits, invoke_host fits']
        exact host formed paren given
      | declared declaration closure =>
        simp only [Callable.rename, Callable.arity] at fits fits' ⊢
        cases formed with
        | function _ parameters _ inner =>
          have body := quietThen (bindParameters parameters given) fun _ _ _ =>
            executeAll fun stmt member => executes stmt (inner stmt member)
          rw [invoke_declared fits, printsCall_declared fits, invoke_declared fits',
            printsCall_declared fits']
          refine thenQuiet (inScope (some closure) body) fun flow flow' same => ?_
          cases same with
          | normal => exact pure ⟨trivial, rfl⟩
          | returned same => exact pure same
    · have fits' : arguments'.length ≠ (callable.rename scheme.change).arity := by
        rwa [length, Callable.arity_rename]
      rw [invoke_misfit fits, invoke_misfit fits', printsCall_misfit fits, printsCall_misfit fits',
        length, Callable.arity_rename]
      exact raise rfl rfl
  | _ => exact raise rfl rfl

end Runs

/-- Expressions that are formed run together with the same under other names. -/
def Evaluates (scheme : Renaming) (steps : Nat) : Prop :=
  ∀ expr : Expr, expr.Formed scheme.named →
    scheme.Runs scheme.values (evaluate steps expr) (expr.prints steps)
      (evaluate steps (expr.rename scheme.change)) ((expr.rename scheme.change).prints steps)

/-- Statements that are formed run together with the same under other names. -/
def Executes (scheme : Renaming) (steps : Nat) : Prop :=
  ∀ stmt : Stmt, stmt.Formed scheme.named →
    scheme.Runs scheme.Flows (execute steps stmt) (stmt.prints steps)
      (execute steps (stmt.rename scheme.change)) ((stmt.rename scheme.change).prints steps)

open Runs

/-- One more step of evaluation is kept if what it calls is. -/
theorem evaluate_step (evaluates : scheme.Evaluates steps) (executes : scheme.Executes steps) :
    scheme.Evaluates (steps + 1) := by
  intro expr formed
  cases formed with
  | literal value => exact pure ⟨.literal value, (Value.mapCallable_literal _ value).symm⟩
  | reference names => exact lookUp names
  | grouping within => exact evaluates _ within
  | assign names inner =>
    refine thenQuiet (evaluates _ inner) fun value value' same => ?_
    exact thenQuiet (assign names same) fun _ _ _ => pure same
  | logical first known second =>
    refine bind (evaluates _ first) fun value value' same => ?_
    obtain ⟨formed, rfl⟩ := same
    rw [Operator.settles_mapCallable]
    split
    · exact pure ⟨formed, rfl⟩
    · exact evaluates _ second
  | unary known operand =>
    refine thenQuiet (evaluates _ operand) fun value value' same => ?_
    obtain ⟨_, rfl⟩ := same
    rw [Operator.unary_mapCallable]
    exact require (unary_sound known value)
  | binary first known second =>
    refine bind (evaluates _ first) fun left left' same => ?_
    exact thenQuiet (evaluates _ second) fun right right' alike => binary known same alike
  | call function closes few each =>
    refine bind (evaluates _ function) fun callee callee' called => ?_
    refine bind (Runs.evaluateAll fun expr member => evaluates expr (each expr member))
      fun arguments arguments' given => ?_
    exact Runs.invoke _ executes called given
  | array closes each =>
    refine thenQuiet (Runs.evaluateAll fun expr member => evaluates expr (each expr member)) ?_
    exact fun items items' same => newArray same
  | subscript left closes place =>
    refine thenQuiet (Runs.subscriptTarget _ (evaluates _ left) (evaluates _ place)) ?_
    rintro ⟨array, number⟩ _ rfl
    exact thenQuiet (Runs.locate array _ number) fun place _ same => same ▸ element array place
  | store left closes place right =>
    refine bind (Runs.subscriptTarget _ (evaluates _ left) (evaluates _ place)) ?_
    rintro ⟨array, number⟩ _ rfl
    refine thenQuiet (evaluates _ right) fun value value' same => ?_
    refine thenQuiet (Runs.locate array _ number) fun place _ found => ?_
    subst found
    exact thenQuiet (writeElement same array place) fun _ _ _ => pure same

/-- One more step of a statement is kept if what it calls is. -/
theorem execute_step (evaluates : scheme.Evaluates steps) (executes : scheme.Executes steps) :
    scheme.Executes (steps + 1) := by
  intro stmt formed
  cases formed with
  | expression inner => exact thenQuiet (evaluates _ inner) fun _ _ _ => pure .normal
  | print inner => exact bind (evaluates _ inner) fun value value' same => print same
  | declare names first =>
    have initial := Runs.evaluateOptional fun expr member => evaluates expr (first expr member)
    refine thenQuiet initial ?_
    exact fun value value' same => thenQuiet (define names same) fun _ _ _ => pure .normal
  | block each =>
    exact block (Runs.executeAll fun stmt member => executes stmt (each stmt member))
  | @branch _ _ alternative tested inner plain other otherPlain =>
    cases alternative with
    | none =>
      refine bind (evaluates _ tested) fun value value' same => ?_
      obtain ⟨_, rfl⟩ := same
      rw [Value.isTruthy_mapCallable]
      split
      · exact executes _ inner
      · exact pure .normal
    | some alternative =>
      refine bind (evaluates _ tested) fun value value' same => ?_
      obtain ⟨_, rfl⟩ := same
      rw [Value.isTruthy_mapCallable]
      split
      · exact executes _ inner
      · exact executes _ (other alternative rfl)
  | loop tested inner plain =>
    refine bind (evaluates _ tested) fun value value' same => ?_
    obtain ⟨_, rfl⟩ := same
    rw [Value.isTruthy_mapCallable]
    split
    · refine bind (executes _ inner) fun flow flow' same => ?_
      cases same with
      | normal => exact executes _ (.loop tested inner plain)
      | returned same => exact pure (.returned same)
    · exact pure .normal
  | function names each few inner =>
    refine thenQuiet activeScope fun closure _ same => ?_
    subst same
    refine thenQuiet (newFunction (.function names each few inner)) fun value value' same => ?_
    exact thenQuiet (define names same) fun _ _ _ => pure .normal
  | returning result =>
    have given := Runs.evaluateOptional fun expr member => evaluates expr (result expr member)
    refine thenQuiet given ?_
    exact fun value value' same => pure (.returned same)

/-- Whole runs are kept, by induction on the steps allowed. -/
theorem runs (scheme : Renaming) (steps : Nat) :
    scheme.Evaluates steps ∧ scheme.Executes steps := by
  induction steps with
  | zero =>
    constructor
    · intro expr _
      exact exhausted
    · intro stmt _
      exact exhausted
  | succ steps ih =>
    obtain ⟨evaluates, executes⟩ := ih
    exact ⟨evaluate_step evaluates executes, execute_step evaluates executes⟩

theorem Runs.interpret (scheme : Renaming) (steps : Nat) {program : List Stmt}
    (formed : ∀ stmt ∈ program, stmt.Formed scheme.named) :
    scheme.Runs Eq (interpret steps program) (programPrints steps program)
      (interpret steps (Stmt.renameAll scheme.change program))
      (programPrints steps (Stmt.renameAll scheme.change program)) := by
  have executes := (scheme.runs steps).2
  refine thenQuiet (Runs.executeAll fun stmt member => executes stmt (formed stmt member)) ?_
  exact fun _ _ _ => flush

end Renaming
end Script
