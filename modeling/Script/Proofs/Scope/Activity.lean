import Script.Proofs.Scope.Rooted

/-! What a session does, down to each expression and statement that it comes to. Throughout, the
scopes in which names are looked up lie within the global one, and each piece of work that ends
leaves the active scope as it found it. -/

namespace Script

/-- Whatever is run as a whole: programs, statements in order, the operands of an expression in
order, and single statements and expressions. -/
inductive Task where
  | program (statements : List Stmt)
  | sequence (statements : List Stmt)
  | statement (stmt : Stmt)
  | operands (exprs : List Expr)
  | expression (expr : Expr)

/-- A task, the machine it begins on and the steps allowed for it. -/
structure Activity where
  steps : Nat
  task : Task
  machine : Machine

/-- The machine that an activity leaves, if it ends. -/
def Activity.after? : Activity → Option Machine
  | ⟨steps, .program statements, machine⟩ => (interpret steps statements machine).machine?
  | ⟨steps, .sequence statements, machine⟩ =>
    (executeAll (execute steps) statements machine).machine?
  | ⟨steps, .statement stmt, machine⟩ => (execute steps stmt machine).machine?
  | ⟨steps, .operands exprs, machine⟩ => (evaluateAll (evaluate steps) exprs machine).machine?
  | ⟨steps, .expression expr, machine⟩ => (evaluate steps expr machine).machine?

/-- The expression that the evaluation of another begins with. -/
def Expr.first? : Expr → Option Expr
  | .grouping inner | .assign _ inner | .unary _ inner | .logical inner _ _ | .binary inner _ _
  | .call inner _ _ | .subscript inner _ _ | .store inner _ _ _ => some inner
  | .literal _ | .reference _ | .array _ _ => none

/-- The expression that a statement begins with. -/
def Stmt.first? : Stmt → Option Expr
  | .expression expr | .print expr | .branch expr _ _ | .loop expr _ => some expr
  | .declare _ expr | .returning _ expr => expr
  | .block _ | .function _ _ _ => none

/-- The object and the index of an expression on an element. -/
def Expr.subscript? : Expr → Option (Expr × Expr)
  | .subscript object _ index | .store object _ index _ => some (object, index)
  | _ => none

open Activity in
/-- One activity comes to another. -/
inductive Activity.Enters : Activity → Activity → Prop where
  | program {steps : Nat} {statements : List Stmt} {machine : Machine} :
      Enters ⟨steps, .program statements, machine⟩ ⟨steps, .sequence statements, machine⟩
  | head {steps : Nat} {stmt : Stmt} {rest : List Stmt} {machine : Machine} :
      Enters ⟨steps, .sequence (stmt :: rest), machine⟩ ⟨steps, .statement stmt, machine⟩
  | tail {steps : Nat} {stmt : Stmt} {rest : List Stmt} {machine after : Machine}
      (goesOn : execute steps stmt machine = .done .normal after) :
      Enters ⟨steps, .sequence (stmt :: rest), machine⟩ ⟨steps, .sequence rest, after⟩
  | operand {steps : Nat} {expr : Expr} {rest : List Expr} {machine : Machine} :
      Enters ⟨steps, .operands (expr :: rest), machine⟩ ⟨steps, .expression expr, machine⟩
  | further {steps : Nat} {expr : Expr} {rest : List Expr} {machine after : Machine} {value : Value}
      (found : evaluate steps expr machine = .done value after) :
      Enters ⟨steps, .operands (expr :: rest), machine⟩ ⟨steps, .operands rest, after⟩
  | condition {steps : Nat} {stmt : Stmt} {expr : Expr} {machine : Machine}
      (first : stmt.first? = some expr) :
      Enters ⟨steps + 1, .statement stmt, machine⟩ ⟨steps, .expression expr, machine⟩
  | block {steps : Nat} {statements : List Stmt} {machine : Machine} :
      Enters ⟨steps + 1, .statement (.block statements), machine⟩
        ⟨steps, .sequence statements, machine.enter (some machine.active)⟩
  | consequence {steps : Nat} {condition : Expr} {consequence : Stmt} {alternative : Option Stmt}
      {machine after : Machine} {value : Value}
      (found : evaluate steps condition machine = .done value after)
      (holds : value.isTruthy = true) :
      Enters ⟨steps + 1, .statement (.branch condition consequence alternative), machine⟩
        ⟨steps, .statement consequence, after⟩
  | alternative {steps : Nat} {condition : Expr} {consequence alternative : Stmt}
      {machine after : Machine} {value : Value}
      (found : evaluate steps condition machine = .done value after)
      (fails : value.isTruthy = false) :
      Enters ⟨steps + 1, .statement (.branch condition consequence (some alternative)), machine⟩
        ⟨steps, .statement alternative, after⟩
  | body {steps : Nat} {condition : Expr} {body : Stmt} {machine after : Machine} {value : Value}
      (found : evaluate steps condition machine = .done value after)
      (holds : value.isTruthy = true) :
      Enters ⟨steps + 1, .statement (.loop condition body), machine⟩ ⟨steps, .statement body, after⟩
  | again {steps : Nat} {condition : Expr} {body : Stmt} {machine middle after : Machine}
      {value : Value} (found : evaluate steps condition machine = .done value middle)
      (holds : value.isTruthy = true) (goesOn : execute steps body middle = .done .normal after) :
      Enters ⟨steps + 1, .statement (.loop condition body), machine⟩
        ⟨steps, .statement (.loop condition body), after⟩
  | inner {steps : Nat} {expr inner : Expr} {machine : Machine} (first : expr.first? = some inner) :
      Enters ⟨steps + 1, .expression expr, machine⟩ ⟨steps, .expression inner, machine⟩
  | otherwise {steps : Nat} {left right : Expr} {operator : Token} {machine after : Machine}
      {value : Value} (found : evaluate steps left machine = .done value after)
      (unsettled : Operator.settles operator value = false) :
      Enters ⟨steps + 1, .expression (.logical left operator right), machine⟩
        ⟨steps, .expression right, after⟩
  | right {steps : Nat} {left right : Expr} {operator : Token} {machine after : Machine}
      {value : Value} (found : evaluate steps left machine = .done value after) :
      Enters ⟨steps + 1, .expression (.binary left operator right), machine⟩
        ⟨steps, .expression right, after⟩
  | index {steps : Nat} {expr object index : Expr} {machine after : Machine} {array : ArrayId}
      (element : expr.subscript? = some (object, index))
      (found : evaluate steps object machine = .done (.array array) after) :
      Enters ⟨steps + 1, .expression expr, machine⟩ ⟨steps, .expression index, after⟩
  | stored {steps : Nat} {object index value : Expr} {bracket : Token} {machine after : Machine}
      {target : ArrayId × Float}
      (found : subscriptTarget (evaluate steps) object bracket index machine = .done target after) :
      Enters ⟨steps + 1, .expression (.store object bracket index value), machine⟩
        ⟨steps, .expression value, after⟩
  | elements {steps : Nat} {bracket : Token} {exprs : List Expr} {machine : Machine} :
      Enters ⟨steps + 1, .expression (.array bracket exprs), machine⟩
        ⟨steps, .operands exprs, machine⟩
  | arguments {steps : Nat} {callee : Expr} {paren : Token} {exprs : List Expr}
      {machine after : Machine} {value : Value}
      (found : evaluate steps callee machine = .done value after) :
      Enters ⟨steps + 1, .expression (.call callee paren exprs), machine⟩
        ⟨steps, .operands exprs, after⟩
  | call {steps : Nat} {callee : Expr} {paren : Token} {exprs : List Expr} {id : FunctionId}
      {declaration : FunctionDecl} {closure : ScopeId} {values : List Value}
      {machine middle after inside : Machine}
      (called : evaluate steps callee machine =
        .done (.function id (.declared declaration closure)) middle)
      (given : evaluateAll (evaluate steps) exprs middle = .done values after)
      (fits : values.length = declaration.parameters.length)
      (bound : bindParameters declaration.parameters values (after.enter (some closure)) =
        .done () inside) :
      Enters ⟨steps + 1, .expression (.call callee paren exprs), machine⟩
        ⟨steps, .sequence declaration.body, inside⟩

/-- The machines that a session comes to between its requests. -/
inductive Session (reading : Nat → Float) (output : Output) : Machine → Prop where
  | start : Session reading output (.fresh reading output)
  | request {machine after : Machine} (before : Session reading output machine) (steps : Nat)
      (task : Task) (ended : Activity.after? ⟨steps, task, machine⟩ = some after) :
      Session reading output after

/-- Some function is bound or kept in an array that was declared in the scope. -/
inductive Store.Captures (store : Store) (closure : ScopeId) : Prop where
  | bound {id : ScopeId} {name : String} {number : FunctionId} {declaration : FunctionDecl}
      (found : store.scopes.own? id name = some (.function number (.declared declaration closure)))
  | kept {id : ArrayId} {number : FunctionId} {declaration : FunctionDecl}
      (found : .function number (.declared declaration closure) ∈ (store.heap.elements id).toList)

/-- Every chain in which names may be looked up, now or in a call to come, goes along the links to
the global scope and meets no scope twice; a name belongs to the first scope of the chain that binds
it. -/
structure Machine.Chained (machine : Machine) : Prop where
  linked : ∀ id, (machine.scopes.chain id).IsChain
    fun inner outer => machine.scopes.parent? inner = some outer
  begins : ∀ id, (machine.scopes.chain id).head? = some id
  nodup : ∀ id, (machine.scopes.chain id).Nodup
  ends : ∀ id, id = machine.active ∨ machine.store.Captures id →
    (machine.scopes.chain id).getLast? = some globalScope
  owner : ∀ id name, machine.scopes.owner? id name =
    (machine.scopes.chain id).find? fun scope => (machine.scopes.own? scope name).isSome

theorem Store.Captures.points {store : Store} {closure : ScopeId}
    (captures : store.Captures closure) : ∃ cell, store.Points cell (.scope closure) := by
  cases captures with
  | bound found => exact ⟨_, .bound found (by simp [Value.cells])⟩
  | kept found => exact ⟨_, .element found (by simp [Value.cells])⟩

theorem Machine.Rooted.chained {machine : Machine} (rooted : machine.Rooted) : machine.Chained where
  linked := machine.scopes.isChain_chain
  begins := machine.scopes.chain_head?
  nodup := machine.scopes.nodup_chain
  ends id reason := by
    refine rooted.getLast?_chain ?_
    rcases reason with rfl | captures
    · exact rooted.active
    · obtain ⟨cell, points⟩ := captures.points
      exact rooted.closed cell _ points
  owner := machine.scopes.owner?_eq_find?

/-- At first there is the global scope alone, where the clock is bound. -/
theorem Machine.rooted_fresh (reading : Nat → Float) (output : Output) :
    (Machine.fresh reading output).Rooted := by
  have alone : (Machine.fresh reading output).store.extent = ⟨1, 0⟩ := by
    simp [store, Store.extent, fresh, bare, defineHost, Heap.size, Heap.empty]
  have only {id : ScopeId} (made : (Machine.fresh reading output).store.Made (.scope id)) :
      id = globalScope := by
    rw [Store.Made, alone] at made
    exact Nat.lt_one_iff.mp made
  refine ⟨⟨fun cell target points => ?_, ?_⟩, fun id made outer => absurd (only made) outer⟩
  · have made := points.made
    cases points with
    | enclosing linked =>
      obtain rfl := only made
      exact absurd (ScopeTree.parent?_lt linked) (Nat.not_lt_zero _)
    | @bound id name value _ found refers =>
      have host : value = .function 0 (.host "clock" 0 .clock) := by
        rw [store, own?_fresh] at found
        split at found
        · exact (Option.some.inj found).symm
        · cases found
      rw [host] at refers
      cases refers
    | element =>
      rw [Store.Made, alone] at made
      exact absurd made (Nat.not_lt_zero _)
  · rw [Store.Made, alone]
    exact Nat.one_pos

namespace Activity

variable {activity inner : Activity} {after : Machine}

theorem kept (rooted : activity.machine.Rooted) (ended : activity.after? = some after) :
    activity.machine.Kept after ∧ after.Rooted := by
  obtain ⟨steps, task, machine⟩ := activity
  cases task with
  | program statements => exact rooted.interpret ended
  | sequence statements => exact rooted.executeAll ended
  | statement stmt => exact rooted.execute ended
  | operands exprs =>
    obtain ⟨kept, after, _⟩ := rooted.evaluateAll ended
    exact ⟨kept, after⟩
  | expression expr =>
    obtain ⟨kept, after, _⟩ := rooted.evaluate ended
    exact ⟨kept, after⟩

theorem Enters.rooted (enters : activity.Enters inner) (rooted : activity.machine.Rooted) :
    inner.machine.Rooted := by
  cases enters with
  | program | head | operand | condition | inner | elements => exact rooted
  | tail goesOn => exact (rooted.execute (congrArg Result.machine? goesOn)).2
  | again found _ goesOn =>
    have middle := (rooted.evaluate (congrArg Result.machine? found)).2.1
    exact (middle.execute (congrArg Result.machine? goesOn)).2
  | block => exact (rooted.enter rooted.active).2
  | further found | consequence found | alternative found | body found | otherwise found
  | right found | arguments found => exact (rooted.evaluate (congrArg Result.machine? found)).2.1
  | index element found => exact (rooted.evaluate (congrArg Result.machine? found)).2.1
  | stored found => exact (rooted.subscriptTarget (congrArg Result.machine? found)).2
  | call called given fits bound =>
    obtain ⟨_, middle, owned⟩ := rooted.evaluate (congrArg Result.machine? called)
    obtain ⟨kept, after, owns⟩ := middle.evaluateAll (congrArg Result.machine? given)
    have closure := (owned _ called).kept kept _ (List.mem_singleton.mpr rfl)
    obtain ⟨made, inside⟩ := after.enter closure
    refine (inside.bindParameters (fun value member cell refers => ?_)
      (congrArg Result.machine? bound)).2
    exact made cell (owns _ given value member cell refers)

end Activity

variable {reading : Nat → Float} {output : Output} {machine : Machine}

theorem Session.rooted (session : Session reading output machine) :
    machine.Rooted ∧ machine.active = globalScope := by
  induction session with
  | start => exact ⟨Machine.rooted_fresh reading output, rfl⟩
  | request _ steps task ended ih =>
    obtain ⟨kept, after⟩ := Activity.kept ih.1 ended
    exact ⟨after, kept.active.trans ih.2⟩

/-- Between the requests of a session the global scope is active. Wherever one of them comes to, all
names are looked up along chains that end in the global scope; and however it ends there, the active
scope is the one it began in and no scope is enclosed otherwise than before. -/
theorem scopes_stay_rooted (session : Session reading output machine) :
    machine.active = globalScope ∧
      ∀ steps task inner, Relation.ReflTransGen Activity.Enters ⟨steps, task, machine⟩ inner →
        inner.machine.Chained ∧ ∀ after, inner.after? = some after →
          inner.machine.Kept after ∧ after.Chained := by
  refine ⟨session.rooted.2, fun steps task inner path => ?_⟩
  have rooted : inner.machine.Rooted := by
    induction path with
    | refl => exact session.rooted.1
    | tail _ enters ih => exact enters.rooted ih
  refine ⟨rooted.chained, fun after ended => ?_⟩
  obtain ⟨kept, after⟩ := Activity.kept rooted ended
  exact ⟨kept, after.chained⟩

/-- Behind a block in which a function was declared. -/
theorem scopes_stay_rooted_behind_block :
    ∃ machine, Session (fun _ => 0) .unlimited machine ∧ machine.store.Captures 1 ∧
      machine.active = globalScope ∧ machine.Chained := by
  let name : Token := ⟨.plain .identifier, "f", 1⟩
  obtain ⟨machine, ended, captures⟩ : ∃ machine, Activity.after? ⟨3,
      .statement (.block [.function name [] []]), .fresh (fun _ => 0) .unlimited⟩ = some machine ∧
        machine.store.Captures 1 :=
    ⟨_, rfl, @Store.Captures.bound _ 1 1 "f" 1 ⟨name, [], []⟩ rfl⟩
  obtain ⟨active, inside⟩ := scopes_stay_rooted (.request .start _ _ ended)
  exact ⟨machine, .request .start _ _ ended, captures, active, (inside 0 (.sequence []) _ .refl).1⟩

end Script
