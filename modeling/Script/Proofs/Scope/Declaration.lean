import Script.Proofs.Parsing.Exact
import Script.Proofs.Scope.Growth

/-! Only declarations bind names, and only in the scope they run in. What the grammar yields has no
declaration for the body of a branch or a loop, so its other statements bind nothing that outlasts
them. -/

namespace Script

/-- The name that a statement declares by itself. -/
def Stmt.declaration? : Stmt → Option Token
  | .declare name _ | .function name _ _ => some name
  | _ => none

/-- Every declaration in the tree stands in a list of statements, and none is the body of a branch
or of a loop. -/
inductive Stmt.Orderly : Stmt → Prop where
  | expression (value : Expr) : Orderly (.expression value)
  | print (value : Expr) : Orderly (.print value)
  | declare (name : Token) (initial : Option Expr) : Orderly (.declare name initial)
  | block {statements : List Stmt} (inner : ∀ stmt ∈ statements, Orderly stmt) :
      Orderly (.block statements)
  | branch {condition : Expr} {consequence : Stmt} (inner : Orderly consequence)
      (plain : consequence.declaration? = none) : Orderly (.branch condition consequence none)
  | alternative {condition : Expr} {consequence alternative : Stmt} (inner : Orderly consequence)
      (plain : consequence.declaration? = none) (other : Orderly alternative)
      (otherPlain : alternative.declaration? = none) :
      Orderly (.branch condition consequence (some alternative))
  | loop {condition : Expr} {body : Stmt} (inner : Orderly body)
      (plain : body.declaration? = none) : Orderly (.loop condition body)
  | function {name : Token} {parameters : List Token} {body : List Stmt}
      (inner : ∀ stmt ∈ body, Orderly stmt) : Orderly (.function name parameters body)
  | returning (keyword : Token) (value : Option Expr) : Orderly (.returning keyword value)

theorem Stmt.Orderly.declares_eq_nil {stmt : Stmt} (orderly : stmt.Orderly)
    (plain : stmt.declaration? = none) : stmt.declares = [] := by
  induction orderly with
  | declare | function => cases plain
  | expression | print | block | returning => rfl
  | branch inner innerPlain ih => simp only [declares, ih innerPlain]
  | alternative inner innerPlain other otherPlain ih ih' =>
    simp only [declares, ih innerPlain, ih' otherPlain, List.append_nil]
  | loop inner innerPlain ih => simp only [declares, ih innerPlain]

namespace Grammar

variable {mode : Mode} {tokens : List Token} {tree : Stmt} {faults : List ParseError}

theorem Initial.orderly {initial : Stmt} (first : Initial mode tokens (some initial) faults) :
    initial.Orderly := by
  cases first with
  | declaration declared => cases declared <;> exact .declare _ _
  | expression => exact .expression _

theorem withStep_orderly (step : Option Expr) {body : Stmt} (inner : body.Orderly)
    (plain : body.declaration? = none) :
    (withStep step body).Orderly ∧ (withStep step body).declaration? = none := by
  cases step with
  | none => exact ⟨inner, plain⟩
  | some step => exact ⟨.block (by simpa using ⟨inner, .expression step⟩), rfl⟩

/-- What derives from the grammar is orderly, and no statement is a declaration. -/
theorem Sentence.orderly {form : Form} (sentence : Sentence mode form tokens tree faults) :
    tree.Orderly ∧ (form ≠ .declaration → tree.declaration? = none) := by
  induction sentence with
  | function declares named opens each listed few closes bodyOpens inner bodyCloses ih =>
    refine ⟨.function ?_, fun plain => absurd rfl plain⟩
    simpa using fun part member => (ih part member).1
  | declaration declared =>
    refine ⟨?_, fun plain => absurd rfl plain⟩
    cases declared <;> exact .declare _ _
  | statement sentence ih => exact ⟨ih.1, fun plain => absurd rfl plain⟩
  | @counting _ _ _ _ _ _ _ _ _ initial condition step _ _ _ _ _ loops opens first tested separates
      steps closes inner ih =>
    obtain ⟨orderly, plain⟩ := withStep_orderly step ih.1 (ih.2 (by simp))
    cases initial with
    | none => exact ⟨.loop orderly plain, fun _ => rfl⟩
    | some initial =>
      exact ⟨.block (by simpa using ⟨first.orderly, .loop orderly plain⟩), fun _ => rfl⟩
  | branch branches opens tested closes inner ih =>
    exact ⟨.branch ih.1 (ih.2 (by simp)), fun _ => rfl⟩
  | alternative branches opens tested closes inner otherwise outer ih ih' =>
    exact ⟨.alternative ih.1 (ih.2 (by simp)) ih'.1 (ih'.2 (by simp)), fun _ => rfl⟩
  | loop loops opens tested closes inner ih => exact ⟨.loop ih.1 (ih.2 (by simp)), fun _ => rfl⟩
  | returning => exact ⟨.returning _ _, fun _ => rfl⟩
  | block opens inner closes ih =>
    refine ⟨.block ?_, fun _ => rfl⟩
    simpa using fun part member => (ih part member).1
  | print => exact ⟨.print _, fun _ => rfl⟩
  | expression => exact ⟨.expression _, fun _ => rfl⟩

theorem Program.orderly {statements : List Stmt} (program : Program mode tokens statements faults) :
    ∀ stmt ∈ statements, stmt.Orderly := by
  obtain ⟨parts, each, _, rfl, _⟩ := program
  simpa using fun part member => (each part member).orderly.1

end Grammar

theorem ForHeader.loop_declares (header : ForHeader) {body : Stmt}
    (undeclaring : body.declares = []) : (header.loop body).declares = [] := by
  obtain ⟨initial, condition, step⟩ := header
  cases initial with
  | some initial => rfl
  | none =>
    cases step with
    | some step => rfl
    | none => exact undeclaring

namespace Rule

open Outcome

theorem expressionStatement_undeclaring (input : List Token) :
    (expressionStatement input).Yields (·.declares = []) :=
  ensures_map.mpr (yields_of_forall fun _ => rfl)

/-- No statement declares anything in the scope around it, also if some fault in it was noted. -/
theorem statement_undeclaring (input : List Token) :
    (statement input).Yields (·.declares = []) := by
  -- The tokens of an inner statement are fewer, whichever rule it is an inner statement of.
  induction size : input.length using Nat.strongRecOn generalizing input with
  | ind size ih =>
    subst size
    cases input with
    | nil => exact statement_nil ▸ expressionStatement_undeclaring []
    | cons token after =>
      have inner (rest : List Token) (fewer : rest.length ≤ after.length) :=
        ih rest.length (Nat.lt_succ_of_le fewer) rest rfl
      by_cases counts : token.is .forKeyword = true
      · rw [statement_for counts, Yields, ensures_behind]
        refine yields_andThen fun header rest moved => ensures_map.mpr ?_
        refine (inner rest moved.length_le).mono ?_ fun _ _ any => any
        exact fun _ _ _ undeclaring => header.loop_declares undeclaring
      by_cases branches : token.is .ifKeyword = true
      · rw [statement_if branches, Yields, ensures_behind]
        refine yields_andThen fun condition rest moved => ?_
        refine Yields.andThen (inner rest moved.length_le) fun consequence rest moved' first => ?_
        cases rest with
        | nil => exact first
        | cons keyword others =>
          dsimp only
          split
          · have fewer := moved'.length_le.trans moved.length_le
            have second := inner others ((Nat.le_succ _).trans fewer)
            refine ensures_behind.mpr (ensures_map.mpr (second.mono ?_ fun _ _ any => any))
            intro alternative _ _ second
            simp only [Stmt.declares, first, second, List.append_nil]
          · exact first
      by_cases loops : token.is .whileKeyword = true
      · rw [statement_while loops, Yields, ensures_behind]
        exact yields_andThen fun condition rest moved =>
          ensures_map.mpr (inner rest moved.length_le)
      by_cases returns : token.is .returnKeyword = true
      · rw [statement_return returns, Yields, ensures_behind]
        exact yields_andThen fun value rest _ => ensures_map.mpr (yields_of_forall fun _ => rfl)
      by_cases opens : token.is .leftBrace = true
      · rw [statement_block opens, Yields, ensures_behind, ensures_map]
        exact yields_of_forall fun _ => rfl
      by_cases prints : token.is .printKeyword = true
      · rw [statement_print prints, Yields, ensures_behind, ensures_map]
        exact yields_of_forall fun _ => rfl
      · rw [statement_other (by simp [statementOpeners, *])]
        exact expressionStatement_undeclaring _

end Rule

/-- Scopes that grow without new names keep exactly the names they have. -/
theorem ScopeTree.Grows.names_eq {origin : Nat} {admits : ScopeId → String → Prop}
    {tree later : ScopeTree Value} (grows : Grows origin admits tree later) {id : ScopeId}
    (original : id < origin) (made : id < tree.size) (none : ∀ name, ¬admits id name) :
    later.names id = tree.names id :=
  Set.Subset.antisymm (fun name bound => (grows.adds id original name bound).resolve_right
    (none name)) (grows.keeps id made)

variable {steps : Nat} {machine after : Machine} {id : ScopeId}

theorem evaluateOptional_names {expr : Option Expr}
    (ended : (evaluateOptional (evaluate steps) expr machine).machine? = some after)
    (made : id < machine.scopes.size) :
    after.active = machine.active ∧ after.scopes.names id = machine.scopes.names id ∧
      machine.scopes.size ≤ after.scopes.size := by
  cases expr with
  | none =>
    cases ended
    exact ⟨rfl, rfl, le_rfl⟩
  | some expr =>
    obtain ⟨active, grows⟩ := evaluate_grows ended
    exact ⟨active, grows.names_eq made made fun _ none => none, grows.size_le⟩

/-- A variable declaration binds its name to its initial value, in the scope active then. -/
theorem execute_declare (steps : Nat) (name : Token) (initial : Option Expr) (machine : Machine) :
    execute (steps + 1) (.declare name initial) machine =
      match evaluateOptional (evaluate steps) initial machine with
      | .done value middle =>
        .done .normal
          { middle with scopes := middle.scopes.define middle.active name.lexeme value }
      | .failed failure middle => .failed failure middle
      | .exhausted => .exhausted := by
  show Eval.bind _ _ machine = _
  unfold Eval.bind
  cases evaluateOptional (evaluate steps) initial machine <;> rfl

/-- A declaration that goes on adds its name to the active scope, and one that fails adds none. -/
theorem declaration_names {stmt : Stmt} {name : Token} (declares : stmt.declaration? = some name)
    (ended : (execute steps stmt machine).machine? = some after) (made : id < machine.scopes.size) :
    (execute steps stmt machine = .done .normal after ∧
      after.scopes.names id = if id = machine.active then
        insert name.lexeme (machine.scopes.names id) else machine.scopes.names id) ∨
    ∃ failure, execute steps stmt machine = .failed failure after ∧
      after.scopes.names id = machine.scopes.names id := by
  cases steps with
  | zero => cases ended
  | succ steps =>
    cases stmt with
    | declare own initial =>
      cases declares
      rw [execute_declare] at ended ⊢
      cases result : evaluateOptional (evaluate steps) initial machine with
      | done value middle =>
        rw [result] at ended
        cases ended
        obtain ⟨active, same, size⟩ := evaluateOptional_names (congrArg Result.machine? result) made
        refine .inl ⟨rfl, ?_⟩
        rw [ScopeTree.names_define_of_lt (Nat.lt_of_lt_of_le made size), active, same]
      | failed failure middle =>
        rw [result] at ended
        cases ended
        obtain ⟨_, same, _⟩ := evaluateOptional_names (congrArg Result.machine? result) made
        exact .inr ⟨failure, rfl, same⟩
      | exhausted =>
        rw [result] at ended
        cases ended
    | function own parameters body =>
      cases declares
      cases ended
      exact .inl ⟨rfl, ScopeTree.names_define_of_lt made _ _⟩
    | _ => cases declares

/-- Expressions bind nothing in a scope that was there before; statements bind at most what they
declare in the active one; a declaration that goes on binds exactly its name there; and an orderly
statement that is no declaration binds nothing. What parses is orderly. -/
theorem only_declarations_bind :
    (∀ steps expr machine after, (evaluate steps expr machine).machine? = some after →
      ∀ id < machine.scopes.size, after.scopes.names id = machine.scopes.names id) ∧
    (∀ steps stmt machine after, (execute steps stmt machine).machine? = some after →
      ∀ id < machine.scopes.size, machine.scopes.names id ⊆ after.scopes.names id ∧
        ∀ name ∈ after.scopes.names id, name ∈ machine.scopes.names id ∨
          id = machine.active ∧ name ∈ stmt.declares) ∧
    (∀ steps stmt name machine after, stmt.declaration? = some name →
      (execute steps stmt machine).machine? = some after → ∀ id < machine.scopes.size,
        (execute steps stmt machine = .done .normal after ∧
          after.scopes.names id = if id = machine.active then
            insert name.lexeme (machine.scopes.names id) else machine.scopes.names id) ∨
        ∃ failure, execute steps stmt machine = .failed failure after ∧
          after.scopes.names id = machine.scopes.names id) ∧
    (∀ steps stmt machine after, stmt.Orderly → stmt.declaration? = none →
      (execute steps stmt machine).machine? = some after →
        ∀ id < machine.scopes.size, after.scopes.names id = machine.scopes.names id) ∧
    ∀ (stream : TokenStream) (statements : List Stmt), stream.program.1 = .ok statements →
      ∀ stmt ∈ statements, stmt.Orderly := by
  refine ⟨?_, ?_, ?_, ?_, ?_⟩
  · intro steps expr machine after ended id made
    exact (evaluate_grows ended).2.names_eq made made fun _ none => none
  · intro steps stmt machine after ended id made
    have grows := (execute_grows ended).2
    exact ⟨grows.keeps id made, grows.adds id made⟩
  · intro steps stmt name machine after declares ended id made
    exact declaration_names declares ended made
  · intro steps stmt machine after orderly plain ended id made
    refine (execute_grows ended).2.names_eq made made fun name admitted => ?_
    rw [orderly.declares_eq_nil plain] at admitted
    cases admitted.2
  · intro stream statements parsed
    exact (stream.program_eq_ok.mp parsed).orderly

end Script
