import Script.Proofs.Evaluation.Observation
import Script.Proofs.Grammar.Written
import Script.Proofs.Scope.Declaration
import Script.Proofs.Scope.Activity

/-! A counting loop does what such a loop is for. It is parsed as a conditional loop whose body and
step stand in a block, so it opens a scope in each turn that the loop itself does not ask for;
nothing is ever bound there, and no program can tell. -/

namespace Script

namespace ForHeader

variable (header : ForHeader) (body : Stmt)

/-- The value that decides whether there is another turn. -/
def test (steps : Nat) : Eval Value :=
  match header.condition with
  | some condition => evaluate steps condition
  | none => return .boolean true

/-- The body and, unless it returns, the step. -/
def turn (steps : Nat) : Eval Flow :=
  match header.step with
  | none => execute steps body
  | some step => do
    match ← execute steps body with
    | .returned value => return .returned value
    | .normal => do
      let _ ← evaluate steps step
      return .normal

/-- Turns, up to the first that returns, for as long as the condition holds. -/
def turns : (steps : Nat) → Eval Flow
  | 0 => Eval.exhausted
  | steps + 1 => do
    if (← header.test steps).isTruthy then
      match ← header.turn body steps with
      | .returned value => return .returned value
      | .normal => turns steps
    else return .normal

/-- A counting loop. All of it happens in one scope: in a new one that begins with the initial
statement, or else in the active one. -/
def run (steps : Nat) : Eval Flow :=
  match header.initial with
  | none => header.turns body steps
  | some initial => do
    Eval.inScope (some (← Eval.activeScope)) do
      match ← execute steps initial with
      | .returned value => return .returned value
      | .normal => header.turns body steps

end ForHeader

/-- How many more steps the first of two runs may need: it may run out before the second with as
many steps, and the second may run out before the first with `lag` fewer. -/
def Pace.trails (pace : Pace) (lag first second : Nat) : Prop :=
  match pace with
  | .together => False
  | .firstShort => first ≤ second
  | .secondShort => second + lag ≤ first

section Trails

variable {pace : Pace} {lag first second : Nat}

theorem Pace.admits_of_trails (trails : pace.trails lag first second) :
    pace.admits first second := by
  cases pace with
  | together => cases trails
  | firstShort => exact trails
  | secondShort => exact (Nat.le_add_right second lag).trans trails

theorem Pace.trails_of_succ (trails : pace.trails lag (first + 1) (second + 1)) :
    pace.trails lag first second := by
  cases pace <;> simp only [Pace.trails] at trails ⊢ <;> omega

/-- A step that only the first run takes uses up some of what it has in advance. -/
theorem Pace.trails_pred (trails : pace.trails (lag + 1) (first + 1) second) :
    pace.trails lag first second := by
  cases pace <;> simp only [Pace.trails] at trails ⊢ <;> omega

theorem Pace.trails_le {less : Nat} (trails : pace.trails lag first second) (le : less ≤ lag) :
    pace.trails less first second := by
  cases pace <;> simp only [Pace.trails] at trails ⊢ <;> omega

theorem Pace.eq_firstShort (trails : pace.trails (lag + 1) 0 second) : pace = .firstShort := by
  cases pace with
  | together => cases trails
  | firstShort => rfl
  | secondShort => simp [Pace.trails] at trails

end Trails

namespace Overlay

open Simulation Grammar

variable {pace : Pace} {stage : Overlay} {first second : ScopeId} {header : ForHeader} {body : Stmt}
  {steps steps' : Nat}

theorem evaluates (admitted : pace.admits steps steps') :
    simulation.Evaluates pace (evaluate steps) (evaluate steps') :=
  (simulation.runs pace steps steps' admitted).1

theorem executes (admitted : pace.admits steps steps') :
    simulation.Executes pace (execute steps) (execute steps') :=
  (simulation.runs pace steps steps' admitted).2

/-- How a statement that declares nothing ends does not depend on blank scopes. -/
theorem runs_undeclaring (admitted : pace.admits steps steps') (undeclaring : body.declares = [])
    (here : stage.Scopes first second) :
    simulation.Runs pace stage first second simulation.flows (execute steps body)
      (execute steps' body) :=
  executes admitted stage first second here body fun name declared => by
    rw [undeclaring] at declared
    cases declared

theorem runs_test (trails : pace.trails 1 steps steps') (here : stage.Scopes first second) :
    simulation.Runs pace stage first second simulation.values
      (evaluate steps (header.condition.getD (.literal (.boolean true)))) (header.test steps') := by
  unfold ForHeader.test
  cases header.condition with
  | some condition =>
    exact evaluates (Pace.admits_of_trails trails) stage first second here condition
  | none =>
    cases steps with
    | succ steps => exact .pure fun _ _ => .boolean true
    | zero =>
      obtain rfl := Pace.eq_firstShort trails
      exact .firstOut

/-- The step of a loop, as a statement behind the body. -/
theorem runs_step {step : Expr} (trails : pace.trails 1 steps steps')
    (here : stage.Scopes first second) :
    simulation.Runs pace stage first second simulation.flows
      (executeAll (execute steps) [.expression step])
      (do
        let _ ← evaluate steps' step
        return .normal) := by
  rw [executeAll_singleton]
  cases steps with
  | zero =>
    obtain rfl := Pace.eq_firstShort trails
    exact .firstOut
  | succ steps =>
    have admitted := Pace.admits_of_trails (Pace.trails_pred trails)
    refine (evaluates admitted stage first second here step).bind fun _ _ _ _ _ => ?_
    exact .pure fun _ _ => .normal

/-- The block around the body and the step opens a scope that stays blank. -/
theorem runs_turn (trails : pace.trails 2 steps steps') (undeclaring : body.declares = [])
    (here : stage.Scopes first second) :
    simulation.Runs pace stage first second simulation.flows
      (execute steps (withStep header.step body)) (header.turn body steps') := by
  unfold withStep ForHeader.turn
  cases header.step with
  | none => exact runs_undeclaring (Pace.admits_of_trails trails) undeclaring here
  | some step =>
    cases steps with
    | zero =>
      obtain rfl := Pace.eq_firstShort trails
      exact .firstOut
    | succ steps =>
      have trails := Pace.trails_pred trails
      refine runs_block here fun later inner _ here => ?_
      refine (runs_undeclaring (Pace.admits_of_trails trails) undeclaring here).bind
        fun after flow flow' grown same => ?_
      cases same with
      | returned same => exact .pure fun _ last => .returned (simulation.values_grow last same)
      | normal => exact runs_step trails (here.grow grown)

/-- The conditional loop goes through the same turns. -/
theorem runs_turns (trails : pace.trails 2 steps steps') (undeclaring : body.declares = [])
    (here : stage.Scopes first second) :
    simulation.Runs pace stage first second simulation.flows
      (execute steps (.loop (header.condition.getD (.literal (.boolean true)))
        (withStep header.step body))) (header.turns body steps') := by
  -- The induction is on the turns of the second run; the first comes along with each of them.
  induction steps' generalizing steps stage with
  | zero =>
    cases pace with
    | together => cases trails
    | firstShort =>
      obtain rfl := Nat.le_zero.mp trails
      exact .bothOut
    | secondShort => exact .secondOut
  | succ steps' ih =>
    cases steps with
    | zero =>
      obtain rfl := Pace.eq_firstShort trails
      exact .firstOut
    | succ steps =>
      have trails := Pace.trails_of_succ trails
      refine (runs_test (Pace.trails_le trails (by decide)) here).bind
        fun later value value' grown same => ?_
      rw [same.isTruthy_eq]
      split
      · refine (runs_turn trails undeclaring (here.grow grown)).bind
          fun after flow flow' grown' same => ?_
        cases same with
        | returned same => exact .pure fun _ last => .returned (simulation.values_grow last same)
        | normal => exact ih trails ((here.grow grown).grow grown')
      · exact .pure fun _ _ => .normal

theorem runs_loop (trails : pace.trails 3 steps steps') (undeclaring : body.declares = [])
    (here : stage.Scopes first second) :
    simulation.Runs pace stage first second simulation.flows
      (execute steps (header.loop body)) (header.run body steps') := by
  rw [Rule.loop_eq_withInitial]
  unfold withInitial ForHeader.run
  cases header.initial with
  | none => exact runs_turns (Pace.trails_le trails (by decide)) undeclaring here
  | some initial =>
    cases steps with
    | zero =>
      obtain rfl := Pace.eq_firstShort trails
      exact .firstOut
    | succ steps =>
      have trails := Pace.trails_pred trails
      refine (Runs.activeScope here).bind fun later scope scope' grown same => ?_
      refine .inScope same fun after inner inner' _ fresh any => ?_
      refine (executes (Pace.admits_of_trails trails) after inner inner' fresh initial
        fun name _ => any name).bind fun last flow flow' grown' same => ?_
      cases same with
      | returned same => exact .pure fun _ last => .returned (simulation.values_grow last same)
      | normal =>
        simp only [executeAll_singleton]
        exact runs_turns trails undeclaring (fresh.grow grown')

end Overlay

/-- What a loop in a block and the loop itself leave cannot be told apart, and each ends if the
other does within three steps fewer. -/
theorem ForHeader.loop_indistinguishable {header : ForHeader} {body : Stmt}
    (undeclaring : body.declares = []) {machine : Machine} (sound : machine.Sound) (steps : Nat) :
    (execute steps (header.loop body) machine ≠ .exhausted →
      Result.Indistinguishable machine.scopes.size (execute steps (header.loop body) machine)
        (header.run body steps machine)) ∧
    (header.run body steps machine ≠ .exhausted →
      Result.Indistinguishable machine.scopes.size (execute (steps + 3) (header.loop body) machine)
        (header.run body steps machine)) := by
  have fixes := Overlay.fixes_plain machine
  have ends (pace : Pace) (first second : Nat) (trails : pace.trails 3 first second) :
      Overlay.simulation.Ends pace (.plain machine) machine.active machine.active
        Overlay.simulation.flows (execute first (header.loop body) machine)
        (header.run body second machine) :=
    Overlay.runs_loop trails undeclaring (fixes.scopes sound.active) _ machine machine (.refl _)
      (Overlay.machines_plain (fun _ => rfl) sound)
  constructor
  · intro ended
    have ends := ends .firstShort steps steps (Nat.le_refl steps)
    refine Overlay.indistinguishable_of_ends fixes ends ended fun out => ?_
    rw [out] at ends
    exact ended ends.first_exhausted
  · intro ended
    have ends := ends .secondShort (steps + 3) steps (Nat.le_refl (steps + 3))
    refine Overlay.indistinguishable_of_ends fixes ends (fun out => ?_) ended
    rw [out] at ends
    exact ended ends.second_exhausted

/-- A statement that begins like a counting loop is one, with a header and a body behind it. -/
theorem Rule.statement_for_parts {keyword : Token} {after rest : List Token} {tree : Stmt}
    {moved : Moved true rest (keyword :: after)} {notes : List Complaint}
    (counts : keyword.is .forKeyword = true)
    (accepted : statement (keyword :: after) = .accepted tree rest moved notes) :
    ∃ header middle body, tree = ForHeader.loop header body ∧
      (∃ moved notes, forHeader after = .accepted header middle moved notes) ∧
      ∃ moved notes, statement middle = .accepted body rest moved notes := by
  rw [statement_for counts] at accepted
  cases first : forHeader after with
  | stopped complaint within notes =>
    rw [first] at accepted
    cases accepted
  | accepted header middle moved notes =>
    cases second : statement middle with
    | stopped complaint within notes =>
      simp only [first, second, Outcome.andThen, Outcome.map, Outcome.behind, reduceCtorEq]
        at accepted
    | accepted body left moved notes =>
      simp only [first, second, Outcome.andThen, Outcome.map, Outcome.behind,
        Outcome.accepted.injEq] at accepted
      obtain ⟨rfl, rfl, _⟩ := accepted
      exact ⟨header, middle, body, rfl, ⟨_, _, rfl⟩, _, _, second⟩

/-- Whatever is parsed behind the keyword of a counting loop runs as that loop. However one of them
ends, the other ends likewise, on machines that nothing run later tells apart. -/
theorem counting_loop_runs_as_written {keyword : Token} {after rest : List Token} {tree : Stmt}
    {moved : Moved true rest (keyword :: after)} {notes : List Complaint}
    (counts : keyword.is .forKeyword = true)
    (accepted : Rule.statement (keyword :: after) = .accepted tree rest moved notes) :
    ∃ header middle body, tree = ForHeader.loop header body ∧
      (∃ moved notes, Rule.forHeader after = .accepted header middle moved notes) ∧
      (∃ moved notes, Rule.statement middle = .accepted body rest moved notes) ∧
      ∀ machine : Machine, machine.Sound → ∀ steps,
        (execute steps tree machine ≠ .exhausted →
          Result.Indistinguishable machine.scopes.size (execute steps tree machine)
            (header.run body steps machine)) ∧
        (header.run body steps machine ≠ .exhausted →
          Result.Indistinguishable machine.scopes.size (execute (steps + 3) tree machine)
            (header.run body steps machine)) := by
  obtain ⟨header, middle, body, rfl, head, moved, notes, inner⟩ :=
    Rule.statement_for_parts counts accepted
  have undeclaring : body.declares = [] := by
    have ensured := Rule.statement_undeclaring middle
    rw [inner] at ensured
    exact ensured
  exact ⟨header, middle, body, rfl, head, ⟨moved, notes, inner⟩, fun machine sound steps =>
    ForHeader.loop_indistinguishable undeclaring sound steps⟩

open Grammar in
/-- A loop that turns once, with all of its parts: it prints what it begins with, and its step is
what ends it. -/
theorem counting_loop_runs_as_written_once :
    let name := Tag.identifier.mark "i"
    let equal := Tag.equal.mark "="
    let semicolon := Tag.semicolon.mark ";"
    let bang := Tag.bang.mark "!"
    let turn : Stmt :=
      .block [.print (.reference name), .expression (.assign name (.literal (.boolean true)))]
    let loop : Stmt := .loop (.unary bang (.reference name)) turn
    let tree : Stmt := .block [.declare name (some (.literal .nil)), loop]
    let machine := Machine.fresh (fun _ => 0) .unlimited
    ∃ header body, (∃ moved notes, Rule.statement
        [Tag.forKeyword.mark "for", Tag.leftParen.mark "(", Tag.varKeyword.mark "var", name, equal,
          Tag.nilKeyword.mark "nil", semicolon, bang, name, semicolon, name, equal,
          Tag.trueKeyword.mark "true", Tag.rightParen.mark ")", Tag.printKeyword.mark "print", name,
          semicolon] = .accepted tree [] moved notes) ∧
      tree = ForHeader.loop header body ∧ ∃ after after',
        execute 7 tree machine = .done .normal after ∧
        header.run body 7 machine = .done .normal after' ∧
        after.Indistinguishable 1 after' ∧ after.output.written.toList = Utf8.encode "nil\n" := by
  intro name equal semicolon bang turn loop tree machine
  have phrase : Phrase .strict .primary [name] (.reference name) [] := .name (Tag.mark_is _ _)
  have initial : Phrase .strict .primary [Tag.nilKeyword.mark "nil"] (.literal .nil) [] :=
    .nil (Tag.mark_is _ _)
  have yes : Phrase .strict .primary [Tag.trueKeyword.mark "true"] (.literal (.boolean true)) [] :=
    .truth (Tag.mark_is _ _)
  have first := Variable.initial (Tag.mark_is .varKeyword "var") (Tag.mark_is .identifier "i")
    (Tag.mark_is .equal "=") initial.of_primary (Tag.mark_is .semicolon ";")
  have condition := Phrase.sign (.inl (Tag.mark_is .bang "!")) (.inside rfl (.inside rfl phrase))
  have last := Phrase.assignName (Tag.mark_is .identifier "i") (Tag.mark_is .equal "=")
    yes.of_primary
  have prints := Sentence.print (Tag.mark_is .printKeyword "print") phrase.of_primary
    (Tag.mark_is .semicolon ";")
  have sentence := Sentence.counting (Tag.mark_is .forKeyword "for") (Tag.mark_is .leftParen "(")
    (.declaration first) (.some condition.of_signed) (Tag.mark_is .semicolon ";") (.some last)
    (Tag.mark_is .rightParen ")") prints
  obtain ⟨moved, notes, accepted, _⟩ :=
    (Rule.sentence_completes (Tag.semicolon.mark ";") sentence [] (by simp)).eq
  obtain ⟨header, _, body, same, _, _, runs⟩ :=
    counting_loop_runs_as_written (Tag.mark_is .forKeyword "for") accepted
  refine ⟨header, body, ⟨moved, notes, accepted⟩, same, ?_⟩
  -- What the machine comes to, one step of the loop after the other.
  let step : Expr := .assign name (.literal (.boolean true))
  let opened := machine.enter (some globalScope)
  let begun := { opened with scopes := opened.scopes.define 1 "i" .nil }
  let turned := begun.enter (some 1)
  let printed := { turned with
    output := turned.output.write (Utf8.encode (Value.nil.text turned.heap ++ "\n")) }
  let stepped := { printed with scopes := printed.scopes.define 1 "i" (.boolean true) }
  let again := { stepped with active := 1 }
  let after := { again with active := 0 }
  have declares : execute 6 (.declare name (some (.literal .nil))) opened =
      .done .normal begun := rfl
  have first : evaluate 4 (.reference name) begun = .done .nil begun :=
    Eval.lookUp_of_found (ScopeTree.get?_of_bound rfl)
  have holds : evaluate 5 (.unary bang (.reference name)) begun = .done (.boolean true) begun :=
    Eval.bind_of_done first
  have prints : execute 4 (.print (.reference name)) turned = .done .normal printed := by
    have found : turned.scopes.get? 2 "i" = some .nil :=
      (ScopeTree.get?_of_linked rfl rfl).trans (ScopeTree.get?_of_bound rfl)
    have read : evaluate 3 (.reference name) turned = .done .nil turned :=
      Eval.lookUp_of_found found
    exact Eval.bind_of_done read
  have assigns : execute 4 (.expression step) printed = .done .normal stepped := by
    have owner : printed.scopes.owner? 2 "i" = some 1 :=
      (ScopeTree.owner?_of_linked rfl rfl).trans (ScopeTree.owner?_of_bound rfl)
    have assigned : Eval.assign name (.boolean true) printed = .done () stepped :=
      Eval.assign_of_found owner
    have evaluated : evaluate 3 step printed = .done (.boolean true) stepped :=
      Eval.bind_of_done assigned
    exact Eval.bind_of_done evaluated
  have turns : execute 5 turn begun = .done .normal again := by
    have both : executeAll (execute 4) [.print (.reference name), .expression step] turned =
        .done .normal stepped := (Eval.bind_of_done prints).trans (Eval.bind_of_done assigns)
    show Eval.inScope (some 1) _ begun = _
    rw [Eval.inScope_eq]
    exact congrArg (Result.withActive 1) both
  have last : evaluate 3 (.reference name) again = .done (.boolean true) again :=
    Eval.lookUp_of_found (ScopeTree.get?_of_bound rfl)
  have ceases : evaluate 4 (.unary bang (.reference name)) again = .done (.boolean false) again :=
    Eval.bind_of_done last
  have ends : execute 5 loop again = .done .normal again := Eval.bind_of_done ceases
  have loops : execute 6 loop begun = .done .normal again :=
    (Eval.bind_of_done holds).trans ((Eval.bind_of_done turns).trans ends)
  have both : executeAll (execute 6) [.declare name (some (.literal .nil)), loop] opened =
      .done .normal again :=
    (Eval.bind_of_done declares).trans (Eval.bind_of_done loops)
  have ended : execute 7 tree machine = .done .normal after := by
    show Eval.inScope (some 0) _ machine = _
    rw [Eval.inScope_eq]
    exact congrArg (Result.withActive 0) both
  have sound := (Machine.rooted_fresh (fun _ => 0) .unlimited).toSound
  have alike : Result.Indistinguishable 1 (execute 7 tree machine) (header.run body 7 machine) :=
    (runs machine sound 7).1 fun exhausted => nomatch ended.symm.trans exhausted
  rw [ended] at alike
  generalize header.run body 7 machine = result at alike ⊢
  cases alike with
  | @normal _ after' same =>
    refine ⟨after, after', ended, rfl, same, ?_⟩
    show (Output.unlimited.write _).written.toList = _
    rw [Output.toList_write, Value.text, Value.textWithin]
    rfl

end Script
