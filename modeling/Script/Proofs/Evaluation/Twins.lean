import Script.Proofs.Evaluation.Prints
import Script.Proofs.Value.Renaming

/-! Two runs, the second of which has other names. They stay twins from one elementary step to the
next: their scopes are made and linked alike and bind each name as the other binds its new name, and
their arrays hold the same elements but for the names in functions. -/

namespace Script

/-- A fault that the evaluator keeps for operators that no operator token stands for. -/
def RuntimeCause.fallsThrough : RuntimeCause → Bool
  | .invalidUnary _ | .invalidBinary _ => true
  | _ => false

def Failure.fallsThrough : Failure → Bool
  | .runtime error => error.cause.fallsThrough
  | .output _ => false

/-- Only a name that is not found is told with the fault. -/
def RuntimeCause.rename (change : String → String) : RuntimeCause → RuntimeCause
  | .undefined name => .undefined (change name)
  | other => other

def Failure.rename (change : String → String) : Failure → Failure
  | .runtime error => .runtime ⟨error.cause.rename change, error.line⟩
  | .output fault => .output fault

def Printed.rename (change : String → String) (printed : Printed) : Printed :=
  ⟨printed.value.rename change, printed.heap.map (Value.rename change)⟩

/-- New names for a program. `named` holds of the tokens that may be names in it, and `hosts` of
what runs when it calls a function of the host. -/
structure Renaming where
  change : String → String
  named : Token → Prop
  hosts : Native → Prop
  /-- No two names become one. -/
  injective : ∀ {first second : Token}, named first → named second →
    change first.lexeme = change second.lexeme → first.lexeme = second.lexeme
  /-- A program that may call what a host supplies keeps its names, for it can read its texts. -/
  quiet : ∀ {key : Nat}, hosts (.supplied key) → change = id

namespace Renaming

variable {α β γ δ : Type}

/-- Two machines alike but for names. Texts of different length fit alike only without a limit. -/
structure Twins (scheme : Renaming) (left right : Machine) : Prop where
  formed : left.Formed scheme.named scheme.hosts
  size : right.scopes.size = left.scopes.size
  parent : ∀ id, right.scopes.parent? id = left.scopes.parent? id
  bound : ∀ id token, scheme.named token →
    right.scopes.own? id (scheme.change token.lexeme) =
      (left.scopes.own? id token.lexeme).map (Value.rename scheme.change)
  heap : right.heap = left.heap.map (Value.rename scheme.change)
  active : right.active = left.active
  functions : right.functions = left.functions
  clock : right.clock = left.clock
  output : (scheme.change = id ∧ right.output = left.output) ∨
    (left.output.capacity = none ∧ right.output.capacity = none ∧
      right.output.flushable = left.output.flushable)

/-- Two runs end together: with related values, or with the same failure but for names. -/
inductive Together (scheme : Renaming) (related : α → β → Prop) : Result α → Result β → Prop where
  | done {value : α} {value' : β} {left right : Machine} (same : related value value')
      (twins : scheme.Twins left right) :
      Together scheme related (.done value left) (.done value' right)
  | failed {failure : Failure} {left right : Machine} (known : failure.fallsThrough = false)
      (twins : scheme.Twins left right) :
      Together scheme related (.failed failure left)
        (.failed (failure.rename scheme.change) right)
  | exhausted : Together scheme related .exhausted .exhausted

/-- Two runs end together and print alike on the way. -/
structure Ends (scheme : Renaming) (related : α → β → Prop) (left right : Machine)
    (result : Result α) (prints : List Printed) (result' : Result β) (prints' : List Printed) :
    Prop where
  together : scheme.Together related result result'
  told : prints' = prints.map (Printed.rename scheme.change)
  wrote : Writes left.output prints result
  wrote' : Writes right.output prints' result'

/-- Two computations, each with what it prints, end alike from all twins. -/
def Runs (scheme : Renaming) (related : α → β → Prop) (run : Eval α)
    (prints : Machine → List Printed) (run' : Eval β) (prints' : Machine → List Printed) : Prop :=
  ∀ left right, scheme.Twins left right →
    scheme.Ends related left right (run left) (prints left) (run' right) (prints' right)

/-- Two computations that print nothing end alike from all twins. -/
def Quiet (scheme : Renaming) (related : α → β → Prop) (run : Eval α) (run' : Eval β) : Prop :=
  scheme.Runs related run (fun _ => []) run' (fun _ => [])

/-- A value, and the same with other names. -/
def values (scheme : Renaming) (value value' : Value) : Prop :=
  value.Formed scheme.named scheme.hosts ∧ value' = value.rename scheme.change

def lists (scheme : Renaming) (values values' : List Value) : Prop :=
  (∀ value ∈ values, value.Formed scheme.named scheme.hosts) ∧
    values' = values.map (Value.rename scheme.change)

inductive Flows (scheme : Renaming) : Flow → Flow → Prop where
  | normal : Flows scheme .normal .normal
  | returned {value value' : Value} (same : scheme.values value value') :
      Flows scheme (.returned value) (.returned value')

namespace Twins

variable {scheme : Renaming} {left right : Machine}

theorem owner? (twins : scheme.Twins left right) {name : Token} (names : scheme.named name)
    (id : ScopeId) :
    right.scopes.owner? id (scheme.change name.lexeme) = left.scopes.owner? id name.lexeme := by
  induction id using Nat.strongRecOn with
  | ind id ih =>
    rw [ScopeTree.owner?_eq, ScopeTree.owner?_eq left.scopes, twins.bound id name names,
      twins.parent, Option.isSome_map]
    cases found : left.scopes.parent? id with
    | none => rfl
    | some parent =>
      rw [Option.bind_some, Option.bind_some, ih parent (ScopeTree.parent?_lt found)]

theorem get? (twins : scheme.Twins left right) {name : Token} (names : scheme.named name)
    (id : ScopeId) :
    right.scopes.get? id (scheme.change name.lexeme) =
      (left.scopes.get? id name.lexeme).map (Value.rename scheme.change) := by
  rw [ScopeTree.get?, ScopeTree.get?, twins.owner? names]
  cases left.scopes.owner? id name.lexeme with
  | none => rfl
  | some owner => exact twins.bound owner name names

theorem withActive (twins : scheme.Twins left right) (active : ScopeId) :
    scheme.Twins { left with active := active } { right with active := active } :=
  { twins with formed := twins.formed.withActive active, active := rfl }

theorem enter (twins : scheme.Twins left right) (parent : Option ScopeId) :
    scheme.Twins (left.enter parent) (right.enter parent) where
  formed := twins.formed.enter parent
  size := by simp only [Machine.enter, ScopeTree.size_add, twins.size]
  parent id := by simp only [Machine.enter, ScopeTree.parent?_add, twins.size, twins.parent]
  bound id token names := by
    simpa only [Machine.enter, ScopeTree.own?_add] using twins.bound id token names
  heap := twins.heap
  active := twins.size
  functions := twins.functions
  clock := twins.clock
  output := twins.output

/-- A definition under a name and one under its new name are seen under no other name. -/
theorem define (twins : scheme.Twins left right) {name : Token} (names : scheme.named name)
    {value : Value} (formed : value.Formed scheme.named scheme.hosts) (scope : ScopeId) :
    scheme.Twins { left with scopes := left.scopes.define scope name.lexeme value }
      { right with scopes := right.scopes.define scope (scheme.change name.lexeme)
                      (value.rename scheme.change) } where
  formed := twins.formed.define formed scope name.lexeme
  size := by simp only [ScopeTree.size_define, twins.size]
  parent id := by simp only [ScopeTree.parent?_define, twins.parent]
  bound id token sought := by
    by_cases made : scope < left.scopes.size
    · have other : scope < right.scopes.size := twins.size ▸ made
      have same : scheme.change name.lexeme = scheme.change token.lexeme ↔
          name.lexeme = token.lexeme :=
        ⟨scheme.injective names sought, congrArg scheme.change⟩
      simp only [ScopeTree.own?_define _ _ _ _ _ _ made, ScopeTree.own?_define _ _ _ _ _ _ other,
        same]
      split
      · rfl
      · exact twins.bound id token sought
    · have absent := Nat.le_of_not_lt made
      simp only [ScopeTree.own?_define_of_absent absent,
        ScopeTree.own?_define_of_absent (twins.size ▸ absent)]
      exact twins.bound id token sought
  heap := twins.heap
  active := twins.active
  functions := twins.functions
  clock := twins.clock
  output := twins.output

/-- Arrays that change alike. -/
theorem withHeap (twins : scheme.Twins left right) {heap : Heap}
    (formed : Machine.Formed scheme.named scheme.hosts { left with heap := heap }) :
    scheme.Twins { left with heap := heap }
      { right with heap := heap.map (Value.rename scheme.change) } :=
  { twins with formed := formed, heap := rfl }

/-- A print and the print with other names both fit or neither does, and leave twins. -/
theorem write (twins : scheme.Twins left right) (printed : Printed) :
    left.output.accepts printed.bytes =
        right.output.accepts (printed.rename scheme.change).bytes ∧
      scheme.Twins { left with output := left.output.write printed.bytes }
        { right with output := right.output.write (printed.rename scheme.change).bytes } := by
  have unchanged : Machine.Formed scheme.named scheme.hosts
      { left with output := left.output.write printed.bytes } :=
    ⟨twins.formed.bound, twins.formed.kept⟩
  rcases twins.output with ⟨kept, same⟩ | ⟨unlimited, unlimited', flushes⟩
  · have shown : (printed.rename scheme.change).bytes = printed.bytes := by
      rw [kept]
      simp only [Printed.bytes, Printed.text, Printed.rename, Value.text_rename_id]
    rw [shown, same]
    exact ⟨rfl, { twins with formed := unchanged, output := .inl ⟨kept, rfl⟩ }⟩
  · have both : left.output.accepts printed.bytes =
        right.output.accepts (printed.rename scheme.change).bytes := by
      simp only [Output.accepts, unlimited, unlimited']
    refine ⟨both, { twins with formed := unchanged, output := .inr ⟨?_, ?_, flushes⟩ }⟩
    · rw [Output.capacity_write, unlimited]
    · rw [Output.capacity_write, unlimited']

end Twins

namespace Runs

variable {scheme : Renaming} {related : α → β → Prop} {further : γ → δ → Prop}

/-- Computations that do not touch the output print nothing if they end together. -/
theorem quiet {run : Eval α} {run' : Eval β} (oblivious : run.Oblivious)
    (oblivious' : run'.Oblivious)
    (together : ∀ left right, scheme.Twins left right →
      scheme.Together related (run left) (run' right)) : scheme.Quiet related run run' := by
  intro left right twins
  exact ⟨together left right twins, rfl, .nothing fun _ => oblivious.output,
    .nothing fun _ => oblivious'.output⟩

theorem pure {value : α} {value' : β} (same : related value value') :
    scheme.Quiet related (Pure.pure value) (Pure.pure value') :=
  quiet (fun _ _ => rfl) (fun _ _ => rfl) fun _ _ twins => .done same twins

theorem exhausted : scheme.Quiet related Eval.exhausted Eval.exhausted :=
  quiet (fun _ _ => rfl) (fun _ _ => rfl) fun _ _ _ => .exhausted

theorem fail {failure : Failure} (known : failure.fallsThrough = false) :
    scheme.Quiet related (Eval.fail failure) (Eval.fail (failure.rename scheme.change)) :=
  quiet (fun _ _ => rfl) (fun _ _ => rfl) fun _ _ twins => .failed known twins

/-- Computations in a row print what each of them prints. -/
theorem bind {run : Eval α} {run' : Eval β} {next : α → Eval γ} {next' : β → Eval δ}
    {prints prints' : Machine → List Printed} {more : α → Machine → List Printed}
    {more' : β → Machine → List Printed} (start : scheme.Runs related run prints run' prints')
    (goOn : ∀ value value', related value value' →
      scheme.Runs further (next value) (more value) (next' value') (more' value')) :
    scheme.Runs further (run >>= next)
      (fun machine => prints machine ++ (run machine).thenPrints more) (run' >>= next')
      (fun machine => prints' machine ++ (run' machine).thenPrints more') := by
  intro left right twins
  obtain ⟨together, told, wrote, wrote'⟩ := start left right twins
  show scheme.Ends further left right (Eval.bind run next left)
    (prints left ++ (run left).thenPrints more) (Eval.bind run' next' right)
    (prints' right ++ (run' right).thenPrints more')
  unfold Eval.bind
  generalize run left = result at *
  generalize run' right = result' at *
  cases together with
  | done same twins =>
    obtain ⟨together, toldMore, wroteMore, wroteMore'⟩ := goOn _ _ same _ _ twins
    refine ⟨together, ?_, wrote.bind wroteMore, wrote'.bind wroteMore'⟩
    simp only [Result.thenPrints, told, toldMore, List.map_append]
  | failed known twins =>
    simp only [Result.thenPrints, List.append_nil]
    exact ⟨.failed known twins, told, wrote.fail, wrote'.fail⟩
  | exhausted =>
    simp only [Result.thenPrints, List.append_nil]
    exact ⟨.exhausted, told, .exhausted, .exhausted⟩

/-- Nothing more is printed if what follows prints nothing. -/
theorem thenQuiet {run : Eval α} {run' : Eval β} {next : α → Eval γ} {next' : β → Eval δ}
    {prints prints' : Machine → List Printed} (start : scheme.Runs related run prints run' prints')
    (goOn : ∀ value value', related value value' →
      scheme.Quiet further (next value) (next' value')) :
    scheme.Runs further (run >>= next) prints (run' >>= next') prints' := by
  have nothing {α : Type} (result : Result α) : (result.thenPrints fun _ _ => []) = [] := by
    cases result <;> rfl
  have whole := start.bind goOn
  simpa only [nothing, List.append_nil] using whole

/-- Behind a computation that prints nothing comes all that is printed. -/
theorem quietThen {run : Eval α} {run' : Eval β} {next : α → Eval γ} {next' : β → Eval δ}
    {more : α → Machine → List Printed} {more' : β → Machine → List Printed}
    (start : scheme.Quiet related run run')
    (goOn : ∀ value value', related value value' →
      scheme.Runs further (next value) (more value) (next' value') (more' value')) :
    scheme.Runs further (run >>= next) (fun machine => (run machine).thenPrints more)
      (run' >>= next') (fun machine => (run' machine).thenPrints more') :=
  Runs.bind start goOn

theorem raise {cause : RuntimeCause} {token token' : Token} (known : cause.fallsThrough = false)
    (line : token'.line = token.line) :
    scheme.Quiet related (Eval.raise token cause)
      (Eval.raise token' (cause.rename scheme.change)) := by
  have failure : Failure.fallsThrough (.runtime ⟨cause, token.line⟩) = false := known
  rw [Eval.raise, Eval.raise, line]
  exact fail failure

/-- What is read off twins is related if it is for their heaps. -/
theorem inspect (view : Heap → α) (view' : Heap → β)
    (same : ∀ machine : Machine, machine.Formed scheme.named scheme.hosts →
      related (view machine.heap) (view' (machine.heap.map (Value.rename scheme.change)))) :
    scheme.Quiet related (Eval.inspect fun machine => view machine.heap)
      (Eval.inspect fun machine => view' machine.heap) := by
  refine quiet (fun _ _ => rfl) (fun _ _ => rfl) fun left right twins => ?_
  have seen := same left twins.formed
  rw [← twins.heap] at seen
  exact .done seen twins

theorem activeScope : scheme.Quiet Eq Eval.activeScope Eval.activeScope :=
  quiet (fun _ _ => rfl) (fun _ _ => rfl) fun _ _ twins => .done twins.active.symm twins

theorem lookUp {name : Token} (names : scheme.named name) :
    scheme.Quiet scheme.values (Eval.lookUp name) (Eval.lookUp (name.rename scheme.change)) := by
  refine quiet (Eval.oblivious_lookUp _) (Eval.oblivious_lookUp _) fun left right twins => ?_
  have found := twins.get? names left.active
  simp only [Eval.lookUp, Token.rename, twins.active, found]
  cases bound : left.scopes.get? left.active name.lexeme with
  | some value => exact .done ⟨twins.formed.get? bound, rfl⟩ twins
  | none => exact .failed rfl twins

theorem define {name : Token} {value value' : Value} (names : scheme.named name)
    (same : scheme.values value value') :
    scheme.Quiet Eq (Eval.define name.lexeme value)
      (Eval.define (name.rename scheme.change).lexeme value') := by
  obtain ⟨formed, rfl⟩ := same
  refine quiet (fun _ _ => rfl) (fun _ _ => rfl) fun left right twins => ?_
  have defined := twins.define names formed left.active
  simp only [Eval.define, Token.rename, twins.active] at defined ⊢
  exact .done rfl defined

theorem assign {name : Token} {value value' : Value} (names : scheme.named name)
    (same : scheme.values value value') :
    scheme.Quiet Eq (Eval.assign name value) (Eval.assign (name.rename scheme.change) value') := by
  obtain ⟨formed, rfl⟩ := same
  refine quiet (Eval.oblivious_assign _ _) (Eval.oblivious_assign _ _) fun left right twins => ?_
  have found := twins.owner? names left.active
  simp only [Eval.assign, Token.rename, twins.active, found]
  cases left.scopes.owner? left.active name.lexeme with
  | some owner =>
    have defined := twins.define names formed owner
    rw [twins.active] at defined
    exact .done rfl defined
  | none => exact .failed rfl twins

theorem newArray {items items' : List Value} (same : scheme.lists items items') :
    scheme.Quiet scheme.values (Eval.newArray items) (Eval.newArray items') := by
  obtain ⟨formed, rfl⟩ := same
  refine quiet (fun _ _ => rfl) (fun _ _ => rfl) fun left right twins => ?_
  have added := twins.withHeap (twins.formed.addArray formed)
  rw [← Heap.add_map, ← twins.heap] at added
  have place : right.heap.size = left.heap.size := by rw [twins.heap, Heap.size_map]
  exact .done ⟨trivial, congrArg Value.array place⟩ added

theorem newFunction {callable : Callable} (formed : callable.Formed scheme.named scheme.hosts) :
    scheme.Quiet scheme.values (Eval.newFunction callable)
      (Eval.newFunction (callable.rename scheme.change)) := by
  refine quiet (fun _ _ => rfl) (fun _ _ => rfl) fun left right twins => ?_
  have unchanged := twins.formed
  have same : Value.function right.functions (callable.rename scheme.change) =
      (Value.function left.functions callable).rename scheme.change := by
    rw [twins.functions]
    rfl
  exact .done ⟨formed, same⟩
    { twins with
      formed := ⟨unchanged.bound, unchanged.kept⟩
      functions := congrArg (· + 1) twins.functions }

theorem writeElement {value value' : Value} (same : scheme.values value value') (array : ArrayId)
    (place : Nat) :
    scheme.Quiet Eq (Eval.writeElement array place value)
      (Eval.writeElement array place value') := by
  obtain ⟨formed, rfl⟩ := same
  refine quiet (fun _ _ => rfl) (fun _ _ => rfl) fun left right twins => ?_
  have written := twins.withHeap (twins.formed.write formed array place)
  rw [← Heap.write_map, ← twins.heap] at written
  exact .done rfl written

theorem appendElement {value value' : Value} (same : scheme.values value value')
    (array : ArrayId) :
    scheme.Quiet Eq (Eval.appendElement array value) (Eval.appendElement array value') := by
  obtain ⟨formed, rfl⟩ := same
  refine quiet (fun _ _ => rfl) (fun _ _ => rfl) fun left right twins => ?_
  have longer := twins.withHeap (twins.formed.append formed array)
  rw [← Heap.append_map, ← twins.heap] at longer
  exact .done rfl longer

theorem readClock : scheme.Quiet Eq Eval.readClock Eval.readClock := by
  refine quiet (fun _ _ => rfl) (fun _ _ => rfl) fun left right twins => ?_
  have unchanged := twins.formed
  have same := twins.clock
  exact .done (by rw [same])
    { twins with formed := ⟨unchanged.bound, unchanged.kept⟩, clock := by rw [same] }

theorem flush : scheme.Quiet Eq Eval.flush Eval.flush := by
  intro left right twins
  have alike : right.output.flushable = left.output.flushable := by
    rcases twins.output with ⟨_, same⟩ | ⟨_, _, same⟩
    · rw [same]
    · exact same
  unfold Eval.flush
  rw [alike]
  have done (machine : Machine) : Writes machine.output [] (.done () machine) :=
    .nothing (by rintro _ ⟨⟩; rfl)
  have failed (machine : Machine) (failure : Failure) :
      Writes machine.output [] (.failed failure machine : Result Unit) :=
    .nothing (by rintro _ ⟨⟩; rfl)
  split
  · exact ⟨.done rfl twins, rfl, done left, done right⟩
  · exact ⟨.failed rfl twins, rfl, failed left _, failed right _⟩

/-- A print writes the text of the value as it is then. -/
theorem print {value value' : Value} (same : scheme.values value value') :
    scheme.Runs scheme.Flows
      (do
        Eval.write ((← Eval.inspect fun machine => value.text machine.heap) ++ "\n")
        return .normal)
      (fun machine => [⟨value, machine.heap⟩])
      (do
        Eval.write ((← Eval.inspect fun machine => value'.text machine.heap) ++ "\n")
        return .normal)
      (fun machine => [⟨value', machine.heap⟩]) := by
  obtain ⟨formed, rfl⟩ := same
  intro left right twins
  have told : (⟨value.rename scheme.change, right.heap⟩ : Printed) =
      Printed.rename scheme.change ⟨value, left.heap⟩ := by
    rw [twins.heap]
    rfl
  rw [print_eq, print_eq]
  beta_reduce
  rw [told]
  refine ⟨?_, rfl, .print left _, .print right _⟩
  obtain ⟨fits, after⟩ := twins.write ⟨value, left.heap⟩
  unfold Machine.print
  rw [← fits]
  split
  · exact .done .normal after
  · exact .failed rfl after

theorem inScope {run : Eval α} {run' : Eval β} {prints prints' : Machine → List Printed}
    (parent : Option ScopeId) (body : scheme.Runs related run prints run' prints') :
    scheme.Runs related (Eval.inScope parent run) (fun machine => prints (machine.enter parent))
      (Eval.inScope parent run') (fun machine => prints' (machine.enter parent)) := by
  intro left right twins
  obtain ⟨together, told, wrote, wrote'⟩ := body _ _ (twins.enter parent)
  rw [Eval.inScope_eq, Eval.inScope_eq]
  refine ⟨?_, told, wrote.withActive left.active, wrote'.withActive right.active⟩
  rw [twins.active]
  generalize run (left.enter parent) = result at together
  generalize run' (right.enter parent) = result' at together
  cases together with
  | done same twins => exact .done same (twins.withActive left.active)
  | failed known twins => exact .failed known (twins.withActive left.active)
  | exhausted => exact .exhausted

/-- A block runs in a new scope within the active one. -/
theorem block {run : Eval α} {run' : Eval β} {prints prints' : Machine → List Printed}
    (body : scheme.Runs related run prints run' prints') :
    scheme.Runs related
      (do
        Eval.inScope (some (← Eval.activeScope)) run)
      (fun machine => prints (machine.enter (some machine.active)))
      (do
        Eval.inScope (some (← Eval.activeScope)) run')
      (fun machine => prints' (machine.enter (some machine.active))) := by
  have inner (scope scope' : ScopeId) (same : scope = scope') :
      scheme.Runs related (Eval.inScope (some scope) run)
        (fun machine => prints (machine.enter (some scope))) (Eval.inScope (some scope') run')
        (fun machine => prints' (machine.enter (some scope'))) := by
    subst same
    exact inScope (some scope) body
  exact quietThen activeScope inner

end Runs
end Renaming
end Script
