import Script.Evaluation
import Script.Proofs.Value.Correspondence

/-! Two runs side by side. A simulation says which scopes and arrays of one run stand for which of
the other, as far as they were made, and that the elementary steps on stores keep to it. -/

namespace Script

/-- What a machine holds: its scopes and its arrays. -/
structure Store where
  scopes : ScopeTree Value
  heap : Heap

def Machine.store (machine : Machine) : Store := ⟨machine.scopes, machine.heap⟩

/-- The same end with another scope active. -/
def Result.withActive {α : Type} (active : ScopeId) : Result α → Result α
  | .done value machine => .done value { machine with active := active }
  | .failed failure machine => .failed failure { machine with active := active }
  | .exhausted => .exhausted

/-- The machine in a new scope enclosed by another. -/
def Machine.enter (machine : Machine) (parent : Option ScopeId) : Machine :=
  { machine with scopes := machine.scopes.add parent, active := machine.scopes.size }

theorem Eval.inScope_eq {α : Type} (parent : Option ScopeId) (body : Eval α) (machine : Machine) :
    Eval.inScope parent body machine =
      (body (machine.enter parent)).withActive machine.active := by
  unfold Eval.inScope Result.withActive
  rfl

/-- Which scopes and arrays of one run stand for which of another; `code` says which bodies of
functions do. A stage is what two runs have come to; what stands for what at one stage does so at
every later one. -/
structure Correspondence (code : List Stmt → List Stmt → Prop) where
  Stage : Type
  grows : Stage → Stage → Prop
  grows_refl : ∀ stage, grows stage stage
  grows_trans : ∀ {first second third}, grows first second → grows second third →
    grows first third
  scopes : Stage → ScopeId → ScopeId → Prop
  arrays : Stage → ArrayId → ArrayId → Prop
  scopes_grow : ∀ {stage later}, grows stage later → ∀ {left right}, scopes stage left right →
    scopes later left right
  arrays_grow : ∀ {stage later}, grows stage later → ∀ {left right}, arrays stage left right →
    arrays later left right

variable {code : List Stmt → List Stmt → Prop}

def Correspondence.values (between : Correspondence code) (stage : between.Stage) :
    Value → Value → Prop :=
  Value.Corresponds code (between.scopes stage) (between.arrays stage)

theorem Correspondence.values_grow {between : Correspondence code} {stage later : between.Stage}
    {value value' : Value} (grown : between.grows stage later)
    (same : between.values stage value value') : between.values later value value' :=
  same.mono (fun _ _ => between.scopes_grow grown) fun _ _ => between.arrays_grow grown

/-- A correspondence that the elementary steps keep. `declares` says which names may be declared in
which scope of the first run. -/
structure Simulation (code : List Stmt → List Stmt → Prop := Eq) extends Correspondence code where
  stores : Stage → Store → Store → Prop
  declares : Stage → ScopeId → String → Prop
  declares_grow : ∀ {stage later}, grows stage later → ∀ {left right}, scopes stage left right →
    ∀ name, declares stage left name → declares later left name
  heaps : ∀ {stage left right}, stores stage left right →
    Heap.Corresponds code (scopes stage) (arrays stage) left.heap right.heap
  get : ∀ {stage left right first second}, stores stage left right → scopes stage first second →
    ∀ name, Option.Rel (toCorrespondence.values stage) (left.scopes.get? first name)
      (right.scopes.get? second name)
  assign : ∀ {stage left right first second value value'}, stores stage left right →
    scopes stage first second → toCorrespondence.values stage value value' →
    ∀ name, Option.Rel
      (fun tree tree' => ∃ later, grows stage later ∧
        stores later ⟨tree, left.heap⟩ ⟨tree', right.heap⟩)
      (left.scopes.assign? first name value) (right.scopes.assign? second name value')
  define : ∀ {stage left right first second value value'}, stores stage left right →
    scopes stage first second → toCorrespondence.values stage value value' →
    ∀ name, declares stage first name → ∃ later, grows stage later ∧
      stores later ⟨left.scopes.define first name value, left.heap⟩
        ⟨right.scopes.define second name value', right.heap⟩
  enter : ∀ {stage left right first second}, stores stage left right →
    scopes stage first second → ∃ later, grows stage later ∧
      stores later ⟨left.scopes.add (some first), left.heap⟩
        ⟨right.scopes.add (some second), right.heap⟩ ∧
      scopes later left.scopes.size right.scopes.size ∧
      ∀ name, declares later left.scopes.size name
  makeArray : ∀ {stage left right} {items items' : List Value}, stores stage left right →
    List.Forall₂ (toCorrespondence.values stage) items items' → ∃ later, grows stage later ∧
      stores later ⟨left.scopes, left.heap.add items.toArray⟩
        ⟨right.scopes, right.heap.add items'.toArray⟩ ∧
      arrays later left.heap.size right.heap.size
  write : ∀ {stage left right first second value value'}, stores stage left right →
    arrays stage first second → toCorrespondence.values stage value value' → ∀ place,
      stores stage ⟨left.scopes, left.heap.write first place value⟩
        ⟨right.scopes, right.heap.write second place value'⟩
  append : ∀ {stage left right first second value value'}, stores stage left right →
    arrays stage first second → toCorrespondence.values stage value value' →
      stores stage ⟨left.scopes, left.heap.append first value⟩
        ⟨right.scopes, right.heap.append second value'⟩

/-- Which of two runs may be allowed fewer steps than the other. -/
inductive Pace where
  | together | firstShort | secondShort
  deriving DecidableEq

def Pace.admits : Pace → Nat → Nat → Prop
  | .together, first, second => first = second
  | .firstShort, first, second => first ≤ second
  | .secondShort, first, second => second ≤ first

theorem Pace.admits_of_succ {pace : Pace} {first second : Nat}
    (admitted : pace.admits (first + 1) (second + 1)) : pace.admits first second := by
  cases pace <;> simp only [admits] at admitted ⊢ <;> omega

namespace Simulation

variable {α β γ δ : Type}

/-- Two machines whose stores correspond and that agree in all else; `first` and `second` are their
active scopes. -/
structure Machines (between : Simulation code) (stage : between.Stage) (first second : ScopeId)
    (left right : Machine) : Prop where
  stores : between.stores stage left.store right.store
  first : left.active = first
  second : right.active = second
  functions : left.functions = right.functions
  clock : left.clock = right.clock
  output : left.output = right.output

/-- Two runs end alike: in the active scopes they began in, with related values or with the same
failure, or both run out of steps. One that may be short of steps may run out alone. -/
inductive Ends (between : Simulation code) (pace : Pace) (stage : between.Stage)
    (first second : ScopeId) (related : between.Stage → α → β → Prop) :
    Result α → Result β → Prop where
  | done {later : between.Stage} {value : α} {value' : β} {left right : Machine}
      (grown : between.grows stage later)
      (machines : between.Machines later first second left right)
      (same : related later value value') :
      Ends between pace stage first second related (.done value left) (.done value' right)
  | failed {later : between.Stage} {left right : Machine} (failure : Failure)
      (grown : between.grows stage later)
      (machines : between.Machines later first second left right) :
      Ends between pace stage first second related (.failed failure left) (.failed failure right)
  | exhausted : Ends between pace stage first second related .exhausted .exhausted
  | firstShort (short : pace = .firstShort) (right : Result β) :
      Ends between pace stage first second related .exhausted right
  | secondShort (short : pace = .secondShort) (left : Result α) :
      Ends between pace stage first second related left .exhausted

/-- Two computations end alike wherever they begin alike, at this stage or later. -/
def Runs (between : Simulation code) (pace : Pace) (stage : between.Stage) (first second : ScopeId)
    (related : between.Stage → α → β → Prop) (run : Eval α) (run' : Eval β) : Prop :=
  ∀ later left right, between.grows stage later → between.Machines later first second left right →
    between.Ends pace later first second related (run left) (run' right)

variable {between : Simulation code} {pace : Pace} {stage : between.Stage} {first second : ScopeId}
  {related : between.Stage → α → β → Prop} {further : between.Stage → γ → δ → Prop}

theorem Ends.earlier {later : between.Stage} {result : Result α} {result' : Result β}
    (grown : between.grows stage later)
    (ends : between.Ends pace later first second related result result') :
    between.Ends pace stage first second related result result' := by
  cases ends with
  | done grown' machines same => exact .done (between.grows_trans grown grown') machines same
  | failed failure grown' machines =>
    exact .failed failure (between.grows_trans grown grown') machines
  | exhausted => exact .exhausted
  | firstShort short => exact .firstShort short _
  | secondShort short => exact .secondShort short _

/-- Only the run that may be short of steps runs out of them alone. -/
theorem Ends.first_exhausted {result : Result α}
    (ends : between.Ends .firstShort stage first second related result (.exhausted : Result β)) :
    result = .exhausted := by
  cases ends with
  | exhausted | firstShort => rfl
  | secondShort short => cases short

theorem Ends.second_exhausted {result' : Result β}
    (ends : between.Ends .secondShort stage first second related (.exhausted : Result α) result') :
    result' = .exhausted := by
  cases ends with
  | exhausted | secondShort => rfl
  | firstShort short => cases short

theorem Machines.withActive {left right : Machine} {other other' : ScopeId}
    (machines : between.Machines stage first second left right) :
    between.Machines stage other other' { left with active := other }
      { right with active := other' } :=
  ⟨machines.stores, rfl, rfl, machines.functions, machines.clock, machines.output⟩

theorem Ends.withActive {result : Result α} {result' : Result β}
    (ends : between.Ends pace stage first second related result result')
    (other other' : ScopeId) :
    between.Ends pace stage other other' related (result.withActive other)
      (result'.withActive other') := by
  cases ends with
  | done grown machines same => exact .done grown machines.withActive same
  | failed failure grown machines => exact .failed failure grown machines.withActive
  | exhausted => exact .exhausted
  | firstShort short => exact .firstShort short _
  | secondShort short => exact .secondShort short _

/-- The first run may come back from a scope of its own. -/
theorem Ends.withFirst {result : Result α} {result' : Result β}
    (ends : between.Ends pace stage first second related result result') (other : ScopeId) :
    between.Ends pace stage other second related (result.withActive other) result' := by
  cases ends with
  | done grown machines same =>
    exact .done grown { machines with first := rfl } same
  | failed failure grown machines => exact .failed failure grown { machines with first := rfl }
  | exhausted => exact .exhausted
  | firstShort short => exact .firstShort short _
  | secondShort short => exact .secondShort short _

theorem Machines.withStores {later : between.Stage} {left right : Machine}
    {tree tree' : ScopeTree Value} {heap heap' : Heap}
    (machines : between.Machines stage first second left right)
    (stores : between.stores later ⟨tree, heap⟩ ⟨tree', heap'⟩) :
    between.Machines later first second { left with scopes := tree, heap := heap }
      { right with scopes := tree', heap := heap' } :=
  ⟨stores, machines.first, machines.second, machines.functions, machines.clock, machines.output⟩

namespace Runs

variable {run : Eval α} {run' : Eval β}

theorem later {later : between.Stage} (runs : between.Runs pace stage first second related run run')
    (grown : between.grows stage later) :
    between.Runs pace later first second related run run' :=
  fun _ left right grown' machines => runs _ left right (between.grows_trans grown grown') machines

theorem pure {value : α} {value' : β}
    (same : ∀ later, between.grows stage later → related later value value') :
    between.Runs pace stage first second related (Pure.pure value : Eval α) (Pure.pure value') :=
  fun later _ _ grown machines => .done (between.grows_refl later) machines (same later grown)

theorem fail (failure : Failure) :
    between.Runs pace stage first second related (Eval.fail failure : Eval α)
      (Eval.fail failure) :=
  fun later _ _ _ machines => .failed failure (between.grows_refl later) machines

theorem raise (token : Token) (cause : RuntimeCause) :
    between.Runs pace stage first second related (Eval.raise token cause : Eval α)
      (Eval.raise token cause) := fail _

theorem bind {next : α → Eval γ} {next' : β → Eval δ}
    (start : between.Runs pace stage first second related run run')
    (goOn : ∀ later value value', between.grows stage later → related later value value' →
      between.Runs pace later first second further (next value) (next' value')) :
    between.Runs pace stage first second further (run >>= next) (run' >>= next') := by
  intro now left right grown machines
  have ends := start now left right grown machines
  show between.Ends pace now first second further (Eval.bind run next left)
    (Eval.bind run' next' right)
  unfold Eval.bind
  generalize run left = result, run' right = result' at ends
  cases ends with
  | @done after value value' left right grown' machines same =>
    have whole := between.grows_trans grown grown'
    exact (goOn after value value' whole same after left right (between.grows_refl after)
      machines).earlier grown'
  | failed failure grown' machines => exact .failed failure grown' machines
  | exhausted => exact .exhausted
  | firstShort short => exact .firstShort short _
  | secondShort short => exact .secondShort short _

/-! The elementary steps. -/

theorem lookUp (here : between.scopes stage first second) (name : Token) :
    between.Runs pace stage first second between.values (Eval.lookUp name) (Eval.lookUp name) := by
  intro later left right grown machines
  have found : Option.Rel (between.values later) (left.scopes.get? first name.lexeme)
      (right.scopes.get? second name.lexeme) :=
    between.get machines.stores (between.scopes_grow grown here) name.lexeme
  simp only [Eval.lookUp, machines.first, machines.second]
  generalize left.scopes.get? first name.lexeme = value at found
  generalize right.scopes.get? second name.lexeme = value' at found
  cases found with
  | some same => exact .done (between.grows_refl later) machines same
  | none => exact raise name _ later left right grown machines

theorem define {value value' : Value} {name : String} (here : between.scopes stage first second)
    (declares : between.declares stage first name) (same : between.values stage value value') :
    between.Runs pace stage first second (fun _ _ _ => True) (Eval.define name value)
      (Eval.define name value') := by
  intro later left right grown machines
  have declares' := between.declares_grow grown here name declares
  obtain ⟨after, grown', stores⟩ := between.define machines.stores
    (between.scopes_grow grown here) (between.values_grow grown same) name declares'
  obtain rfl := machines.first
  obtain rfl := machines.second
  exact .done grown' (machines.withStores stores) trivial

theorem assign {value value' : Value} (here : between.scopes stage first second) (name : Token)
    (same : between.values stage value value') :
    between.Runs pace stage first second (fun _ _ _ => True) (Eval.assign name value)
      (Eval.assign name value') := by
  intro later left right grown machines
  obtain rfl := machines.first
  obtain rfl := machines.second
  have assigned := between.assign machines.stores (between.scopes_grow grown here)
    (between.values_grow grown same) name.lexeme
  simp only [ScopeTree.assign?, Machine.store] at assigned
  unfold Eval.assign
  generalize left.scopes.owner? left.active name.lexeme = owner at assigned
  generalize right.scopes.owner? right.active name.lexeme = owner' at assigned
  cases owner with
  | none =>
    cases owner' with
    | none => exact raise name _ later left right grown machines
    | some owner' => cases assigned
  | some owner =>
    cases owner' with
    | none => cases assigned
    | some owner' =>
      cases assigned with
      | some assigned =>
        obtain ⟨after, grown', stores⟩ := assigned
        exact .done grown' (machines.withStores stores) trivial

/-- A computation in a new scope, where any name may be declared. -/
theorem inScope {run : Eval α} {run' : Eval β} {parent parent' : ScopeId}
    (enclosed : between.scopes stage parent parent')
    (body : ∀ later inner inner', between.grows stage later → between.scopes later inner inner' →
      (∀ name, between.declares later inner name) →
      between.Runs pace later inner inner' related run run') :
    between.Runs pace stage first second related (Eval.inScope (some parent) run)
      (Eval.inScope (some parent') run') := by
  intro later left right grown machines
  obtain ⟨inside, grown', stores, fresh, declares⟩ :=
    between.enter machines.stores (between.scopes_grow grown enclosed)
  have entered : between.Machines inside left.scopes.size right.scopes.size
      (left.enter (some parent)) (right.enter (some parent')) :=
    (machines.withStores stores).withActive
  have ends := body inside _ _ (between.grows_trans grown grown') fresh declares inside _ _
    (between.grows_refl inside) entered
  obtain rfl := machines.first
  obtain rfl := machines.second
  rw [Eval.inScope_eq, Eval.inScope_eq]
  exact (ends.withActive _ _).earlier grown'

theorem newArray {items items' : List Value}
    (same : List.Forall₂ (between.values stage) items items') :
    between.Runs pace stage first second between.values (Eval.newArray items)
      (Eval.newArray items') := by
  intro later left right grown machines
  obtain ⟨after, grown', stores, fresh⟩ := between.makeArray machines.stores
    (same.imp fun _ _ => between.values_grow grown)
  exact .done grown' (machines.withStores stores) (.array fresh)

/-- A declared function is known by its number, and its closure is the active scope. -/
theorem newFunction {scope scope' : ScopeId} (closure : between.scopes stage scope scope')
    (name : Token) (parameters : List Token) {body body' : List Stmt} (runs : code body body') :
    between.Runs pace stage first second between.values
      (Eval.newFunction (.declared ⟨name, parameters, body⟩ scope))
      (Eval.newFunction (.declared ⟨name, parameters, body'⟩ scope')) := by
  intro later left right grown machines
  simp only [Eval.newFunction, machines.functions]
  exact .done (between.grows_refl later)
    ⟨machines.stores, machines.first, machines.second, rfl, machines.clock, machines.output⟩
    (.declared _ name parameters runs (between.scopes_grow grown closure))

theorem activeScope (here : between.scopes stage first second) :
    between.Runs pace stage first second between.scopes Eval.activeScope Eval.activeScope := by
  intro later left right grown machines
  simp only [Eval.activeScope, Eval.inspect, machines.first, machines.second]
  exact .done (between.grows_refl later) machines (between.scopes_grow grown here)

theorem writeElement {array array' : ArrayId} {value value' : Value}
    (written : between.arrays stage array array') (place : Nat)
    (same : between.values stage value value') :
    between.Runs pace stage first second (fun _ _ _ => True) (Eval.writeElement array place value)
      (Eval.writeElement array' place value') := by
  intro later left right grown machines
  have stores := between.write machines.stores (between.arrays_grow grown written)
    (between.values_grow grown same) place
  exact .done (between.grows_refl later) (machines.withStores stores) trivial

theorem appendElement {array array' : ArrayId} {value value' : Value}
    (written : between.arrays stage array array') (same : between.values stage value value') :
    between.Runs pace stage first second (fun _ _ _ => True) (Eval.appendElement array value)
      (Eval.appendElement array' value') := by
  intro later left right grown machines
  have stores := between.append machines.stores (between.arrays_grow grown written)
    (between.values_grow grown same)
  exact .done (between.grows_refl later) (machines.withStores stores) trivial

theorem readClock :
    between.Runs pace stage first second (fun _ => Eq) Eval.readClock Eval.readClock := by
  intro later left right grown machines
  simp only [Eval.readClock, machines.clock]
  exact .done (between.grows_refl later)
    ⟨machines.stores, machines.first, machines.second, machines.functions, rfl, machines.output⟩
    rfl

theorem write (text : String) :
    between.Runs pace stage first second (fun _ _ _ => True) (Eval.write text)
      (Eval.write text) := by
  intro later left right grown machines
  simp only [Eval.write, machines.output]
  have written : between.Machines later first second
      { left with output := right.output.write (Utf8.encode text) }
      { right with output := right.output.write (Utf8.encode text) } :=
    ⟨machines.stores, machines.first, machines.second, machines.functions, machines.clock, rfl⟩
  split
  · exact .done (between.grows_refl later) written trivial
  · exact .failed _ (between.grows_refl later) written

theorem flush :
    between.Runs pace stage first second (fun _ _ _ => True) Eval.flush Eval.flush := by
  intro later left right grown machines
  simp only [Eval.flush, machines.output]
  split
  · exact .done (between.grows_refl later) machines trivial
  · exact .failed _ (between.grows_refl later) machines

/-- What is read off the machines is related if their heaps correspond. -/
theorem inspect (related : between.Stage → α → β → Prop) {view : Machine → α} {view' : Machine → β}
    (same : ∀ later left right, between.grows stage later →
      Heap.Corresponds code (between.scopes later) (between.arrays later) left.heap right.heap →
      related later (view left) (view' right)) :
    between.Runs pace stage first second related (Eval.inspect view) (Eval.inspect view') :=
  fun later left right grown machines =>
    .done (between.grows_refl later) machines (same later left right grown
      (between.heaps machines.stores))

end Runs
end Simulation
end Script
