import Script.Proofs.Evaluation.Overlay
import Script.Proofs.Scope.Rooted

/-! What programs that run later can tell about the machine that they find. -/

namespace Script

/-- Statements to be executed from a scope, and the steps allowed for them. -/
structure Request where
  steps : Nat
  scope : ScopeId
  statements : List Stmt

/-- What is seen of a returned value. -/
def Flow.shown (heap : Heap) : Flow → Option String
  | .normal => none
  | .returned value => some (value.text heap)

namespace Machine

/-- How a request ends, and the machine behind it: the one before it if that is exhausted. -/
def reply (machine : Machine) (request : Request) : Ending (Option String) × Machine :=
  match executeAll (execute request.steps) request.statements
      { machine with active := request.scope } with
  | .done flow after => (.value (flow.shown after.heap), after)
  | .failed failure after => (.failed failure, after)
  | .exhausted => (.exhausted, machine)

/-- How requests end one after another, each with the output up to then. -/
def replies (machine : Machine) : List Request → List (Ending (Option String) × Output)
  | [] => []
  | request :: rest =>
    ((machine.reply request).1, (machine.reply request).2.output) ::
      (machine.reply request).2.replies rest

/-- Nothing that runs later from one of the first `known` scopes tells two machines apart. -/
structure Indistinguishable (known : Nat) (left right : Machine) : Prop where
  active : left.active = right.active
  output : left.output = right.output
  replies : ∀ requests : List Request, (∀ request ∈ requests, request.scope < known) →
    left.replies requests = right.replies requests

end Machine

/-- Two runs that end alike for all that runs later, also where it is given what they return. -/
inductive Result.Indistinguishable (known : Nat) : Result Flow → Result Flow → Prop where
  | normal {left right : Machine} (same : left.Indistinguishable known right) :
      Indistinguishable known (.done .normal left) (.done .normal right)
  | returned {value value' : Value} {left right : Machine}
      (same : left.Indistinguishable known right)
      (shown : value.text left.heap = value'.text right.heap)
      (given : ∀ scope < known, ∀ name,
        (left.bind scope name value).Indistinguishable known (right.bind scope name value')) :
      Indistinguishable known (.done (.returned value) left) (.done (.returned value') right)
  | failed (failure : Failure) {left right : Machine} (same : left.Indistinguishable known right) :
      Indistinguishable known (.failed failure left) (.failed failure right)

namespace Overlay

variable {known : Nat} {stage later : Overlay} {first second : ScopeId} {left right : Machine}

/-- The first scopes stand for themselves. -/
def Fixes (stage : Overlay) (known : Nat) : Prop :=
  ∀ scope < known, scope < stage.first ∧ stage.image scope = scope ∧ scope ∉ stage.blank

theorem Fixes.grow (fixes : stage.Fixes known) (grown : stage.Grows later) : later.Fixes known := by
  intro scope inside
  obtain ⟨made, same, plain⟩ := fixes scope inside
  exact ⟨Nat.lt_of_lt_of_le made grown.first_le, (grown.image_eq scope made).trans same,
    fun hides => plain ((grown.blank_iff scope made).mp hides)⟩

theorem Fixes.scopes (fixes : stage.Fixes known) {scope : ScopeId} (inside : scope < known) :
    stage.Scopes scope scope := ⟨(fixes scope inside).1, (fixes scope inside).2.1⟩

theorem reply_eq (machines : simulation.Machines stage first second left right)
    (fixes : stage.Fixes known) {request : Request} (inside : request.scope < known) :
    (left.reply request).1 = (right.reply request).1 ∧
      ∃ later first second, stage.Grows later ∧
        simulation.Machines later first second (left.reply request).2 (right.reply request).2 := by
  have executes := (simulation.runs .together request.steps request.steps rfl).2
  have runs := Simulation.Runs.executeAll executes (fixes.scopes inside) request.statements
    fun _ _ _ _ => (fixes _ inside).2.2
  have entered : simulation.Machines stage request.scope request.scope
      { left with active := request.scope } { right with active := request.scope } :=
    machines.withActive
  have ends := runs stage _ _ (.refl stage) entered
  unfold Machine.reply
  generalize executeAll (execute request.steps) request.statements
    { left with active := request.scope } = result at ends ⊢
  generalize executeAll (execute request.steps) request.statements
    { right with active := request.scope } = result' at ends ⊢
  cases ends with
  | @done _ _ _ left right grown machines same =>
    refine ⟨?_, _, _, _, grown, machines⟩
    cases same with
    | normal => rfl
    | @returned value value' same =>
      have shown : value.text left.heap = value'.text right.heap :=
        Value.text_across (simulation.heaps machines.stores) same
      simp only [Flow.shown, shown]
  | failed failure grown machines => exact ⟨rfl, _, _, _, grown, machines⟩
  | exhausted => exact ⟨rfl, _, _, _, .refl stage, machines⟩
  | firstShort short | secondShort short => cases short

theorem replies_eq (machines : simulation.Machines stage first second left right)
    (fixes : stage.Fixes known) {requests : List Request}
    (inside : ∀ request ∈ requests, request.scope < known) :
    left.replies requests = right.replies requests := by
  induction requests generalizing stage first second left right with
  | nil => rfl
  | cons request rest ih =>
    obtain ⟨own, others⟩ := List.forall_mem_cons.mp inside
    obtain ⟨same, later, first, second, grown, machines⟩ := reply_eq machines fixes own
    simp only [Machine.replies, same, machines.output, ih machines (fixes.grow grown) others]

/-- Blank scopes do not show. -/
theorem indistinguishable (machines : simulation.Machines stage first second left right)
    (fixes : stage.Fixes known) (same : first = second) : left.Indistinguishable known right :=
  ⟨machines.first.trans (same.trans machines.second.symm), machines.output,
    fun _ inside => replies_eq machines fixes inside⟩

theorem machines_bind {value value' : Value}
    (machines : simulation.Machines stage first second left right) (fixes : stage.Fixes known)
    {scope : ScopeId} (inside : scope < known) (same : stage.Values Eq value value')
    (name : String) :
    simulation.Machines stage first second (left.bind scope name value)
      (right.bind scope name value') := by
  obtain ⟨made, fixed, plain⟩ := fixes scope inside
  have stores := Stores.define machines.stores made plain same name
  rw [fixed] at stores
  exact machines.withStores stores

theorem indistinguishable_of_ends {pace : Pace} {result result' : Result Flow}
    (fixes : stage.Fixes known)
    (ends : simulation.Ends pace stage first first simulation.flows result result')
    (left_ended : result ≠ .exhausted) (right_ended : result' ≠ .exhausted) :
    Result.Indistinguishable known result result' := by
  cases ends with
  | done grown machines same =>
    have fixes := fixes.grow grown
    have alike := indistinguishable machines fixes rfl
    cases same with
    | normal => exact .normal alike
    | returned same =>
      exact .returned alike (Value.text_across (simulation.heaps machines.stores) same)
        fun scope inside name =>
          indistinguishable (machines_bind machines fixes inside same name) fixes rfl
  | failed failure grown machines =>
    exact .failed failure (indistinguishable machines (fixes.grow grown) rfl)
  | exhausted => exact absurd rfl left_ended
  | firstShort => exact absurd rfl left_ended
  | secondShort => exact absurd rfl right_ended

/-- At first every scope stands for itself. -/
def plain (machine : Machine) : Overlay where
  image id := id
  blank := ∅
  first := machine.scopes.size
  second := machine.scopes.size

theorem fixes_plain (machine : Machine) : (plain machine).Fixes machine.scopes.size :=
  fun _ inside => ⟨inside, rfl, fun hides => hides⟩

theorem values_plain {code : List Stmt → List Stmt → Prop} (same : ∀ body, code body body)
    {machine : Machine} {value : Value} (owns : machine.Owns value) :
    (plain machine).Values code value value := by
  refine Value.corresponds_self same (fun _ _ => rfl) ?_
  rintro id declaration closure rfl
  exact ⟨owns _ (List.mem_singleton_self _), rfl⟩

theorem machines_plain {code : List Stmt → List Stmt → Prop} (same : ∀ body, code body body)
    {machine : Machine} (sound : machine.Sound) :
    (simulation code).Machines (plain machine) machine.active machine.active machine machine := by
  refine ⟨⟨rfl, rfl, fun _ hides => hides.elim, fun _ made => made, fun _ hides => hides.elim,
    fun _ hides => hides.elim, fun id _ _ name => ?_, fun id _ _ => ?_,
    fun _ _ _ _ _ _ same => same, rfl, fun array => ?_⟩, rfl, rfl, rfl, rfl, rfl⟩
  · show Option.Rel _ (machine.store.scopes.own? id name) (machine.store.scopes.own? id name)
    cases found : machine.store.scopes.own? id name with
    | none => exact .none
    | some value =>
      exact .some (values_plain same fun cell refers => sound.closed _ cell (.bound found refers))
  · exact Option.map_id'.symm
  · exact List.forall₂_same.mpr fun value member =>
      values_plain same fun cell refers => sound.closed _ cell (.element member refers)

end Overlay
end Script
