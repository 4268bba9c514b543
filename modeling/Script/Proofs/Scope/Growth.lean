import Script.Proofs.Evaluation.Lockstep
import Script.Proofs.Scope.Chain

/-! How scopes change in the course of a run: new ones are made, links stay, and a scope that was
there at the start only gains names that may be declared in it. More steps change nothing in a run
that ends. Both follow from a simulation of a run by itself. -/

namespace Script

theorem Value.corresponds_eq_iff {value other : Value} :
    Value.Corresponds Eq Eq Eq value other ↔ value = other := by
  constructor
  · rintro (_ | _ | _ | _ | rfl | _ | ⟨_, _, _, rfl, rfl⟩) <;> rfl
  · rintro rfl
    exact corresponds_self (fun _ => rfl) (fun _ _ => rfl) fun _ _ _ _ => rfl

theorem Value.forall₂_corresponds_eq_iff {values others : List Value} :
    List.Forall₂ (Value.Corresponds Eq Eq Eq) values others ↔ values = others := by
  have same : Value.Corresponds Eq Eq Eq = Eq := by
    funext value other
    exact propext Value.corresponds_eq_iff
  rw [same, List.forall₂_eq_eq_eq]

theorem Heap.corresponds_refl (heap : Heap) : Heap.Corresponds Eq Eq Eq heap heap where
  elements same := Value.forall₂_corresponds_eq_iff.mpr (same ▸ rfl)
  made same := same ▸ .rfl
  apart same same' := same ▸ same' ▸ .rfl

/-- What may happen to scopes from one point of a run to a later one. `admits` says which names may
be added to the scopes that were there at the start, of which there were `origin`. -/
structure ScopeTree.Grows (origin : Nat) (admits : ScopeId → String → Prop)
    (tree later : ScopeTree Value) : Prop where
  size_le : tree.size ≤ later.size
  parent_eq : ∀ id < tree.size, later.parent? id = tree.parent? id
  keeps : ∀ id < tree.size, tree.names id ⊆ later.names id
  adds : ∀ id < origin, ∀ name ∈ later.names id, name ∈ tree.names id ∨ admits id name

namespace ScopeTree

variable {origin : Nat} {admits : ScopeId → String → Prop} {tree middle later : ScopeTree Value}

theorem Grows.refl (tree : ScopeTree Value) : Grows origin admits tree tree :=
  ⟨Nat.le_refl _, fun _ _ => rfl, fun _ _ => subset_rfl, fun _ _ _ bound => .inl bound⟩

theorem Grows.trans (first : Grows origin admits tree middle)
    (second : Grows origin admits middle later) : Grows origin admits tree later := by
  have inside (id : ScopeId) (made : id < tree.size) : id < middle.size :=
    Nat.lt_of_lt_of_le made first.size_le
  refine ⟨first.size_le.trans second.size_le, fun id made => ?_, fun id made => ?_,
    fun id original name bound => ?_⟩
  · exact (second.parent_eq id (inside id made)).trans (first.parent_eq id made)
  · exact (first.keeps id made).trans (second.keeps id (inside id made))
  · rcases second.adds id original name bound with bound | admitted
    · exact first.adds id original name bound
    · exact .inr admitted

/-- A definition under a name that its scope has or may have. -/
theorem grows_define (id : ScopeId) (name : String) (value : Value)
    (known : id < origin → name ∈ tree.names id ∨ admits id name) :
    Grows origin admits tree (tree.define id name value) := by
  refine ⟨by simp, fun other _ => by simp, fun other _ => ?_, fun other original sought bound => ?_⟩
  · rw [names_define]
    split
    · exact Set.subset_insert name _
    · exact subset_rfl
  · rw [names_define] at bound
    split at bound
    · rename_i own
      obtain ⟨rfl, _⟩ := own
      rcases Set.mem_insert_iff.mp bound with rfl | bound
      · exact known original
      · exact .inl bound
    · exact .inl bound

theorem grows_add (parent : Option ScopeId) : Grows origin admits tree (tree.add parent) := by
  refine ⟨by simp, fun id made => ?_, fun id _ => ?_, fun id _ name bound => ?_⟩
  · rw [parent?_add, if_neg (Nat.ne_of_lt made)]
  · rw [names_add]
  · rw [names_add] at bound
    exact .inl bound

/-- One run beside itself, and what becomes of its scopes. -/
def growth (origin : Nat) (admits : ScopeId → String → Prop) : Simulation where
  Stage := ScopeTree Value
  grows := Grows origin admits
  grows_refl := Grows.refl
  grows_trans := Grows.trans
  scopes _ := Eq
  arrays _ := Eq
  scopes_grow _ _ _ same := same
  arrays_grow _ _ _ same := same
  stores tree left right := left = right ∧ left.scopes = tree ∧ origin ≤ tree.size
  declares _ id name := id < origin → admits id name
  declares_grow _ _ _ _ _ declares := declares
  heaps := by
    rintro tree left _ ⟨rfl, _⟩
    exact left.heap.corresponds_refl
  get := by
    rintro tree left _ scope _ ⟨rfl, _⟩ rfl name
    cases left.scopes.get? scope name with
    | none => exact .none
    | some value => exact .some (Value.corresponds_eq_iff.mpr rfl)
  assign := by
    rintro tree left _ scope _ value _ ⟨rfl, rfl, started⟩ rfl same name
    obtain rfl := Value.corresponds_eq_iff.mp same
    unfold assign?
    cases found : left.scopes.owner? scope name with
    | none => exact .none
    | some owner =>
      exact .some ⟨_, grows_define owner name value fun _ => .inl (mem_names_of_owner? found),
        rfl, rfl, by simpa using started⟩
  define := by
    rintro tree left _ scope _ value _ ⟨rfl, rfl, started⟩ rfl same name declares
    obtain rfl := Value.corresponds_eq_iff.mp same
    exact ⟨_, grows_define scope name value fun original => .inr (declares original),
      rfl, rfl, by simpa using started⟩
  enter := by
    rintro tree left _ parent _ ⟨rfl, rfl, started⟩ rfl
    refine ⟨_, grows_add (some parent), ⟨rfl, rfl, ?_⟩, rfl, fun _ original => ?_⟩
    · exact started.trans (by simp)
    · exact absurd original (Nat.not_lt.mpr started)
  makeArray := by
    rintro tree left _ items _ ⟨rfl, rfl, started⟩ same
    obtain rfl := Value.forall₂_corresponds_eq_iff.mp same
    exact ⟨_, Grows.refl _, ⟨rfl, rfl, started⟩, rfl⟩
  write := by
    rintro tree left _ array _ value _ ⟨rfl, rfl, started⟩ rfl same place
    obtain rfl := Value.corresponds_eq_iff.mp same
    exact ⟨rfl, rfl, started⟩
  append := by
    rintro tree left _ array _ value _ ⟨rfl, rfl, started⟩ rfl same
    obtain rfl := Value.corresponds_eq_iff.mp same
    exact ⟨rfl, rfl, started⟩

end ScopeTree

variable {α : Type}

/-- The machine that a computation leaves, unless it runs out of steps. -/
def Result.machine? : Result α → Option Machine
  | .done _ machine | .failed _ machine => some machine
  | .exhausted => none

theorem Result.machine?_withActive (result : Result α) (active : ScopeId) :
    (result.withActive active).machine? =
      result.machine?.map fun after => { after with active := active } := by
  cases result <;> rfl

/-- The machine that a run beside itself leaves corresponds to itself. -/
theorem Simulation.Ends.alone {between : Simulation} {pace : Pace} {stage : between.Stage}
    {first second : ScopeId} {related : between.Stage → α → α → Prop} {result : Result α}
    {after : Machine} (ends : between.Ends pace stage first second related result result)
    (found : result.machine? = some after) :
    ∃ later, between.grows stage later ∧ between.Machines later first second after after ∧
      ∀ value, result = .done value after → related later value value := by
  cases ends with
  | done grown machines same =>
    cases found
    exact ⟨_, grown, machines, fun value done => by cases done; exact same⟩
  | failed failure grown machines =>
    cases found
    exact ⟨_, grown, machines, fun value done => nomatch done⟩
  | exhausted => cases found
  | firstShort => cases found
  | secondShort => cases found

open ScopeTree in
theorem grows_of_ends {origin : Nat} {admits : ScopeId → String → Prop} {tree : ScopeTree Value}
    {active : ScopeId} {related : (growth origin admits).Stage → α → α → Prop} {pace : Pace}
    {result : Result α} {after : Machine}
    (ends : (growth origin admits).Ends pace tree active active related result result)
    (found : result.machine? = some after) :
    after.active = active ∧ Grows origin admits tree after.scopes := by
  obtain ⟨later, grown, machines, _⟩ := ends.alone found
  obtain ⟨_, rfl, _⟩ := machines.stores
  exact ⟨machines.first, grown⟩

/-- A machine corresponds to itself. -/
theorem growth_machines (origin : Nat) (admits : ScopeId → String → Prop) (machine : Machine)
    (started : origin ≤ machine.scopes.size) :
    (ScopeTree.growth origin admits).Machines machine.scopes machine.active machine.active machine
      machine :=
  ⟨⟨rfl, rfl, started⟩, rfl, rfl, rfl, rfl, rfl⟩

/-- However an expression ends, the active scope is the one before, and the scopes have grown
without a new name in an old one. -/
theorem evaluate_grows {steps : Nat} {expr : Expr} {machine after : Machine}
    (ended : (evaluate steps expr machine).machine? = some after) :
    after.active = machine.active ∧
      ScopeTree.Grows machine.scopes.size (fun _ _ => False) machine.scopes after.scopes := by
  have runs := ((ScopeTree.growth machine.scopes.size fun _ _ => False).runs .together steps steps
    rfl).1 machine.scopes machine.active machine.active rfl expr
  exact grows_of_ends (runs _ machine machine (.refl _) (growth_machines _ _ machine le_rfl)) ended

/-- However a statement ends, the active scope is the one before, and the scopes have grown with no
names in old ones but those that it declares in the active scope. -/
theorem execute_grows {steps : Nat} {stmt : Stmt} {machine after : Machine}
    (ended : (execute steps stmt machine).machine? = some after) :
    after.active = machine.active ∧
      ScopeTree.Grows machine.scopes.size
        (fun id name => id = machine.active ∧ name ∈ stmt.declares) machine.scopes
          after.scopes := by
  have runs := ((ScopeTree.growth machine.scopes.size fun id name =>
    id = machine.active ∧ name ∈ stmt.declares).runs .together steps steps rfl).2 machine.scopes
      machine.active machine.active rfl stmt fun name declared _ => ⟨rfl, declared⟩
  exact grows_of_ends (runs _ machine machine (.refl _) (growth_machines _ _ machine le_rfl)) ended

/-- Machines at one stage of one run are one machine. -/
theorem eq_of_growth_machines {origin : Nat} {admits : ScopeId → String → Prop}
    {stage : (ScopeTree.growth origin admits).Stage} {active : ScopeId} {left right : Machine}
    (machines : (ScopeTree.growth origin admits).Machines stage active active left right) :
    left = right := by
  obtain ⟨⟨stores, _⟩, first, second, functions, clock, output⟩ := machines
  cases left
  cases right
  cases stores
  simp_all

/-- A run that ends is not changed by more steps. -/
theorem eq_of_ends {origin : Nat} {admits : ScopeId → String → Prop}
    {stage : (ScopeTree.growth origin admits).Stage} {active : ScopeId}
    {related : (ScopeTree.growth origin admits).Stage → α → α → Prop} {result longer : Result α}
    (ends : (ScopeTree.growth origin admits).Ends .firstShort stage active active related result
      longer)
    (same : ∀ later value value', related later value value' → value = value')
    (ended : result ≠ .exhausted) : longer = result := by
  cases ends with
  | done grown machines related =>
    obtain rfl := eq_of_growth_machines machines
    obtain rfl := same _ _ _ related
    rfl
  | failed failure grown machines =>
    obtain rfl := eq_of_growth_machines machines
    rfl
  | exhausted => exact absurd rfl ended
  | firstShort => exact absurd rfl ended
  | secondShort short => cases short

theorem evaluate_mono {steps more : Nat} {expr : Expr} {machine : Machine} (le : steps ≤ more)
    (ended : evaluate steps expr machine ≠ .exhausted) :
    evaluate more expr machine = evaluate steps expr machine := by
  have runs := ((ScopeTree.growth 0 fun _ _ => True).runs .firstShort steps more le).1
    machine.scopes machine.active machine.active rfl expr
  refine eq_of_ends (runs _ machine machine (.refl _)
    (growth_machines _ _ machine (Nat.zero_le _))) ?_ ended
  exact fun _ _ _ same => Value.corresponds_eq_iff.mp same

theorem execute_mono {steps more : Nat} {stmt : Stmt} {machine : Machine} (le : steps ≤ more)
    (ended : execute steps stmt machine ≠ .exhausted) :
    execute more stmt machine = execute steps stmt machine := by
  have runs := ((ScopeTree.growth 0 fun _ _ => True).runs .firstShort steps more le).2
    machine.scopes machine.active machine.active rfl stmt fun _ _ _ => trivial
  refine eq_of_ends (runs _ machine machine (.refl _)
    (growth_machines _ _ machine (Nat.zero_le _))) ?_ ended
  rintro _ _ _ (_ | same)
  · rfl
  · rw [Value.corresponds_eq_iff.mp same]

end Script
