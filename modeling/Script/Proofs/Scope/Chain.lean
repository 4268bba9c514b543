import Mathlib.Data.List.Chain
import Mathlib.Data.Set.Insert
import Script.Scope

/-! The chain of scopes that a name is looked up in, from the inside outward, and the names that
each scope binds. -/

namespace Script.ScopeTree

variable {α : Type} {tree : ScopeTree α} {id other owner : ScopeId} {name : String}

/-- The names bound in one scope. -/
def names (tree : ScopeTree α) (id : ScopeId) : Set String :=
  {name | (tree.own? id name).isSome = true}

/-- Whatever holds of a scope if it holds of the one that encloses it holds of every scope. -/
theorem enclosing_induction (tree : ScopeTree α) {holds : ScopeId → Prop}
    (step : ∀ id, (∀ parent, tree.parent? id = some parent → holds parent) → holds id)
    (id : ScopeId) : holds id := by
  induction id using Nat.strongRecOn with
  | ind id ih => exact step id fun parent found => ih parent (parent?_lt found)

/-- A scope and those that enclose it, from the inside outward. -/
def chain (tree : ScopeTree α) (id : ScopeId) : List ScopeId :=
  id :: match _found : tree.parent? id with
    | some parent => tree.chain parent
    | none => []
termination_by id
decreasing_by exact parent?_lt _found

theorem chain_of_parent {parent : ScopeId} (found : tree.parent? id = some parent) :
    tree.chain id = id :: tree.chain parent := by
  rw [chain]
  split <;> simp_all

theorem chain_of_root (root : tree.parent? id = none) : tree.chain id = [id] := by
  rw [chain]
  split <;> simp_all

theorem chain_head? (tree : ScopeTree α) (id : ScopeId) : (tree.chain id).head? = some id := by
  rw [chain]
  rfl

/-- Each scope in the chain is enclosed by the next. -/
theorem isChain_chain (tree : ScopeTree α) (id : ScopeId) :
    (tree.chain id).IsChain fun inner outer => tree.parent? inner = some outer := by
  induction id using tree.enclosing_induction with
  | step id ih =>
    cases found : tree.parent? id with
    | none => simp [chain_of_root found]
    | some parent =>
      rw [chain_of_parent found, List.isChain_cons]
      refine ⟨fun outer next => ?_, ih parent found⟩
      rw [chain_head?, Option.mem_some_iff] at next
      rw [found, next]

/-- Looking a name up goes along the chain to the first scope that binds it. -/
theorem owner?_eq_find? (tree : ScopeTree α) (id : ScopeId) (name : String) :
    tree.owner? id name = (tree.chain id).find? fun scope => (tree.own? scope name).isSome := by
  induction id using tree.enclosing_induction with
  | step id ih =>
    rw [owner?_eq]
    cases found : tree.parent? id with
    | none =>
      rw [chain_of_root found, List.find?_singleton]
      rfl
    | some parent =>
      rw [chain_of_parent found, List.find?_cons, Option.bind_some, ih parent found]
      cases (tree.own? id name).isSome <;> rfl

theorem mem_names_of_owner? (found : tree.owner? id name = some owner) :
    name ∈ tree.names owner := by
  rw [owner?_eq_find?] at found
  exact List.find?_some (p := fun scope => (tree.own? scope name).isSome) found

/-- The numbers of enclosing scopes go down. -/
theorem pairwise_chain (tree : ScopeTree α) (id : ScopeId) :
    (tree.chain id).Pairwise (· > ·) ∧ ∀ scope ∈ tree.chain id, scope ≤ id := by
  induction id using tree.enclosing_induction with
  | step id ih =>
    cases found : tree.parent? id with
    | none => simp [chain_of_root found]
    | some parent =>
      obtain ⟨down, below⟩ := ih parent found
      have older := parent?_lt found
      rw [chain_of_parent found, List.pairwise_cons, List.forall_mem_cons]
      refine ⟨⟨fun scope member => Nat.lt_of_le_of_lt (below scope member) older, down⟩,
        Nat.le_refl id, fun scope member => ?_⟩
      exact Nat.le_of_lt (Nat.lt_of_le_of_lt (below scope member) older)

theorem nodup_chain (tree : ScopeTree α) (id : ScopeId) : (tree.chain id).Nodup :=
  (tree.pairwise_chain id).1.imp Nat.ne_of_gt

theorem parent?_eq_none (absent : tree.size ≤ id) : tree.parent? id = none := by
  simp [parent?, Array.getElem?_eq_none absent]

theorem own?_eq_none (absent : tree.size ≤ id) : tree.own? id name = none := by
  simp [own?, Array.getElem?_eq_none absent]

theorem lt_size_of_own? {value : α} (found : tree.own? id name = some value) : id < tree.size := by
  by_contra absent
  rw [own?_eq_none (Nat.le_of_not_lt absent)] at found
  cases found

/-- Nothing is defined in a scope that was never made. -/
theorem own?_define_of_absent (absent : tree.size ≤ id) (sought : String) (value : α) :
    (tree.define id name value).own? other sought = tree.own? other sought := by
  have none : tree.scopes[id]? = none := Array.getElem?_eq_none absent
  simp only [own?, define, Array.getElem?_modify]
  split
  · rename_i same
    subst same
    simp [none]
  · rfl

/-- A definition adds its own name to its own scope. -/
theorem names_define (tree : ScopeTree α) (id other : ScopeId) (name : String) (value : α) :
    (tree.define id name value).names other =
      if id = other ∧ id < tree.size then insert name (tree.names other) else tree.names other := by
  ext sought
  by_cases inside : id < tree.size
  · have defined := own?_define tree id other name sought value inside
    by_cases same : id = other
    · subst same
      by_cases hit : name = sought
      · subst hit
        simp [names, defined, inside]
      · simp [names, defined, inside, hit, Ne.symm hit]
    · simp [names, defined, same]
  · have kept (sought : String) :
        (tree.define id name value).own? other sought = tree.own? other sought :=
      own?_define_of_absent (Nat.le_of_not_lt inside) sought value
    simp [names, kept, inside]

theorem names_define_of_lt (made : other < tree.size) (name : String) (value : α) :
    (tree.define id name value).names other =
      if other = id then insert name (tree.names other) else tree.names other := by
  rw [names_define]
  by_cases same : id = other
  · subst same
    simp [made]
  · simp [same, Ne.symm same]

theorem names_add (tree : ScopeTree α) (parent : Option ScopeId) (id : ScopeId) :
    (tree.add parent).names id = tree.names id := by
  simp only [names, own?_add]

end Script.ScopeTree
