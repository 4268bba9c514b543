import Script.Session
import Script.Proofs.Scope.Chain

/-! Laws of the scope chain. A name means its nearest binding, going outward; an assignment shows
wherever that binding is the nearest one, and a definition wherever nothing nearer hides it. -/

namespace Script

namespace ScopeTree

variable {α : Type} {tree : ScopeTree α} {id other owner viewer parent : ScopeId}
  {name sought : String} {value : α}

/-- The scope is on the chain of the viewer, and no scope nearer to the viewer binds the name. -/
def Exposed (tree : ScopeTree α) (viewer id : ScopeId) (name : String) : Prop :=
  ∃ inner outer, tree.chain viewer = inner ++ id :: outer ∧
    ∀ nearer ∈ inner, tree.own? nearer name = none

theorem exposed_self (tree : ScopeTree α) (id : ScopeId) (name : String) :
    tree.Exposed id id name := by
  obtain ⟨outer, chain⟩ := List.head?_eq_some_iff.mp (tree.chain_head? id)
  exact ⟨[], outer, chain, nofun⟩

/-- What is exposed to the enclosing scope is exposed to a scope that does not bind the name. -/
theorem Exposed.inside (exposed : tree.Exposed parent id name)
    (linked : tree.parent? viewer = some parent) (unbound : tree.own? viewer name = none) :
    tree.Exposed viewer id name := by
  obtain ⟨inner, outer, chain, hidden⟩ := exposed
  refine ⟨viewer :: inner, outer, ?_, List.forall_mem_cons.mpr ⟨unbound, hidden⟩⟩
  rw [chain_of_parent linked, chain, List.cons_append]

theorem exposed_iff : tree.Exposed viewer id name ↔ viewer = id ∨
    tree.own? viewer name = none ∧
      ∃ parent, tree.parent? viewer = some parent ∧ tree.Exposed parent id name := by
  constructor
  · rintro ⟨inner, outer, chain, hidden⟩
    cases inner with
    | nil =>
      have head := tree.chain_head? viewer
      rw [chain] at head
      exact .inl (Option.some.inj head).symm
    | cons nearer inner =>
      obtain ⟨unbound, further⟩ := List.forall_mem_cons.mp hidden
      cases linked : tree.parent? viewer with
      | none =>
        rw [chain_of_root linked] at chain
        simp at chain
      | some parent =>
        rw [chain_of_parent linked, List.cons_append] at chain
        obtain ⟨rfl, others⟩ := List.cons.inj chain
        exact .inr ⟨unbound, parent, rfl, inner, outer, others, further⟩
  · rintro (rfl | ⟨unbound, parent, linked, exposed⟩)
    · exact tree.exposed_self viewer name
    · exact exposed.inside linked unbound

/-- A look-up takes the binding of the scope itself, or goes on in the one that encloses it. -/
theorem get?_eq (tree : ScopeTree α) (id : ScopeId) (name : String) :
    tree.get? id name =
      (tree.own? id name).or ((tree.parent? id).bind (tree.get? · name)) := by
  unfold get?
  rw [owner?_eq]
  cases bound : tree.own? id name with
  | some value => simp [bound]
  | none => cases tree.parent? id <;> rfl

theorem get?_eq_none_iff : tree.get? id name = none ↔ tree.owner? id name = none := by
  constructor
  · intro missing
    cases found : tree.owner? id name with
    | none => rfl
    | some owner =>
      have bound := mem_names_of_owner? found
      rw [get?, found, Option.bind_some] at missing
      simp [names, missing] at bound
  · intro missing
    rw [get?, missing]
    rfl

/-- A definition is not seen in another scope or under another name. -/
theorem own?_define_of_other (apart : ¬(id = other ∧ name = sought)) :
    (tree.define id name value).own? other sought = tree.own? other sought := by
  by_cases inside : id < tree.size
  · rw [own?_define _ _ _ _ _ _ inside, if_neg apart]
  · exact own?_define_of_absent (Nat.le_of_not_lt inside) sought value

/-- A definition is found from wherever its scope is exposed. -/
theorem get?_define_of_exposed (inside : id < tree.size) (exposed : tree.Exposed viewer id name) :
    (tree.define id name value).get? viewer name = some value := by
  induction viewer using tree.enclosing_induction with
  | step viewer ih =>
    rw [get?_eq, parent?_define]
    rcases exposed_iff.mp exposed with rfl | ⟨unbound, parent, linked, exposed⟩
    · rw [own?_define _ _ _ _ _ _ inside, if_pos ⟨rfl, rfl⟩, Option.some_or]
    · by_cases same : id = viewer
      · rw [own?_define _ _ _ _ _ _ inside, if_pos ⟨same, rfl⟩, Option.some_or]
      · rw [own?_define_of_other fun both => same both.1, unbound, linked, Option.none_or]
        exact ih parent linked exposed

/-- Every other look-up goes as before. -/
theorem get?_define_of_hidden (hidden : ¬(sought = name ∧ tree.Exposed viewer id name)) :
    (tree.define id name value).get? viewer sought = tree.get? viewer sought := by
  induction viewer using tree.enclosing_induction with
  | step viewer ih =>
    have apart : ¬(id = viewer ∧ name = sought) := by
      rintro ⟨rfl, rfl⟩
      exact hidden ⟨rfl, tree.exposed_self id name⟩
    rw [get?_eq, get?_eq tree, parent?_define, own?_define_of_other apart]
    cases unbound : tree.own? viewer sought with
    | some value => rfl
    | none =>
      cases linked : tree.parent? viewer with
      | none => rfl
      | some parent =>
        refine ih parent linked fun seen => hidden ⟨seen.1, ?_⟩
        exact seen.2.inside linked (seen.1 ▸ unbound)

/-- Overwriting a binding changes no owner. -/
theorem owner?_define_of_bound (bound : (tree.own? id name).isSome = true) (viewer : ScopeId)
    (sought : String) : (tree.define id name value).owner? viewer sought =
      tree.owner? viewer sought := by
  have inside := lt_size_of_own? (Option.eq_some_of_isSome bound)
  induction viewer using tree.enclosing_induction with
  | step viewer ih =>
    have same : ((tree.define id name value).own? viewer sought).isSome =
        (tree.own? viewer sought).isSome := by
      rw [own?_define _ _ _ _ _ _ inside]
      split
      · rename_i both
        obtain ⟨rfl, rfl⟩ := both
        exact bound.symm
      · rfl
    rw [owner?_eq, owner?_eq tree, same, parent?_define]
    cases linked : tree.parent? viewer with
    | none => rfl
    | some parent => rw [Option.bind_some, Option.bind_some, ih parent linked]

/-- An overwritten binding is found from wherever it is the nearest, and nothing else changes. -/
theorem get?_define_of_bound (bound : (tree.own? id name).isSome = true) :
    (tree.define id name value).get? viewer sought =
      if sought = name ∧ tree.owner? viewer sought = some id then some value
      else tree.get? viewer sought := by
  have inside := lt_size_of_own? (Option.eq_some_of_isSome bound)
  rw [get?, owner?_define_of_bound bound, get?]
  cases found : tree.owner? viewer sought with
  | none => simp
  | some owner =>
    rw [Option.bind_some, Option.bind_some, own?_define _ _ _ _ _ _ inside]
    by_cases both : sought = name ∧ owner = id
    · obtain ⟨rfl, rfl⟩ := both
      simp
    · rw [if_neg fun same => both ⟨same.2.symm, same.1.symm⟩,
        if_neg fun same => both ⟨same.1, Option.some.inj same.2⟩]

end ScopeTree

namespace Machine

variable {machine after : Machine} {owner scope viewer : ScopeId} {name : Token} {sought : String}
  {value : Value}

/-- What an assignment to the binding of a name in its owner leads to: every look-up that finds the
owner finds the new value, and all else is as before. -/
structure Assigned (machine after : Machine) (owner : ScopeId) (name : String) (value : Value) :
    Prop where
  owners : ∀ viewer sought,
    after.scopes.owner? viewer sought = machine.scopes.owner? viewer sought
  seen : ∀ viewer line, machine.scopes.owner? viewer name = some owner →
    after.read viewer name line = .ok value
  others : ∀ viewer sought line,
    ¬(sought = name ∧ machine.scopes.owner? viewer sought = some owner) →
      after.read viewer sought line = machine.read viewer sought line
  kept : after = { machine with scopes := after.scopes }

/-- What the definition of a name in a scope leads to: every look-up to which the scope is exposed
finds the value, and all else is as before. -/
structure Defined (machine after : Machine) (scope : ScopeId) (name : String) (value : Value) :
    Prop where
  seen : ∀ viewer line, machine.scopes.Exposed viewer scope name →
    after.read viewer name line = .ok value
  others : ∀ viewer sought line, ¬(sought = name ∧ machine.scopes.Exposed viewer scope name) →
    after.read viewer sought line = machine.read viewer sought line
  kept : after = { machine with scopes := after.scopes }

theorem read_congr {viewer : ScopeId} {sought : String} {line : Nat}
    (same : after.scopes.get? viewer sought = machine.scopes.get? viewer sought) :
    after.read viewer sought line = machine.read viewer sought line := by
  rw [read, read, same]

theorem read_of_some {viewer : ScopeId} {sought : String} {line : Nat}
    (found : machine.scopes.get? viewer sought = some value) :
    machine.read viewer sought line = .ok value := by
  rw [read, found]

theorem assigned_define (found : machine.scopes.owner? viewer sought = some owner) (value : Value) :
    machine.Assigned { machine with scopes := machine.scopes.define owner sought value } owner
      sought value := by
  have bound : (machine.scopes.own? owner sought).isSome = true :=
    ScopeTree.mem_names_of_owner? found
  refine ⟨ScopeTree.owner?_define_of_bound bound, fun viewer line owned => ?_,
    fun viewer name line other => ?_, rfl⟩
  · refine read_of_some ?_
    rw [ScopeTree.get?_define_of_bound bound, if_pos ⟨rfl, owned⟩]
  · refine read_congr ?_
    rw [ScopeTree.get?_define_of_bound bound, if_neg other]

theorem defined_define (made : scope < machine.scopes.size) (sought : String) (value : Value) :
    machine.Defined { machine with scopes := machine.scopes.define scope sought value } scope
      sought value :=
  ⟨fun _ _ exposed => read_of_some (ScopeTree.get?_define_of_exposed made exposed),
    fun _ _ _ other => read_congr (ScopeTree.get?_define_of_hidden other), rfl⟩

/-- A look-up is a reading from the active scope. -/
theorem lookUp_eq (machine : Machine) (name : Token) :
    Eval.lookUp name machine = match machine.read machine.active name.lexeme name.line with
      | .ok value => .done value machine
      | .error error => .failed (.runtime error) machine := by
  unfold Eval.lookUp read
  cases machine.scopes.get? machine.active name.lexeme <;> rfl

end Machine

/-- The owner of a name is the first scope on the chain that binds it. A look-up gives the value
that the owner binds, an assignment gives it another, and without an owner both fail with the same
error and change nothing. A definition is seen from wherever its scope is exposed. -/
theorem names_follow_the_chain (machine : Machine) (name : Token) (value : Value) :
    (∀ viewer sought, machine.scopes.owner? viewer sought =
      (machine.scopes.chain viewer).find? fun scope => (machine.scopes.own? scope sought).isSome) ∧
    (∀ viewer (sought : Token), Eval.lookUp sought { machine with active := viewer } =
      match machine.read viewer sought.lexeme sought.line with
      | .ok found => .done found { machine with active := viewer }
      | .error error => .failed (.runtime error) { machine with active := viewer }) ∧
    (∀ owner, machine.scopes.owner? machine.active name.lexeme = some owner →
      (∃ found, machine.scopes.own? owner name.lexeme = some found ∧
        Eval.lookUp name machine = .done found machine) ∧
      ∃ after, Eval.assign name value machine = .done () after ∧
        machine.Assigned after owner name.lexeme value) ∧
    (machine.scopes.owner? machine.active name.lexeme = none →
      Eval.lookUp name machine =
        .failed (.runtime ⟨.undefined name.lexeme, name.line⟩) machine ∧
      Eval.assign name value machine =
        .failed (.runtime ⟨.undefined name.lexeme, name.line⟩) machine) ∧
    (machine.active < machine.scopes.size →
      ∃ after, Eval.define name.lexeme value machine = .done () after ∧
        machine.Defined after machine.active name.lexeme value) := by
  refine ⟨machine.scopes.owner?_eq_find?, fun viewer sought => ?_, fun owner found => ⟨?_, ?_⟩,
    fun missing => ⟨?_, ?_⟩, fun made => ?_⟩
  · exact Machine.lookUp_eq { machine with active := viewer } sought
  · obtain ⟨value, bound⟩ := Option.isSome_iff_exists.mp (ScopeTree.mem_names_of_owner? found)
    refine ⟨value, bound, ?_⟩
    simp only [Eval.lookUp, ScopeTree.get?, found, Option.bind_some, bound]
  · refine ⟨_, ?_, Machine.assigned_define found value⟩
    simp only [Eval.assign, found]
  · simp only [Eval.lookUp, ScopeTree.get?_eq_none_iff.mpr missing]
    rfl
  · simp only [Eval.assign, missing]
    rfl
  · exact ⟨_, rfl, Machine.defined_define made name.lexeme value⟩

end Script
