/-! Scopes: tables of bindings, each with at most one enclosing scope. A scope is always newer
than the one that encloses it, so every chain of enclosing scopes is finite and look-up ends. -/

namespace Script

abbrev ScopeId := Nat

/-- The bindings of a scope, each name once. -/
abbrev Bindings (α : Type) := List (String × α)

namespace Bindings

variable {α : Type}

/-- Overwrites the binding of a name, or adds one. -/
def bind : Bindings α → String → α → Bindings α
  | [], name, value => [(name, value)]
  | (own, old) :: rest, name, value =>
    if own = name then (own, value) :: rest else (own, old) :: bind rest name value

def find? : Bindings α → String → Option α
  | [], _ => none
  | (own, value) :: rest, name => if own = name then some value else find? rest name

theorem find?_bind (bindings : Bindings α) (name other : String) (value : α) :
    (bindings.bind name value).find? other =
      if name = other then some value else bindings.find? other := by
  induction bindings with
  | nil => rfl
  | cons entry rest ih =>
    obtain ⟨own, old⟩ := entry
    by_cases same : own = name
    · subst same
      by_cases hit : own = other <;> simp [bind, find?, hit]
    · by_cases hit : own = other
      · subst hit
        simp [bind, find?, same, Ne.symm same]
      · simp [bind, find?, same, hit, ih]

end Bindings

structure Scope (α : Type) where
  bindings : Bindings α
  parent : Option ScopeId

/-- All scopes made so far, each numbered by its age. -/
structure ScopeTree (α : Type) where
  scopes : Array (Scope α)
  older : ∀ id (inside : id < scopes.size) parent,
    scopes[id].parent = some parent → parent < id

namespace ScopeTree

variable {α : Type}

def empty : ScopeTree α := ⟨#[], fun _ inside => by simp at inside⟩

def size (tree : ScopeTree α) : Nat := tree.scopes.size

def parent? (tree : ScopeTree α) (id : ScopeId) : Option ScopeId :=
  tree.scopes[id]?.bind Scope.parent

/-- The binding of a name in one scope alone. -/
def own? (tree : ScopeTree α) (id : ScopeId) (name : String) : Option α :=
  tree.scopes[id]?.bind (·.bindings.find? name)

theorem parent?_lt {tree : ScopeTree α} {id parent : ScopeId}
    (found : tree.parent? id = some parent) : parent < id := by
  simp only [parent?, Option.bind_eq_some_iff] at found
  obtain ⟨scope, present, linked⟩ := found
  obtain ⟨inside, rfl⟩ := Array.getElem?_eq_some_iff.1 present
  exact tree.older id inside parent linked

/-- A new scope without bindings, numbered by the old size. It is enclosed by `parent` if there
is such a scope, and by none otherwise. -/
def add (tree : ScopeTree α) (parent : Option ScopeId) : ScopeTree α :=
  let known := parent.filter (· < tree.scopes.size)
  ⟨tree.scopes.push ⟨[], known⟩, by
    intro id inside link linked
    rw [Array.getElem_push] at linked
    split at linked
    · rename_i old
      exact tree.older id old link linked
    · have bound : link < tree.scopes.size := by
        simpa using (Option.filter_eq_some_iff.1 linked).2
      rename_i old
      exact Nat.lt_of_lt_of_le bound (Nat.le_of_not_lt old)⟩

/-- Binds a name in one scope, hiding the bindings of enclosing scopes. -/
def define (tree : ScopeTree α) (id : ScopeId) (name : String) (value : α) : ScopeTree α :=
  ⟨tree.scopes.modify id fun scope =>
      { scope with bindings := scope.bindings.bind name value }, by
    intro place inside link linked
    rw [Array.getElem_modify] at linked
    simp only [Array.size_modify] at inside
    refine tree.older place inside link ?_
    split at linked <;> exact linked⟩

@[simp] theorem size_empty : (empty : ScopeTree α).size = 0 := rfl

@[simp] theorem size_add (tree : ScopeTree α) (parent : Option ScopeId) :
    (tree.add parent).size = tree.size + 1 := by
  simp [size, add]

@[simp] theorem size_define (tree : ScopeTree α) (id : ScopeId) (name : String) (value : α) :
    (tree.define id name value).size = tree.size := by
  simp [size, define]

/-- Links are never changed. -/
@[simp] theorem parent?_define (tree : ScopeTree α) (id other : ScopeId) (name : String)
    (value : α) : (tree.define id name value).parent? other = tree.parent? other := by
  simp only [parent?, define, Array.getElem?_modify]
  split <;> cases tree.scopes[other]? <;> rfl

theorem parent?_add (tree : ScopeTree α) (parent : Option ScopeId) (id : ScopeId) :
    (tree.add parent).parent? id =
      if id = tree.size then parent.filter (· < tree.size) else tree.parent? id := by
  by_cases new : id = tree.scopes.size
  · simp [parent?, add, size, new]
    rfl
  · simp [parent?, add, Array.getElem?_push, size, new]

/-- A definition is seen under its own name in its own scope, and nowhere else. -/
theorem own?_define (tree : ScopeTree α) (id other : ScopeId) (name sought : String) (value : α)
    (inside : id < tree.size) : (tree.define id name value).own? other sought =
      if id = other ∧ name = sought then some value else tree.own? other sought := by
  have present : tree.scopes[id]? = some tree.scopes[id] := Array.getElem?_eq_getElem inside
  by_cases same : id = other
  · subst same
    simp [own?, define, Array.getElem?_modify, present, Bindings.find?_bind]
  · simp [own?, define, Array.getElem?_modify, same]

/-- A new scope binds nothing. -/
@[simp] theorem own?_add (tree : ScopeTree α) (parent : Option ScopeId) (id : ScopeId)
    (name : String) : (tree.add parent).own? id name = tree.own? id name := by
  simp only [own?, add, Array.getElem?_push]
  split
  · rename_i new
    subst new
    simp [Bindings.find?]
  · rfl

/-- The nearest scope, going outward, that binds a name. -/
def owner? (tree : ScopeTree α) (id : ScopeId) (name : String) : Option ScopeId :=
  if (tree.own? id name).isSome then some id
  else
    match _found : tree.parent? id with
    | some parent => tree.owner? parent name
    | none => none
termination_by id
decreasing_by exact parent?_lt _found

theorem owner?_eq (tree : ScopeTree α) (id : ScopeId) (name : String) :
    tree.owner? id name =
      if (tree.own? id name).isSome then some id
      else (tree.parent? id).bind (tree.owner? · name) := by
  rw [owner?]
  split
  · rfl
  · split <;> rename_i found <;> rw [found] <;> rfl

/-- The value of the nearest binding of a name. -/
def get? (tree : ScopeTree α) (id : ScopeId) (name : String) : Option α :=
  (tree.owner? id name).bind (tree.own? · name)

section

variable {tree : ScopeTree α} {id parent : ScopeId} {name : String} {value : α}

theorem owner?_of_bound (bound : tree.own? id name = some value) :
    tree.owner? id name = some id := by
  rw [owner?_eq, bound]
  rfl

theorem owner?_of_linked (unbound : tree.own? id name = none)
    (linked : tree.parent? id = some parent) : tree.owner? id name = tree.owner? parent name := by
  rw [owner?_eq, unbound, linked]
  rfl

theorem get?_of_bound (bound : tree.own? id name = some value) :
    tree.get? id name = some value := by
  rw [get?, owner?_of_bound bound]
  exact bound

theorem get?_of_linked (unbound : tree.own? id name = none)
    (linked : tree.parent? id = some parent) : tree.get? id name = tree.get? parent name := by
  rw [get?, owner?_of_linked unbound linked, get?]

end

/-- Overwrites the nearest binding of a name; there is no result if no scope binds it. -/
def assign? (tree : ScopeTree α) (id : ScopeId) (name : String) (value : α) :
    Option (ScopeTree α) :=
  match tree.owner? id name with
  | some owner => some (tree.define owner name value)
  | none => none

end ScopeTree
end Script
