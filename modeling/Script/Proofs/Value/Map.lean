import Script.Value.Heap

/-! Scopes and arrays under a change of the values that they hold. Names, links and places are not
touched, so every name is looked up along the same chain as before. -/

namespace Script

variable {α β γ : Type}

/-- A change of one place commutes with a change of all. -/
private theorem map_modify {change : α → β} {inner : α → α} {outer : β → β}
    (same : ∀ item, outer (change item) = change (inner item)) (items : Array α) (place : Nat) :
    (items.map change).modify place outer = (items.modify place inner).map change := by
  apply Array.ext_getElem?
  intro other
  simp only [Array.getElem?_map, Array.getElem?_modify]
  by_cases hit : place = other
  · cases items[other]? <;> simp [hit, same]
  · simp [hit]

namespace Bindings

def map (change : α → β) (bindings : Bindings α) : Bindings β :=
  List.map (fun entry => (entry.1, change entry.2)) bindings

theorem map_map (change : α → β) (later : β → γ) (bindings : Bindings α) :
    (bindings.map change).map later = bindings.map (later ∘ change) := by
  simp only [map, List.map_map]
  rfl

theorem map_id (bindings : Bindings α) : bindings.map id = bindings := by
  simp [map]

theorem find?_map (change : α → β) (bindings : Bindings α) (name : String) :
    (bindings.map change).find? name = (bindings.find? name).map change := by
  induction bindings with
  | nil => rfl
  | cons entry rest ih =>
    obtain ⟨own, value⟩ := entry
    by_cases hit : own = name
    · simp [map, find?, hit]
    · simpa [map, find?, hit] using ih

theorem bind_map (change : α → β) (bindings : Bindings α) (name : String) (value : α) :
    (bindings.map change).bind name (change value) = (bindings.bind name value).map change := by
  induction bindings with
  | nil => rfl
  | cons entry rest ih =>
    obtain ⟨own, old⟩ := entry
    by_cases hit : own = name
    · simp [map, bind, hit]
    · simpa [map, bind, hit] using ih

end Bindings

def Scope.map (change : α → β) (scope : Scope α) : Scope β :=
  ⟨scope.bindings.map change, scope.parent⟩

namespace ScopeTree

private theorem eq_of_scopes {tree other : ScopeTree α} (same : tree.scopes = other.scopes) :
    tree = other := by
  cases tree
  cases other
  cases same
  rfl

def map (change : α → β) (tree : ScopeTree α) : ScopeTree β :=
  ⟨tree.scopes.map (Scope.map change), by
    intro id inside parent linked
    rw [Array.getElem_map] at linked
    exact tree.older id (by simpa using inside) parent linked⟩

variable (change : α → β) (tree : ScopeTree α)

@[simp] theorem map_empty : (empty : ScopeTree α).map change = empty := by
  apply eq_of_scopes
  simp [map, empty]

theorem map_map (later : β → γ) : (tree.map change).map later = tree.map (later ∘ change) := by
  apply eq_of_scopes
  simp only [map, Array.map_map]
  congr 1
  funext scope
  simp only [Function.comp, Scope.map, Bindings.map_map]

theorem map_id : tree.map id = tree := by
  have same : Scope.map (id : α → α) = id := by
    funext scope
    simp only [Scope.map, Bindings.map_id, id]
  apply eq_of_scopes
  simp only [map, same, Array.map_id]

@[simp] theorem size_map : (tree.map change).size = tree.size := by
  simp [size, map]

theorem own?_map (id : ScopeId) (name : String) :
    (tree.map change).own? id name = (tree.own? id name).map change := by
  simp only [own?, map, Array.getElem?_map]
  cases tree.scopes[id]? with
  | none => rfl
  | some scope => exact Bindings.find?_map change scope.bindings name

theorem parent?_map (id : ScopeId) : (tree.map change).parent? id = tree.parent? id := by
  simp only [parent?, map, Array.getElem?_map]
  cases tree.scopes[id]? <;> rfl

theorem owner?_map (id : ScopeId) (name : String) :
    (tree.map change).owner? id name = tree.owner? id name := by
  induction id using Nat.strongRecOn with
  | ind id ih =>
    rw [owner?_eq, owner?_eq tree, own?_map, parent?_map, Option.isSome_map]
    cases found : tree.parent? id with
    | none => rfl
    | some parent => rw [Option.bind_some, Option.bind_some, ih parent (parent?_lt found)]

theorem get?_map (id : ScopeId) (name : String) :
    (tree.map change).get? id name = (tree.get? id name).map change := by
  rw [get?, get?, owner?_map]
  cases tree.owner? id name with
  | none => rfl
  | some owner => exact own?_map change tree owner name

theorem define_map (id : ScopeId) (name : String) (value : α) :
    (tree.map change).define id name (change value) = (tree.define id name value).map change := by
  apply eq_of_scopes
  simp only [define, map]
  apply map_modify
  intro scope
  simp only [Scope.map, Bindings.bind_map]

theorem add_map (parent : Option ScopeId) :
    (tree.map change).add parent = (tree.add parent).map change := by
  apply eq_of_scopes
  simp [add, map, Scope.map, Bindings.map]

end ScopeTree

namespace Heap

def map (change : Value → Value) (heap : Heap) : Heap := ⟨heap.arrays.map (Array.map change)⟩

variable (change : Value → Value) (heap : Heap)

@[simp] theorem map_empty : empty.map change = empty := by
  simp [map, empty]

theorem map_map (later : Value → Value) :
    (heap.map change).map later = heap.map (later ∘ change) := by
  simp only [map, Array.map_map]
  congr 2
  funext items
  exact Array.map_map

theorem map_id : heap.map id = heap := by
  simp [map]

@[simp] theorem size_map : (heap.map change).size = heap.size := by
  simp [size, map]

theorem elements_map (id : ArrayId) :
    (heap.map change).elements id = (heap.elements id).map change := by
  simp only [elements, map, Array.getElem?_map]
  cases heap.arrays[id]? <;> simp

theorem add_map (items : List Value) :
    (heap.map change).add (items.map change).toArray = (heap.add items.toArray).map change := by
  simp [add, map]

theorem write_map (id : ArrayId) (place : Nat) (value : Value) :
    (heap.map change).write id place (change value) = (heap.write id place value).map change := by
  simp only [write, map, mk.injEq]
  apply map_modify
  intro items
  simp

theorem append_map (id : ArrayId) (value : Value) :
    (heap.map change).append id (change value) = (heap.append id value).map change := by
  simp only [append, map, mk.injEq]
  apply map_modify
  intro items
  simp

end Heap
end Script
