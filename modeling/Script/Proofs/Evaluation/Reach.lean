import Mathlib.Logic.Relation
import Script.Proofs.Evaluation.Simulation
import Script.Proofs.Scope.Chain

/-! What can be reached in a store: along links to enclosing scopes, bound values, elements of
arrays and the closures of functions. -/

namespace Script

/-- A scope or an array, as a place in a store. -/
inductive Cell where
  | scope (id : ScopeId)
  | array (id : ArrayId)

/-- The cells that a value refers to by itself. -/
def Value.cells : Value → List Cell
  | .array id => [.array id]
  | .function _ (.declared _ closure) => [.scope closure]
  | _ => []

/-- How many scopes and arrays there are. -/
structure Extent where
  scopes : Nat
  arrays : Nat

def Extent.Holds (extent : Extent) : Cell → Prop
  | .scope id => id < extent.scopes
  | .array id => id < extent.arrays

namespace Store

variable {store other : Store} {cell target : Cell} {roots : Set Cell}

def extent (store : Store) : Extent := ⟨store.scopes.size, store.heap.size⟩

def Made (store : Store) (cell : Cell) : Prop := store.extent.Holds cell

/-- The cell holds the same in both stores. -/
def Same (store other : Store) : Cell → Prop
  | .scope id => store.scopes.scopes[id]? = other.scopes.scopes[id]?
  | .array id => store.heap.arrays[id]? = other.heap.arrays[id]?

/-- One cell leads to another. -/
inductive Points (store : Store) : Cell → Cell → Prop where
  | enclosing {id parent : ScopeId} (linked : store.scopes.parent? id = some parent) :
      Points store (.scope id) (.scope parent)
  | bound {id : ScopeId} {name : String} {value : Value} {cell : Cell}
      (found : store.scopes.own? id name = some value) (refers : cell ∈ value.cells) :
      Points store (.scope id) cell
  | element {id : ArrayId} {value : Value} {cell : Cell}
      (member : value ∈ (store.heap.elements id).toList) (refers : cell ∈ value.cells) :
      Points store (.array id) cell

/-- The cells that some of the roots lead to, in any number of steps. -/
def Reach (store : Store) (roots : Set Cell) : Set Cell :=
  {cell | ∃ root ∈ roots, Relation.ReflTransGen store.Points root cell}

theorem mem_reach_of_mem (member : cell ∈ roots) : cell ∈ store.Reach roots :=
  ⟨cell, member, .refl⟩

theorem reach_closed (reached : cell ∈ store.Reach roots) (points : store.Points cell target) :
    target ∈ store.Reach roots := by
  obtain ⟨root, member, path⟩ := reached
  exact ⟨root, member, path.tail points⟩

/-- Whatever holds the roots and is closed holds all that is reached. -/
theorem reach_subset {known : Set Cell} (rooted : roots ⊆ known)
    (closed : ∀ cell target, cell ∈ known → store.Points cell target → target ∈ known) :
    store.Reach roots ⊆ known := by
  rintro cell ⟨root, member, path⟩
  induction path with
  | refl => exact rooted member
  | tail _ points ih => exact closed _ _ ih points

theorem Same.refl (store : Store) (cell : Cell) : store.Same store cell := by
  cases cell <;> rfl

theorem Same.symm (same : store.Same other cell) : other.Same store cell := by
  cases cell <;> exact Eq.symm same

theorem Same.trans {third : Store} (first : store.Same other cell)
    (second : other.Same third cell) : store.Same third cell := by
  cases cell <;> exact Eq.trans first second

/-- A cell that was made in neither store holds nothing in either. -/
theorem Same.of_absent (absent : ¬store.Made cell) (absent' : ¬other.Made cell) :
    store.Same other cell := by
  cases cell with
  | scope id =>
    exact (Array.getElem?_eq_none (Nat.le_of_not_lt absent)).trans
      (Array.getElem?_eq_none (Nat.le_of_not_lt absent')).symm
  | array id =>
    exact (Array.getElem?_eq_none (Nat.le_of_not_lt absent)).trans
      (Array.getElem?_eq_none (Nat.le_of_not_lt absent')).symm

theorem Same.own?_eq {id : ScopeId} (same : store.Same other (.scope id)) (name : String) :
    store.scopes.own? id name = other.scopes.own? id name :=
  congrArg (Option.bind · _) same

theorem Same.parent?_eq {id : ScopeId} (same : store.Same other (.scope id)) :
    store.scopes.parent? id = other.scopes.parent? id :=
  congrArg (Option.bind · _) same

theorem Same.elements_eq {id : ArrayId} (same : store.Same other (.array id)) :
    store.heap.elements id = other.heap.elements id :=
  congrArg (Option.getD · _) same

/-! The elementary steps change one cell each. -/

theorem same_define {id : ScopeId} (apart : cell ≠ .scope id) (name : String) (value : Value) :
    store.Same ⟨store.scopes.define id name value, store.heap⟩ cell := by
  cases cell with
  | array => rfl
  | scope other =>
    have differs : id ≠ other := fun same => apart (congrArg Cell.scope same.symm)
    simp [Same, ScopeTree.define, Array.getElem?_modify, differs]

/-- A cell that holds the same in two stores does so after the same definition. -/
theorem Same.define {id : ScopeId} (same : store.Same other (.scope id)) (name : String)
    (value : Value) : Store.Same ⟨store.scopes.define id name value, store.heap⟩
      ⟨other.scopes.define id name value, other.heap⟩ (.scope id) := by
  simp only [Same] at same
  simp [Same, ScopeTree.define, Array.getElem?_modify, same]

theorem same_addScope (apart : cell ≠ .scope store.scopes.size) (parent : Option ScopeId) :
    store.Same ⟨store.scopes.add parent, store.heap⟩ cell := by
  cases cell with
  | array => rfl
  | scope id =>
    have differs : id ≠ store.scopes.scopes.size := fun same => apart (congrArg Cell.scope same)
    simp [Same, ScopeTree.add, Array.getElem?_push, differs]

theorem same_addArray (apart : cell ≠ .array store.heap.size) (items : Array Value) :
    store.Same ⟨store.scopes, store.heap.add items⟩ cell := by
  cases cell with
  | scope => rfl
  | array id =>
    have differs : id ≠ store.heap.arrays.size := fun same => apart (congrArg Cell.array same)
    simp [Same, Heap.add, Array.getElem?_push, differs]

theorem same_modify {id : ArrayId} (apart : cell ≠ .array id)
    (change : Array Value → Array Value) :
    store.Same ⟨store.scopes, ⟨store.heap.arrays.modify id change⟩⟩ cell := by
  cases cell with
  | scope => rfl
  | array other =>
    have differs : id ≠ other := fun same => apart (congrArg Cell.array same.symm)
    simp [Same, Array.getElem?_modify, differs]

theorem Same.modify {id : ArrayId} (same : store.Same other (.array id))
    (change : Array Value → Array Value) :
    Store.Same ⟨store.scopes, ⟨store.heap.arrays.modify id change⟩⟩
      ⟨other.scopes, ⟨other.heap.arrays.modify id change⟩⟩ (.array id) := by
  simp only [Same] at same
  simp [Same, Array.getElem?_modify, same]

/-- A definition leads to what its value refers to. -/
theorem points_define {id : ScopeId} {name : String} {value : Value}
    (points : Points ⟨store.scopes.define id name value, store.heap⟩ (.scope id) target) :
    store.Points (.scope id) target ∨ target ∈ value.cells := by
  cases points with
  | enclosing linked => exact .inl (.enclosing (by simpa using linked))
  | @bound _ sought _ _ found refers =>
    by_cases inside : id < store.scopes.size
    · rw [ScopeTree.own?_define _ _ _ _ _ _ inside] at found
      split at found
      · cases found
        exact .inr refers
      · exact .inl (.bound found refers)
    · rw [ScopeTree.own?_define_of_absent (Nat.le_of_not_lt inside)] at found
      exact .inl (.bound found refers)

/-- A new scope leads to the one that encloses it only. -/
theorem points_addScope {parent : ScopeId}
    (points : Points ⟨store.scopes.add (some parent), store.heap⟩ (.scope store.scopes.size)
      target) : target = .scope parent := by
  cases points with
  | enclosing linked =>
    rw [ScopeTree.parent?_add, if_pos rfl, Option.filter_eq_some_iff] at linked
    rw [Option.some.inj linked.1]
  | bound found =>
    rw [ScopeTree.own?_add, ScopeTree.own?_eq_none le_rfl] at found
    cases found

/-- A new array leads to what its elements refer to. -/
theorem points_addArray {items : List Value}
    (points : Points ⟨store.scopes, store.heap.add items.toArray⟩ (.array store.heap.size) target) :
    ∃ item ∈ items, target ∈ item.cells := by
  cases points with
  | @element _ item _ member refers =>
    rw [Heap.elements_add, if_pos rfl] at member
    exact ⟨item, member, refers⟩

/-- An array leads to what it did and to what its new elements refer to. -/
theorem points_modify {id : ArrayId} {value : Value} {change : Array Value → Array Value}
    (only : ∀ items item, item ∈ change items → item ∈ items ∨ item = value)
    (points : Points ⟨store.scopes, ⟨store.heap.arrays.modify id change⟩⟩ (.array id) target) :
    store.Points (.array id) target ∨ target ∈ value.cells := by
  cases points with
  | @element _ item _ member refers =>
    rw [Heap.elements_modify] at member
    split at member
    · rcases only _ item (Array.mem_toList_iff.mp member) with old | rfl
      · exact .inl (.element (Array.mem_toList_iff.mpr old) refers)
      · exact .inr refers
    · exact .inl (.element member refers)

/-- Where a cell leads depends on what it holds only. -/
theorem Points.of_same (points : store.Points cell target) (same : store.Same other cell) :
    other.Points cell target := by
  cases points with
  | enclosing linked => exact .enclosing (same.parent?_eq ▸ linked)
  | bound found refers => exact .bound (same.own?_eq _ ▸ found) refers
  | element member refers => exact .element (same.elements_eq ▸ member) refers

/-- A cell that was never made leads nowhere. -/
theorem Points.made (points : store.Points cell target) : store.Made cell := by
  by_contra absent
  cases points with
  | enclosing linked =>
    rw [ScopeTree.parent?_eq_none (Nat.le_of_not_lt absent)] at linked
    cases linked
  | bound found => exact absent (ScopeTree.lt_size_of_own? found)
  | element member =>
    simp [Heap.elements_eq_empty (Nat.le_of_not_lt absent)] at member

end Store
end Script
