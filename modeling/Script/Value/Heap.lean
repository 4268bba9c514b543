import Script.Value

/-! The arrays that exist, each numbered by its age. -/

namespace Script

structure Heap where
  arrays : Array (Array Value)

namespace Heap

def empty : Heap := ⟨#[]⟩

def size (heap : Heap) : Nat := heap.arrays.size

/-- The elements of an array; one that was never made has none. -/
def elements (heap : Heap) (id : ArrayId) : Array Value := heap.arrays[id]?.getD #[]

/-- A new array, numbered by the old size. -/
def add (heap : Heap) (elements : Array Value) : Heap := ⟨heap.arrays.push elements⟩

def write (heap : Heap) (id : ArrayId) (place : Nat) (value : Value) : Heap :=
  ⟨heap.arrays.modify id (·.setIfInBounds place value)⟩

/-- Lengthens an array by one element. -/
def append (heap : Heap) (id : ArrayId) (value : Value) : Heap :=
  ⟨heap.arrays.modify id (·.push value)⟩

theorem elements_eq_empty {heap : Heap} {id : ArrayId} (absent : heap.size ≤ id) :
    heap.elements id = #[] := by
  have : heap.arrays[id]? = none := Array.getElem?_eq_none absent
  simp [elements, this]

end Heap

/-- How many items of a list are not among those seen. It bounds a search that never meets an
item twice on one path. -/
def unseen {α : Type} [DecidableEq α] : (items seen : List α) → Nat
  | [], _ => 0
  | item :: rest, seen => (if item ∈ seen then 0 else 1) + unseen rest seen

theorem unseen_cons_le {α : Type} [DecidableEq α] (items seen : List α) (item : α) :
    unseen items (item :: seen) ≤ unseen items seen := by
  induction items with
  | nil => exact Nat.le_refl _
  | cons head tail ih =>
    by_cases known : head ∈ seen
    · simpa [unseen, known] using ih
    · by_cases same : head = item <;> simp [unseen, known, same] <;> omega

/-- Seeing a new item leaves fewer. -/
theorem unseen_cons_lt {α : Type} [DecidableEq α] {items seen : List α} {item : α}
    (member : item ∈ items) (fresh : item ∉ seen) :
    unseen items (item :: seen) < unseen items seen := by
  induction items with
  | nil => simp at member
  | cons head tail ih =>
    by_cases same : head = item
    · subst same
      have := unseen_cons_le tail seen head
      simp [unseen, fresh]
      omega
    · have inTail : item ∈ tail := by
        rcases List.mem_cons.1 member with equal | inner
        · exact absurd equal.symm same
        · exact inner
      have := ih inTail
      by_cases known : head ∈ seen <;> simp [unseen, known, same] <;> omega

end Script
