import Script.Proofs.Evaluation.Reach
import Script.Proofs.Scope.Growth

/-! What a computation reads and changes. It touches the cells that it can reach and the cells that
it makes, so a second run that finds the same in them goes the same way. -/

namespace Script

/-- The cells that may be touched by a computation that begins with those of `base`: these, and all
that were made since. -/
def Extent.known (origin : Extent) (base : Set Cell) (stage : Extent) : Set Cell :=
  base ∪ {cell | stage.Holds cell ∧ ¬origin.Holds cell}

variable {origin : Store} {base known : Set Cell} {stage later : Extent} {cell : Cell}
  {left right left' right' : Store}

theorem Extent.known_grow (grown : ∀ cell, stage.Holds cell → later.Holds cell) :
    origin.extent.known base stage ⊆ origin.extent.known base later :=
  Set.union_subset_union_right base fun cell fresh => ⟨grown cell fresh.1, fresh.2⟩

theorem Value.corresponds_known_iff {value other : Value} :
    Value.Corresponds Eq (fun first second => Cell.scope first ∈ known ∧ first = second)
      (fun first second => Cell.array first ∈ known ∧ first = second) value other ↔
        (∀ cell ∈ value.cells, cell ∈ known) ∧ value = other := by
  constructor
  · rintro (_ | _ | _ | _ | ⟨inside, rfl⟩ | _ | ⟨_, _, _, rfl, inside, rfl⟩) <;> simp_all [cells]
  · rintro ⟨inside, rfl⟩
    refine corresponds_self (fun _ => rfl) ?_ ?_
    · rintro id rfl
      exact ⟨inside _ (List.mem_singleton_self _), rfl⟩
    · rintro id declaration closure rfl
      exact ⟨inside _ (List.mem_singleton_self _), rfl⟩

theorem Value.forall₂_corresponds_known_iff {values others : List Value} :
    List.Forall₂ (Value.Corresponds Eq
      (fun first second => Cell.scope first ∈ known ∧ first = second)
      (fun first second => Cell.array first ∈ known ∧ first = second)) values others ↔
        (∀ value ∈ values, ∀ cell ∈ value.cells, cell ∈ known) ∧ values = others := by
  have same : Value.Corresponds Eq (fun first second => Cell.scope first ∈ known ∧ first = second)
      (fun first second => Cell.array first ∈ known ∧ first = second) =
        fun value other => (∀ cell ∈ value.cells, cell ∈ known) ∧ value = other := by
    funext value other
    exact propext corresponds_known_iff
  rw [same, List.forall₂_and_left, List.forall₂_eq_eq_eq]

/-- Two stores that hold the same in all known cells, where known cells lead to known cells only.
The first goes back to `origin`, and the cells of `origin` outside `base` are as they were there. -/
structure Store.Agree (origin : Store) (base : Set Cell) (stage : Extent) (left right : Store) :
    Prop where
  left_extent : left.extent = stage
  right_extent : right.extent = stage
  started : ∀ cell, origin.Made cell → stage.Holds cell
  same : ∀ cell ∈ origin.extent.known base stage, left.Same right cell
  closed : ∀ cell target, cell ∈ origin.extent.known base stage → left.Points cell target →
    target ∈ origin.extent.known base stage
  frame : ∀ cell, origin.Made cell → cell ∉ base → origin.Same left cell

namespace Store

/-- Known cells, old or new, are changed on both sides in the same way. -/
theorem Agree.change {touched : Set Cell} (agree : Agree origin base stage left right)
    (grown : ∀ cell, stage.Holds cell → later.Holds cell)
    (fresh : ∀ cell, later.Holds cell → stage.Holds cell ∨ cell ∈ touched)
    (known : touched ⊆ origin.extent.known base later)
    (left_extent : left'.extent = later) (right_extent : right'.extent = later)
    (left_kept : ∀ cell, cell ∉ touched → left.Same left' cell)
    (right_kept : ∀ cell, cell ∉ touched → right.Same right' cell)
    (same : ∀ cell ∈ touched, left'.Same right' cell)
    (closed : ∀ cell ∈ touched, ∀ target, left'.Points cell target →
      target ∈ origin.extent.known base later) : Agree origin base later left' right' := by
  have before {cell : Cell} (apart : cell ∉ touched)
      (inside : cell ∈ origin.extent.known base later) :
      cell ∈ origin.extent.known base stage := by
    rcases inside with inside | ⟨made, new⟩
    · exact .inl inside
    · exact .inr ⟨(fresh cell made).resolve_right apart, new⟩
  -- Whatever is asked of a cell is given for those that were changed, and held before for others.
  refine ⟨left_extent, right_extent, fun cell made => grown cell (agree.started cell made),
    fun cell inside => ?_, fun cell target inside points => ?_, fun cell made outside => ?_⟩
  · by_cases hit : cell ∈ touched
    · exact same cell hit
    · exact ((left_kept cell hit).symm.trans (agree.same cell (before hit inside))).trans
        (right_kept cell hit)
  · by_cases hit : cell ∈ touched
    · exact closed cell hit target points
    · exact Extent.known_grow grown (agree.closed cell target (before hit inside)
        (points.of_same (left_kept cell hit).symm))
  · have apart : cell ∉ touched := fun hit =>
      (known hit).elim outside fun new => new.2 made
    exact (agree.frame cell made outside).trans (left_kept cell apart)

theorem Agree.define {id : ScopeId} {value : Value} (agree : Agree origin base stage left right)
    (here : .scope id ∈ origin.extent.known base stage)
    (refers : ∀ cell ∈ value.cells, cell ∈ origin.extent.known base stage) (name : String) :
    Agree origin base stage ⟨left.scopes.define id name value, left.heap⟩
      ⟨right.scopes.define id name value, right.heap⟩ := by
  refine agree.change (fun _ made => made) (fun _ made => .inl made)
    (Set.singleton_subset_iff.mpr here) ?_ ?_ (fun _ apart => same_define apart name value)
    (fun _ apart => same_define apart name value) ?_ ?_
  · simpa [extent] using agree.left_extent
  · simpa [extent] using agree.right_extent
  · rintro _ rfl
    exact (agree.same _ here).define name value
  · rintro _ rfl target points
    exact (points_define points).elim (agree.closed _ target here) (refers target)

theorem Agree.modify {id : ArrayId} {value : Value} {change : Array Value → Array Value}
    (agree : Agree origin base stage left right)
    (here : .array id ∈ origin.extent.known base stage)
    (refers : ∀ cell ∈ value.cells, cell ∈ origin.extent.known base stage)
    (only : ∀ items item, item ∈ change items → item ∈ items ∨ item = value) :
    Agree origin base stage ⟨left.scopes, ⟨left.heap.arrays.modify id change⟩⟩
      ⟨right.scopes, ⟨right.heap.arrays.modify id change⟩⟩ := by
  refine agree.change (fun _ made => made) (fun _ made => .inl made)
    (Set.singleton_subset_iff.mpr here) ?_ ?_ (fun _ apart => same_modify apart change)
    (fun _ apart => same_modify apart change) ?_ ?_
  · simpa [extent, Heap.size] using agree.left_extent
  · simpa [extent, Heap.size] using agree.right_extent
  · rintro _ rfl
    exact (agree.same _ here).modify change
  · rintro _ rfl target points
    exact (points_modify only points).elim (agree.closed _ target here) (refers target)

theorem Agree.sizes_eq (agree : Agree origin base stage left right) :
    left.scopes.size = right.scopes.size ∧ left.heap.size = right.heap.size := by
  have same := agree.left_extent.trans agree.right_extent.symm
  exact ⟨congrArg Extent.scopes same, congrArg Extent.arrays same⟩

theorem Agree.enter {parent : ScopeId} (agree : Agree origin base stage left right)
    (here : .scope parent ∈ origin.extent.known base stage) :
    ∃ later : Extent, (∀ cell, stage.Holds cell → later.Holds cell) ∧
      Agree origin base later ⟨left.scopes.add (some parent), left.heap⟩
        ⟨right.scopes.add (some parent), right.heap⟩ ∧
      .scope left.scopes.size ∈ origin.extent.known base later := by
  obtain ⟨scopes, arrays⟩ := agree.sizes_eq
  obtain rfl := agree.left_extent
  let later : Extent := ⟨left.scopes.size + 1, left.heap.size⟩
  have grown (cell : Cell) (made : left.extent.Holds cell) : later.Holds cell := by
    cases cell with
    | scope id => exact Nat.lt_succ_of_lt made
    | array id => exact made
  have touched : .scope left.scopes.size ∈ origin.extent.known base later :=
    .inr ⟨Nat.lt_succ_self _, fun made => Nat.lt_irrefl _ (agree.started _ made)⟩
  refine ⟨later, grown, agree.change grown (fun cell made => ?_)
    (Set.singleton_subset_iff.mpr touched) ?_ ?_ (fun _ apart => same_addScope apart _)
    (fun _ apart => same_addScope (scopes ▸ apart) _) ?_ ?_, touched⟩
  · cases cell with
    | scope id => exact (Nat.lt_succ_iff_lt_or_eq.mp made).imp_right (congrArg Cell.scope)
    | array id => exact .inl made
  · simp [extent, later]
  · simp [extent, later, scopes, arrays]
  · rintro _ rfl
    simp only [ScopeTree.size] at scopes
    simp only [Same, ScopeTree.add, ScopeTree.size, Array.getElem?_push, scopes, if_true]
  · rintro _ rfl target points
    rw [points_addScope points]
    exact Extent.known_grow grown here

theorem Agree.makeArray {items : List Value} (agree : Agree origin base stage left right)
    (refers : ∀ item ∈ items, ∀ cell ∈ item.cells, cell ∈ origin.extent.known base stage) :
    ∃ later : Extent, (∀ cell, stage.Holds cell → later.Holds cell) ∧
      Agree origin base later ⟨left.scopes, left.heap.add items.toArray⟩
        ⟨right.scopes, right.heap.add items.toArray⟩ ∧
      .array left.heap.size ∈ origin.extent.known base later := by
  obtain ⟨scopes, arrays⟩ := agree.sizes_eq
  obtain rfl := agree.left_extent
  let later : Extent := ⟨left.scopes.size, left.heap.size + 1⟩
  have grown (cell : Cell) (made : left.extent.Holds cell) : later.Holds cell := by
    cases cell with
    | scope id => exact made
    | array id => exact Nat.lt_succ_of_lt made
  have touched : .array left.heap.size ∈ origin.extent.known base later :=
    .inr ⟨Nat.lt_succ_self _, fun made => Nat.lt_irrefl _ (agree.started _ made)⟩
  refine ⟨later, grown, agree.change grown (fun cell made => ?_)
    (Set.singleton_subset_iff.mpr touched) ?_ ?_ (fun _ apart => same_addArray apart _)
    (fun _ apart => same_addArray (arrays ▸ apart) _) ?_ ?_, touched⟩
  · cases cell with
    | scope id => exact .inl made
    | array id => exact (Nat.lt_succ_iff_lt_or_eq.mp made).imp_right (congrArg Cell.array)
  · simp [extent, later, Heap.add, Heap.size]
  · simp only [Heap.size] at arrays
    simp [extent, later, scopes, arrays, Heap.add, Heap.size]
  · rintro _ rfl
    simp only [Heap.size] at arrays
    simp only [Same, Heap.add, Heap.size, Array.getElem?_push, arrays, if_true]
  · rintro _ rfl target points
    obtain ⟨item, member, reached⟩ := points_addArray points
    exact Extent.known_grow grown (refers item member target reached)

/-- Looking a name up from a known scope, one comes through known scopes only. -/
theorem Agree.owner?_eq {id : ScopeId} (agree : Agree origin base stage left right)
    (here : .scope id ∈ origin.extent.known base stage) (name : String) :
    left.scopes.owner? id name = right.scopes.owner? id name ∧
      ∀ owner, left.scopes.owner? id name = some owner →
        .scope owner ∈ origin.extent.known base stage := by
  induction id using left.scopes.enclosing_induction with
  | step id ih =>
    have same := agree.same _ here
    rw [ScopeTree.owner?_eq, ScopeTree.owner?_eq right.scopes, ← same.own?_eq, ← same.parent?_eq]
    split
    · exact ⟨rfl, fun owner found => Option.some.inj found ▸ here⟩
    · cases linked : left.scopes.parent? id with
      | none => exact ⟨rfl, fun _ found => nomatch found⟩
      | some parent => exact ih parent linked (agree.closed _ _ here (.enclosing linked))

end Store

/-- Two runs of one computation on stores that hold the same in all known cells. -/
def confinement (origin : Store) (base : Set Cell) : Simulation where
  Stage := Extent
  grows stage later := ∀ cell, stage.Holds cell → later.Holds cell
  grows_refl _ _ made := made
  grows_trans first second cell made := second cell (first cell made)
  scopes stage first second := .scope first ∈ origin.extent.known base stage ∧ first = second
  arrays stage first second := .array first ∈ origin.extent.known base stage ∧ first = second
  scopes_grow grown _ _ same := ⟨Extent.known_grow grown same.1, same.2⟩
  arrays_grow grown _ _ same := ⟨Extent.known_grow grown same.1, same.2⟩
  stores := Store.Agree origin base
  declares _ _ _ := True
  declares_grow _ _ _ _ _ _ := trivial
  heaps := by
    intro stage left right agree
    refine ⟨?_, ?_, ?_⟩
    · rintro array _ ⟨inside, rfl⟩
      rw [← (agree.same _ inside).elements_eq]
      exact Value.forall₂_corresponds_known_iff.mpr ⟨fun value member cell refers =>
        agree.closed _ _ inside (.element member refers), rfl⟩
    · rintro array _ ⟨inside, rfl⟩
      rw [agree.sizes_eq.2]
    · rintro first _ third _ ⟨_, rfl⟩ ⟨_, rfl⟩
      exact Iff.rfl
  get := by
    rintro stage left right scope _ agree ⟨inside, rfl⟩ name
    obtain ⟨same, reached⟩ := agree.owner?_eq inside name
    unfold ScopeTree.get?
    rw [← same]
    cases found : left.scopes.owner? scope name with
    | none => exact .none
    | some owner =>
      have known := reached owner found
      rw [Option.bind_some, Option.bind_some, ← (agree.same _ known).own?_eq]
      cases bound : left.scopes.own? owner name with
      | none => exact .none
      | some value =>
        exact .some (Value.corresponds_known_iff.mpr ⟨fun cell refers =>
          agree.closed _ _ known (.bound bound refers), rfl⟩)
  assign := by
    rintro stage left right scope _ value _ agree ⟨inside, rfl⟩ same name
    obtain ⟨refers, rfl⟩ := Value.corresponds_known_iff.mp same
    obtain ⟨same, reached⟩ := agree.owner?_eq inside name
    unfold ScopeTree.assign?
    rw [← same]
    cases found : left.scopes.owner? scope name with
    | none => exact .none
    | some owner =>
      exact .some ⟨stage, fun _ made => made, agree.define (reached owner found) refers name⟩
  define := by
    rintro stage left right scope _ value _ agree ⟨inside, rfl⟩ same name _
    obtain ⟨refers, rfl⟩ := Value.corresponds_known_iff.mp same
    exact ⟨stage, fun _ made => made, agree.define inside refers name⟩
  enter := by
    rintro stage left right parent _ agree ⟨inside, rfl⟩
    obtain ⟨later, grown, after, fresh⟩ := agree.enter inside
    exact ⟨later, grown, after, ⟨fresh, agree.sizes_eq.1⟩, fun _ => trivial⟩
  makeArray := by
    rintro stage left right items _ agree same
    obtain ⟨refers, rfl⟩ := Value.forall₂_corresponds_known_iff.mp same
    obtain ⟨later, grown, after, fresh⟩ := agree.makeArray refers
    exact ⟨later, grown, after, fresh, agree.sizes_eq.2⟩
  write := by
    rintro stage left right array _ value _ agree ⟨inside, rfl⟩ same place
    obtain ⟨refers, rfl⟩ := Value.corresponds_known_iff.mp same
    refine agree.modify inside refers fun items item member => ?_
    exact Array.mem_or_eq_of_mem_setIfInBounds member
  append := by
    rintro stage left right array _ value _ agree ⟨inside, rfl⟩ same
    obtain ⟨refers, rfl⟩ := Value.corresponds_known_iff.mp same
    exact agree.modify inside refers fun items item member => by simpa using member

end Script
