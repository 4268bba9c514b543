import Script.Proofs.Evaluation.Lockstep
import Script.Proofs.Scope.Chain

/-! Scopes that bind nothing do not show. A run in which some scopes are enclosed by such blank
scopes is like a run without them: look-up passes through a blank scope to what encloses it. -/

namespace Script

/-- How the scopes of a run with blank scopes stand for those of a run without. A blank scope stands
for the same as the one that encloses it. -/
structure Overlay where
  image : ScopeId → ScopeId
  blank : Set ScopeId
  /-- How many scopes the run with blank scopes has, and how many the other. -/
  first : Nat
  second : Nat

namespace Overlay

variable {overlay later : Overlay} {code : List Stmt → List Stmt → Prop} {left right : Store}
  {id other : ScopeId} {value value' : Value}

structure Grows (overlay later : Overlay) : Prop where
  first_le : overlay.first ≤ later.first
  image_eq : ∀ id < overlay.first, later.image id = overlay.image id
  blank_iff : ∀ id < overlay.first, id ∈ later.blank ↔ id ∈ overlay.blank

theorem Grows.refl (overlay : Overlay) : overlay.Grows overlay :=
  ⟨Nat.le_refl _, fun _ _ => rfl, fun _ _ => Iff.rfl⟩

theorem Grows.trans {middle : Overlay} (first : overlay.Grows middle)
    (second : middle.Grows later) : overlay.Grows later := by
  have inside (id : ScopeId) (made : id < overlay.first) := Nat.lt_of_lt_of_le made first.first_le
  exact ⟨first.first_le.trans second.first_le,
    fun id made => (second.image_eq id (inside id made)).trans (first.image_eq id made),
    fun id made => (second.blank_iff id (inside id made)).trans (first.blank_iff id made)⟩

def Scopes (overlay : Overlay) (id other : ScopeId) : Prop :=
  id < overlay.first ∧ overlay.image id = other

theorem Scopes.grow (grown : overlay.Grows later) (same : overlay.Scopes id other) :
    later.Scopes id other :=
  ⟨Nat.lt_of_lt_of_le same.1 grown.first_le, (grown.image_eq id same.1).trans same.2⟩

/-- Arrays have the same numbers in both runs. -/
def Values (overlay : Overlay) (code : List Stmt → List Stmt → Prop) : Value → Value → Prop :=
  Value.Corresponds code overlay.Scopes Eq

theorem values_grow (grown : overlay.Grows later) (same : overlay.Values code value value') :
    later.Values code value value' :=
  Value.Corresponds.mono same (fun _ _ => Scopes.grow grown) fun _ _ same => same

structure Stores (overlay : Overlay) (code : List Stmt → List Stmt → Prop) (left right : Store) :
    Prop where
  first_size : left.scopes.size = overlay.first
  second_size : right.scopes.size = overlay.second
  known : ∀ id ∈ overlay.blank, id < overlay.first
  inside : ∀ id < overlay.first, overlay.image id < overlay.second
  empty : ∀ id ∈ overlay.blank, ∀ name, left.scopes.own? id name = none
  through : ∀ id ∈ overlay.blank, ∃ parent, left.scopes.parent? id = some parent ∧
    overlay.image parent = overlay.image id
  bound : ∀ id < overlay.first, id ∉ overlay.blank → ∀ name,
    Option.Rel (overlay.Values code) (left.scopes.own? id name)
      (right.scopes.own? (overlay.image id) name)
  linked : ∀ id < overlay.first, id ∉ overlay.blank →
    right.scopes.parent? (overlay.image id) = (left.scopes.parent? id).map overlay.image
  apart : ∀ id < overlay.first, id ∉ overlay.blank → ∀ other < overlay.first,
    other ∉ overlay.blank → overlay.image id = overlay.image other → id = other
  arrays : left.heap.size = right.heap.size
  elements : ∀ array, List.Forall₂ (overlay.Values code) (left.heap.elements array).toList
    (right.heap.elements array).toList

/-- A name belongs to corresponding scopes, or to none, and to no blank one. -/
theorem Stores.owner? (stores : overlay.Stores code left right) (made : id < overlay.first)
    (name : String) :
    right.scopes.owner? (overlay.image id) name =
        (left.scopes.owner? id name).map overlay.image ∧
      ∀ owner, left.scopes.owner? id name = some owner →
        owner < overlay.first ∧ owner ∉ overlay.blank := by
  induction id using left.scopes.enclosing_induction with
  | step id ih =>
    by_cases blank : id ∈ overlay.blank
    · obtain ⟨parent, found, same⟩ := stores.through id blank
      have outward : left.scopes.owner? id name = left.scopes.owner? parent name := by
        rw [ScopeTree.owner?_eq, stores.empty id blank, found]
        rfl
      rw [outward, ← same]
      exact ih parent found ((ScopeTree.parent?_lt found).trans made)
    · have own := stores.bound id made blank name
      have link := stores.linked id made blank
      rw [ScopeTree.owner?_eq, ScopeTree.owner?_eq left.scopes, link]
      generalize left.scopes.own? id name = value at own ⊢
      generalize right.scopes.own? (overlay.image id) name = value' at own ⊢
      cases own with
      | some same =>
        refine ⟨rfl, fun owner found => ?_⟩
        obtain rfl := Option.some.inj found
        exact ⟨made, blank⟩
      | none =>
        cases found : left.scopes.parent? id with
        | none => exact ⟨rfl, fun _ found => nomatch found⟩
        | some parent => exact ih parent found ((ScopeTree.parent?_lt found).trans made)

theorem Stores.get? (stores : overlay.Stores code left right) (made : id < overlay.first)
    (name : String) : Option.Rel (overlay.Values code) (left.scopes.get? id name)
      (right.scopes.get? (overlay.image id) name) := by
  obtain ⟨same, plain⟩ := stores.owner? made name
  unfold ScopeTree.get?
  rw [same]
  cases found : left.scopes.owner? id name with
  | none => exact .none
  | some owner =>
    obtain ⟨made, blank⟩ := plain owner found
    exact stores.bound owner made blank name

/-- A definition in a scope that is not blank, and the same in the one it stands for. -/
theorem Stores.define (stores : overlay.Stores code left right) (made : id < overlay.first)
    (plain : id ∉ overlay.blank) (same : overlay.Values code value value') (name : String) :
    overlay.Stores code ⟨left.scopes.define id name value, left.heap⟩
      ⟨right.scopes.define (overlay.image id) name value', right.heap⟩ := by
  have own (other : ScopeId) (sought : String) :=
    ScopeTree.own?_define left.scopes id other name sought value (stores.first_size ▸ made)
  have own' (other : ScopeId) (sought : String) :=
    ScopeTree.own?_define right.scopes (overlay.image id) other name sought value'
      (stores.second_size ▸ stores.inside id made)
  refine { stores with
    first_size := by simpa using stores.first_size
    second_size := by simpa using stores.second_size
    empty := fun other blank sought => ?_
    through := fun other blank => by simpa using stores.through other blank
    bound := fun other inside blank sought => ?_
    linked := fun other inside blank => by simpa using stores.linked other inside blank }
  · have differs : id ≠ other := fun hit => plain (hit ▸ blank)
    rw [own, if_neg fun both => differs both.1]
    exact stores.empty other blank sought
  · have hit : overlay.image id = overlay.image other ↔ id = other :=
      ⟨stores.apart id made plain other inside blank, fun same => same ▸ rfl⟩
    rw [own, own']
    simp only [hit]
    split
    · exact .some same
    · exact stores.bound other inside blank sought

/-- The next scope of the first run is one that stands for `target`. -/
def next (overlay : Overlay) (target : ScopeId) (blank : Set ScopeId) (second : Nat) : Overlay where
  image id := if id = overlay.first then target else overlay.image id
  blank := blank
  first := overlay.first + 1
  second := second

theorem image_next {target : ScopeId} {blank : Set ScopeId} {second : Nat}
    (old : id < overlay.first) : (overlay.next target blank second).image id = overlay.image id :=
  if_neg (Nat.ne_of_lt old)

theorem image_next_first {target : ScopeId} {blank : Set ScopeId} {second : Nat} :
    (overlay.next target blank second).image overlay.first = target :=
  if_pos rfl

theorem grows_next {target : ScopeId} {blank : Set ScopeId} {second : Nat}
    (same : ∀ id < overlay.first, id ∈ blank ↔ id ∈ overlay.blank) :
    overlay.Grows (overlay.next target blank second) :=
  ⟨Nat.le_succ _, fun _ => image_next, same⟩

/-- One more scope in the first run; the second run has scopes at least as many as before. If the
new scope is not blank, it stands for a new one. -/
theorem Stores.addScope {target second parent : ScopeId} {blank : Set ScopeId}
    {tree : ScopeTree Value} (stores : overlay.Stores code left right)
    (made : parent < overlay.first)
    (same : ∀ id < overlay.first, id ∈ blank ↔ id ∈ overlay.blank)
    (known : ∀ id ∈ blank, id < overlay.first + 1)
    (size : tree.size = second) (inside : target < second) (more : overlay.second ≤ second)
    (own : ∀ id name, tree.own? id name = right.scopes.own? id name)
    (links : ∀ id < overlay.second, tree.parent? id = right.scopes.parent? id)
    (hidden : overlay.first ∈ blank → overlay.image parent = target)
    (plain : overlay.first ∉ blank → overlay.second ≤ target ∧
      tree.parent? target = some (overlay.image parent)) :
    (overlay.next target blank second).Stores code ⟨left.scopes.add (some parent), left.heap⟩
      ⟨tree, right.heap⟩ := by
  have grown : overlay.Grows (overlay.next target blank second) := grows_next same
  have split {id : ScopeId} (inside : id < overlay.first + 1) :
      id < overlay.first ∨ id = overlay.first := Nat.lt_succ_iff_lt_or_eq.mp inside
  have fresh (name : String) : left.scopes.own? overlay.first name = none :=
    ScopeTree.own?_eq_none (Nat.le_of_eq stores.first_size)
  have link (id : ScopeId) (old : id < overlay.first) :
      (left.scopes.add (some parent)).parent? id = left.scopes.parent? id := by
    rw [ScopeTree.parent?_add, stores.first_size, if_neg (Nat.ne_of_lt old)]
  have linkNew : (left.scopes.add (some parent)).parent? overlay.first = some parent := by
    simp [ScopeTree.parent?_add, stores.first_size, made]
  constructor
  case first_size => simp [next, stores.first_size]
  case second_size => exact size
  case known => exact known
  case inside =>
    intro id now
    rcases split now with old | rfl
    · rw [image_next old]
      exact Nat.lt_of_lt_of_le (stores.inside id old) more
    · rw [image_next_first]
      exact inside
  case empty =>
    intro id now name
    rw [ScopeTree.own?_add]
    rcases split (known id now) with old | rfl
    · exact stores.empty id ((same id old).mp now) name
    · exact fresh name
  case through =>
    intro id now
    rcases split (known id now) with old | rfl
    · obtain ⟨outer, found, shown⟩ := stores.through id ((same id old).mp now)
      have older : outer < overlay.first := (ScopeTree.parent?_lt found).trans old
      exact ⟨outer, (link id old).trans found, by rw [image_next old, image_next older, shown]⟩
    · exact ⟨parent, linkNew, by rw [image_next made, image_next_first, hidden now]⟩
  case bound =>
    intro id now visible name
    rw [ScopeTree.own?_add, own]
    rcases split now with old | rfl
    · rw [image_next old]
      have bound := stores.bound id old (fun hides => visible ((same id old).mpr hides)) name
      generalize left.scopes.own? id name = value at bound ⊢
      generalize right.scopes.own? (overlay.image id) name = value' at bound ⊢
      cases bound with
      | none => exact .none
      | some alike => exact .some (values_grow grown alike)
    · have absent : right.scopes.own? target name = none :=
        ScopeTree.own?_eq_none (stores.second_size ▸ (plain visible).1)
      rw [image_next_first, fresh, absent]
      exact .none
  case linked =>
    intro id now visible
    rcases split now with old | rfl
    · rw [image_next old, link id old, links _ (stores.inside id old),
        stores.linked id old fun hides => visible ((same id old).mpr hides)]
      cases found : left.scopes.parent? id with
      | none => rfl
      | some outer => simp [image_next ((ScopeTree.parent?_lt found).trans old)]
    · rw [image_next_first, linkNew, (plain visible).2, Option.map_some, image_next made]
  case apart =>
    intro id now visible other now' visible' shown
    rcases split now with old | rfl
    · rcases split now' with old' | rfl
      · rw [image_next old, image_next old'] at shown
        exact stores.apart id old (fun hides => visible ((same id old).mpr hides)) other old'
          (fun hides => visible' ((same other old').mpr hides)) shown
      · rw [image_next old, image_next_first] at shown
        exact absurd (shown ▸ stores.inside id old) (Nat.not_lt.mpr (plain visible').1)
    · rcases split now' with old' | rfl
      · rw [image_next old', image_next_first] at shown
        exact absurd (shown ▸ stores.inside other old') (Nat.not_lt.mpr (plain visible).1)
      · rfl
  case arrays => exact stores.arrays
  case elements =>
    exact fun array => (stores.elements array).imp fun _ _ => values_grow grown

/-- A new scope on both sides, in corresponding ones. -/
theorem Stores.enter (stores : overlay.Stores code left right) (made : id < overlay.first) :
    (overlay.next overlay.second overlay.blank (overlay.second + 1)).Stores code
      ⟨left.scopes.add (some id), left.heap⟩
      ⟨right.scopes.add (some (overlay.image id)), right.heap⟩ := by
  refine stores.addScope made (fun _ _ => Iff.rfl)
    (fun id hides => Nat.lt_succ_of_lt (stores.known id hides)) (by simp [stores.second_size])
    (Nat.lt_succ_self _) (Nat.le_succ _) (fun _ _ => ScopeTree.own?_add _ _ _ _)
    (fun other old => ?_) (fun hides => absurd (stores.known _ hides) (Nat.lt_irrefl _))
    fun _ => ⟨Nat.le_refl _, ?_⟩
  · rw [ScopeTree.parent?_add, stores.second_size, if_neg (Nat.ne_of_lt old)]
  · simp [ScopeTree.parent?_add, stores.second_size, stores.inside id made]

/-- A new blank scope in the first run only. -/
theorem Stores.enterBlank (stores : overlay.Stores code left right) (made : id < overlay.first) :
    (overlay.next (overlay.image id) (insert overlay.first overlay.blank) overlay.second).Stores
      code ⟨left.scopes.add (some id), left.heap⟩ right := by
  refine stores.addScope made (fun other old => ?_) (fun other hides => ?_) stores.second_size
    (stores.inside id made) (Nat.le_refl _) (fun _ _ => rfl) (fun _ _ => rfl) (fun _ => rfl)
    fun visible => absurd (Set.mem_insert _ _) visible
  · simp [Nat.ne_of_lt old]
  · rcases Set.mem_insert_iff.mp hides with rfl | hides
    · exact Nat.lt_succ_self _
    · exact Nat.lt_succ_of_lt (stores.known other hides)

theorem Stores.modify {array : ArrayId} {change change' : Array Value → Array Value}
    (stores : overlay.Stores code left right)
    (changed : ∀ items items' : Array Value,
      List.Forall₂ (overlay.Values code) items.toList items'.toList →
        List.Forall₂ (overlay.Values code) (change items).toList (change' items').toList) :
    overlay.Stores code ⟨left.scopes, ⟨left.heap.arrays.modify array change⟩⟩
      ⟨right.scopes, ⟨right.heap.arrays.modify array change'⟩⟩ :=
  { stores with
    arrays := by simpa [Heap.size] using stores.arrays
    elements := Heap.forall₂_modify stores.arrays stores.elements changed }

theorem forall₂_setIfInBounds {related : Value → Value → Prop} {items items' : Array Value}
    (same : List.Forall₂ related items.toList items'.toList) (place : Nat)
    (written : related value value') :
    List.Forall₂ related (items.setIfInBounds place value).toList
      (items'.setIfInBounds place value').toList := by
  rw [Array.toList_setIfInBounds, Array.toList_setIfInBounds]
  generalize items.toList = items, items'.toList = items' at same
  induction same generalizing place with
  | nil => exact .nil
  | cons head tail ih =>
    cases place with
    | zero => exact .cons written tail
    | succ place => exact .cons head (ih place)

/-- A run with blank scopes beside one without. -/
def simulation (code : List Stmt → List Stmt → Prop := Eq) : Simulation code where
  Stage := Overlay
  grows := Overlay.Grows
  grows_refl := Overlay.Grows.refl
  grows_trans := Overlay.Grows.trans
  scopes := Overlay.Scopes
  arrays _ := Eq
  scopes_grow grown _ _ same := Overlay.Scopes.grow grown same
  arrays_grow _ _ _ same := same
  stores stage := stage.Stores code
  declares stage id _ := id ∉ stage.blank
  declares_grow grown _ _ same _ plain hides := plain ((grown.blank_iff _ same.1).mp hides)
  heaps stores :=
    { elements := fun same => same ▸ stores.elements _
      made := fun same => by rw [same, stores.arrays]
      apart := fun same same' => by rw [same, same'] }
  get := by
    rintro stage left right id _ stores ⟨made, rfl⟩ name
    exact stores.get? made name
  assign := by
    rintro stage left right id _ value value' stores ⟨made, rfl⟩ same name
    obtain ⟨owners, plain⟩ := stores.owner? made name
    unfold ScopeTree.assign?
    rw [owners]
    cases found : left.scopes.owner? id name with
    | none => exact .none
    | some owner =>
      obtain ⟨made, visible⟩ := plain owner found
      exact .some ⟨stage, .refl stage, stores.define made visible same name⟩
  define := by
    rintro stage left right id _ value value' stores ⟨made, rfl⟩ same name visible
    exact ⟨stage, .refl stage, stores.define made visible same name⟩
  enter := by
    rintro stage left right id _ stores ⟨made, rfl⟩
    refine ⟨_, grows_next fun _ _ => Iff.rfl, stores.enter made, ⟨?_, ?_⟩, fun _ hides => ?_⟩
    · exact stores.first_size ▸ Nat.lt_succ_self _
    · rw [stores.first_size, stores.second_size, image_next_first]
    · exact Nat.lt_irrefl _ (stores.first_size ▸ stores.known _ hides)
  makeArray := by
    intro stage left right items items' stores same
    refine ⟨stage, .refl stage, { stores with arrays := ?_, elements := ?_ }, stores.arrays⟩
    · simpa [Heap.add, Heap.size] using stores.arrays
    · exact Heap.forall₂_add stores.arrays stores.elements same
  write := by
    rintro stage left right array _ value value' stores rfl same place
    exact stores.modify fun items items' alike => forall₂_setIfInBounds alike place same
  append := by
    rintro stage left right array _ value value' stores rfl same
    refine stores.modify fun items items' alike => ?_
    simpa using List.rel_append alike (.cons same .nil)

section Runs

variable {pace : Pace} {stage : Overlay} {first second : ScopeId} {α β : Type}

/-- A blank scope in the first run only. -/
theorem runs_inBlank {related : Overlay → α → β → Prop} {run : Eval α} {run' : Eval β}
    (here : stage.Scopes first second)
    (body : ∀ later : Overlay, ∀ inner, stage.Grows later → later.Scopes inner second →
      (simulation code).Runs pace later inner second related run run') :
    (simulation code).Runs pace stage first second related (Eval.inScope (some first) run)
      run' := by
  intro now left right grown machines
  have here := here.grow grown
  have stores : Stores _ code ⟨left.scopes.add (some first), left.heap⟩ right.store :=
    machines.stores.enterBlank here.1
  obtain ⟨made, rfl⟩ := here
  have entered : now.Grows (now.next (now.image first) (insert now.first now.blank) now.second) :=
    grows_next fun other old => by simp [Nat.ne_of_lt old]
  have size : left.scopes.size = now.first := machines.stores.first_size
  have ends := body _ now.first (grown.trans entered) ⟨Nat.lt_succ_self _, image_next_first⟩ _
    (left.enter (some first)) right (.refl _) ⟨stores, size, machines.second, machines.functions,
      machines.clock, machines.output⟩
  rw [Eval.inScope_eq, machines.first]
  exact (ends.withFirst first).earlier entered

/-- A block that opens a blank scope in the first run only. -/
theorem runs_block {statements : List Stmt} {steps : Nat} {related : Overlay → Flow → β → Prop}
    {run' : Eval β} (here : stage.Scopes first second)
    (body : ∀ later : Overlay, ∀ inner, stage.Grows later → later.Scopes inner second →
      (simulation code).Runs pace later inner second related (executeAll (execute steps) statements)
        run') :
    (simulation code).Runs pace stage first second related (execute (steps + 1) (.block statements))
      run' := by
  intro now left right grown machines
  have same : execute (steps + 1) (.block statements) left =
      Eval.inScope (some first) (executeAll (execute steps) statements) left := by
    rw [← machines.first]
    rfl
  rw [same]
  exact runs_inBlank here body now left right grown machines

end Runs
end Overlay
end Script
