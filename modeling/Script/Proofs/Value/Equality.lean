import Script.Proofs.Value.Bisimilarity

/-! Comparison of values decides bisimilarity. What it takes to be equal on its way down need not
be assumed: an assumption that holds anyway can be cut. -/

namespace Script.Value

variable {heap : Heap} {assumed more : List (ArrayId × ArrayId)} {left right : Value}

/-- The elements in the same places of two arrays; there are none if one was never made. -/
def elementPairs (heap : Heap) (left right : ArrayId) : List (Value × Value) :=
  (heap.elements left).toList.zip (heap.elements right).toList

theorem elementPairs_inside {left right : ArrayId} {pair : Value × Value}
    (member : pair ∈ elementPairs heap left right) : left < heap.size ∧ right < heap.size := by
  constructor
  · by_contra outside
    simp [elementPairs, Heap.elements_eq_empty (Nat.le_of_not_lt outside)] at member
  · by_contra outside
    simp [elementPairs, Heap.elements_eq_empty (Nat.le_of_not_lt outside)] at member

/-- The comparison of arrays that are not yet assumed to be equal goes through their elements. -/
theorem equalAssuming_elements {left right : ArrayId} (differ : left ≠ right)
    (fresh : (left, right) ∉ assumed) :
    equalAssuming heap assumed (.array left) (.array right) = true ↔
      List.Forall₂ (fun x y => equalAssuming heap ((left, right) :: assumed) x y = true)
        (heap.elements left).toList (heap.elements right).toList := by
  rw [List.forall₂_iff_zip, equalAssuming, if_neg differ, if_neg fresh]
  split
  · simp
  · rename_i outside
    have none {x y : Value} : (x, y) ∉ elementPairs heap left right :=
      fun member => outside (elementPairs_inside member)
    constructor
    · intro same
      exact ⟨by simpa using same, fun member => absurd member none⟩
    · rintro ⟨same, _⟩
      simpa using same

/-- What a comparison finds equal: what is alike, what is assumed, and arrays whose elements it
finds equal once they are assumed to be. -/
theorem equalAssuming_iff :
    equalAssuming heap assumed left right = true ↔
      Alike left right ∨ ∃ first second, left = .array first ∧ right = .array second ∧
        ((first, second) ∈ assumed ∨
          List.Forall₂ (fun x y => equalAssuming heap ((first, second) :: assumed) x y = true)
            (heap.elements first).toList (heap.elements second).toList) := by
  constructor
  · intro equal
    cases left with
    | array first =>
      cases right with
      | array second =>
        by_cases same : first = second
        · subst same
          exact .inl (.array first)
        · by_cases known : (first, second) ∈ assumed
          · exact .inr ⟨first, second, rfl, rfl, .inl known⟩
          · exact .inr ⟨first, second, rfl, rfl,
              .inr ((equalAssuming_elements same known).mp equal)⟩
      | _ => simp [equalAssuming] at equal
    | nil =>
      cases right with
      | nil => exact .inl .nil
      | _ => simp [equalAssuming] at equal
    | boolean value =>
      cases right with
      | boolean other =>
        obtain rfl : value = other := by simpa [equalAssuming] using equal
        exact .inl (.boolean value)
      | _ => simp [equalAssuming] at equal
    | number value =>
      cases right with
      | number other => exact .inl (.number (by simpa [equalAssuming] using equal))
      | _ => simp [equalAssuming] at equal
    | string text =>
      cases right with
      | string other =>
        obtain rfl : text = other := by simpa [equalAssuming] using equal
        exact .inl (.string text)
      | _ => simp [equalAssuming] at equal
    | function id callable =>
      cases right with
      | function other callable' =>
        obtain rfl : id = other := by simpa [equalAssuming] using equal
        exact .inl (.function id callable callable')
      | _ => simp [equalAssuming] at equal
  · rintro (alike | ⟨first, second, rfl, rfl, known | each⟩)
    · cases alike <;> simp_all [equalAssuming]
    · by_cases same : first = second <;> simp [equalAssuming, same, known]
    · by_cases same : first = second
      · simp [equalAssuming, same]
      · by_cases known : (first, second) ∈ assumed
        · simp [equalAssuming, same, known]
        · exact (equalAssuming_elements same known).mpr each

/-- Induction on a comparison: whatever holds of values if it holds of the elements of arrays, once
these are assumed to be equal. It is founded on the pairs of arrays not yet assumed. -/
theorem compare_induction (heap : Heap)
    {holds : List (ArrayId × ArrayId) → Value → Value → Prop}
    (step : ∀ assumed left right,
      (∀ first second, left = .array first → right = .array second → (first, second) ∉ assumed →
        ∀ pair ∈ elementPairs heap first second,
          holds ((first, second) :: assumed) pair.1 pair.2) →
      holds assumed left right) (assumed : List (ArrayId × ArrayId)) (left right : Value) :
    holds assumed left right := by
  induction count : unseen (arrayPairs heap) assumed using Nat.strongRecOn
    generalizing assumed left right with
  | ind count ih =>
    refine step assumed left right ?_
    intro first second _ _ fresh pair member
    obtain ⟨firstInside, secondInside⟩ := elementPairs_inside member
    have fewer := unseen_cons_lt (mem_arrayPairs firstInside secondInside) fresh
    exact ih _ (count ▸ fewer) _ _ _ rfl

/-- What is equal stays so if more is assumed. -/
theorem equalAssuming_mono : ∀ (assumed : List (ArrayId × ArrayId)) (left right : Value),
    ∀ more, assumed ⊆ more → equalAssuming heap assumed left right = true →
      equalAssuming heap more left right = true := by
  refine compare_induction heap ?_
  intro assumed left right ih more within equal
  rw [equalAssuming_iff] at equal ⊢
  obtain alike | ⟨first, second, rfl, rfl, known | each⟩ := equal
  · exact .inl alike
  · exact .inr ⟨first, second, rfl, rfl, .inl (within known)⟩
  · refine .inr ⟨first, second, rfl, rfl, ?_⟩
    by_cases known : (first, second) ∈ assumed
    · exact .inl (within known)
    · obtain ⟨length, related⟩ := List.forall₂_iff_zip.mp each
      refine .inr (List.forall₂_iff_zip.mpr ⟨length, fun {x y} member => ?_⟩)
      have larger : (first, second) :: assumed ⊆ (first, second) :: more :=
        List.cons_subset_cons _ within
      exact ih first second rfl rfl known (x, y) member _ larger (related member)

/-- An assumption that holds anyway can be cut. -/
theorem equalAssuming_cut : ∀ (assumed : List (ArrayId × ArrayId)) (left right : Value),
    ∀ first second, equalAssuming heap assumed (.array first) (.array second) = true →
      equalAssuming heap ((first, second) :: assumed) left right = true →
      equalAssuming heap assumed left right = true := by
  refine compare_induction heap ?_
  intro assumed left right ih first second holds equal
  rw [equalAssuming_iff] at equal
  obtain alike | ⟨third, fourth, rfl, rfl, known | each⟩ := equal
  · exact equalAssuming_iff.mpr (.inl alike)
  · obtain same | known := List.mem_cons.mp known
    · cases same
      exact holds
    · exact equalAssuming_iff.mpr (.inr ⟨third, fourth, rfl, rfl, .inl known⟩)
  · refine equalAssuming_iff.mpr (.inr ⟨third, fourth, rfl, rfl, ?_⟩)
    by_cases known : (third, fourth) ∈ assumed
    · exact .inl known
    · obtain ⟨length, related⟩ := List.forall₂_iff_zip.mp each
      refine .inr (List.forall₂_iff_zip.mpr ⟨length, fun {x y} member => ?_⟩)
      -- The pair of arrays joins the assumptions below the one to be cut.
      have swapped : (third, fourth) :: (first, second) :: assumed ⊆
          (first, second) :: (third, fourth) :: assumed := by
        intro pair
        simp only [List.mem_cons]
        tauto
      have larger : assumed ⊆ (third, fourth) :: assumed := List.subset_cons_self _ assumed
      have holds' := equalAssuming_mono _ _ _ _ larger holds
      have equal := equalAssuming_mono _ _ _ _ swapped (related member)
      exact ih third fourth rfl rfl known (x, y) member first second holds' equal

/-- Whatever is found equal is bisimilar. -/
theorem bisimilar_of_equals (equal : equals heap left right = true) :
    Bisimilar heap left right := by
  refine ⟨fun left right => equals heap left right = true, ?_, equal⟩
  intro left right equal
  have whole := equal
  unfold equals at equal
  rw [equalAssuming_iff] at equal
  obtain alike | ⟨first, second, rfl, rfl, known | each⟩ := equal
  · exact .alike alike
  · cases known
  · exact .elements (each.imp fun x y related => equalAssuming_cut _ _ _ _ _ whole related)

/-- Whatever is bisimilar is found equal, under any assumptions. -/
theorem equalAssuming_of_bisimilar : ∀ (assumed : List (ArrayId × ArrayId)) (left right : Value),
    Bisimilar heap left right → equalAssuming heap assumed left right = true := by
  refine compare_induction heap ?_
  intro assumed left right ih found
  rw [equalAssuming_iff]
  cases bisimulation_bisimilar heap left right found with
  | alike same => exact .inl same
  | @elements first second each =>
    refine .inr ⟨first, second, rfl, rfl, ?_⟩
    by_cases known : (first, second) ∈ assumed
    · exact .inl known
    · obtain ⟨length, related⟩ := List.forall₂_iff_zip.mp each
      refine .inr (List.forall₂_iff_zip.mpr ⟨length, fun {x y} member => ?_⟩)
      exact ih first second rfl rfl known (x, y) member (related member)

theorem equals_iff_bisimilar : equals heap left right = true ↔ Bisimilar heap left right :=
  ⟨bisimilar_of_equals, equalAssuming_of_bisimilar [] left right⟩

/-- Equality of values decides the largest bisimulation. It is symmetric and transitive, and it is
reflexive but for a number that differs from itself. -/
theorem equals_decides_bisimilarity (heap : Heap) :
    (∀ left right, equals heap left right = true ↔ Bisimilar heap left right) ∧
    Bisimulation heap (Bisimilar heap) ∧
    (∀ related, Bisimulation heap related → ∀ left right, related left right →
      Bisimilar heap left right) ∧
    (∀ left right, equals heap left right = equals heap right left) ∧
    (∀ left middle right, equals heap left middle = true → equals heap middle right = true →
      equals heap left right = true) ∧
    ∀ value, equals heap value value = true ↔
      ∀ number, value = .number number → ¬number.isNaN = true := by
  refine ⟨fun _ _ => equals_iff_bisimilar, bisimulation_bisimilar heap, ?_, ?_, ?_, ?_⟩
  · intro related closed left right found
    exact ⟨related, closed, found⟩
  · intro left right
    rw [Bool.eq_iff_iff, equals_iff_bisimilar, equals_iff_bisimilar]
    exact ⟨Bisimilar.symm, Bisimilar.symm⟩
  · intro left middle right first second
    rw [equals_iff_bisimilar] at first second ⊢
    exact first.trans second
  · intro value
    rw [equals_iff_bisimilar]
    exact bisimilar_self_iff value

end Script.Value
