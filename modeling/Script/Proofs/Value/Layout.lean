import Mathlib.Data.List.Nodup
import Mathlib.Data.List.Induction
import Script.Value.Text

/-! What the text of a value shows at which place. An array is written out wherever it occurs,
except inside itself, so only a value that leads into a cycle is abbreviated. -/

namespace Script

/-- What is written for a value: arrays are lists, written out or not, and all else are leaves. -/
inductive Layout where
  | leaf (value : Value)
  | ellipsis
  | list (items : List Layout)

namespace Layout

mutual

def text : Layout → String
  | .leaf value => value.text Heap.empty
  | .ellipsis => "[...]"
  | .list items => "[" ++ ", ".intercalate (texts items) ++ "]"

def texts : List Layout → List String
  | [] => []
  | item :: rest => item.text :: texts rest

end

theorem texts_eq_map (items : List Layout) : texts items = items.map text := by
  induction items with
  | nil => rfl
  | cons item rest ih => rw [texts, ih, List.map_cons]

/-- The part of a layout at the end of a path, which names a place in one list after the other. -/
def at? : Layout → List Nat → Option Layout
  | layout, [] => some layout
  | .list items, place :: path => items[place]?.bind fun item => item.at? path
  | _, _ :: _ => none

end Layout

namespace Heap

/-- The path leads from one value to another through the elements of these arrays, which enclose
the other, outermost first. -/
inductive Leads (heap : Heap) : Value → List Nat → List ArrayId → Value → Prop where
  | here (value : Value) : Leads heap value [] [] value
  | element {id : ArrayId} {place : Nat} {item found : Value} {path : List Nat}
      {enclosing : List ArrayId} (stored : (heap.elements id)[place]? = some item)
      (onward : Leads heap item path enclosing found) :
      Leads heap (.array id) (place :: path) (id :: enclosing) found

/-- The array is an element of itself, or of another that it contains. -/
def ContainsItself (heap : Heap) (id : ArrayId) : Prop :=
  ∃ path enclosing, path ≠ [] ∧ heap.Leads (.array id) path enclosing (.array id)

def MeetsCycle (heap : Heap) (value : Value) : Prop :=
  ∃ path enclosing id, heap.Leads value path enclosing (.array id) ∧ heap.ContainsItself id

/-- The tree that a value unfolds to, where every array is written out however often it occurs. -/
inductive Unfolds (heap : Heap) : Value → Layout → Prop where
  | leaf {value : Value} (atom : ∀ id, value ≠ .array id) : Unfolds heap value (.leaf value)
  | list {id : ArrayId} {items : List Layout} (length : items.length = (heap.elements id).size)
      (each : ∀ (place : Nat) (item : Value) (tree : Layout),
        (heap.elements id)[place]? = some item → items[place]? = some tree →
        Unfolds heap item tree) :
      Unfolds heap (.array id) (.list items)

variable {heap : Heap} {value found last : Value} {path more : List Nat}
  {enclosing further : List ArrayId} {id : ArrayId} {tree : Layout}

namespace Leads

theorem append (first : heap.Leads value path enclosing found)
    (second : heap.Leads found more further last) :
    heap.Leads value (path ++ more) (enclosing ++ further) last := by
  induction first with
  | here value => exact second
  | element stored _ ih => exact .element stored (ih second)

/-- An enclosing array is met on the way. -/
theorem split (leads : heap.Leads value path enclosing found) (member : id ∈ enclosing) :
    ∃ before outer behind inner, behind ≠ [] ∧ heap.Leads value before outer (.array id) ∧
      heap.Leads (.array id) behind inner found := by
  induction leads with
  | here value => cases member
  | @element own place item found path enclosing stored onward ih =>
    rcases List.mem_cons.mp member with rfl | inside
    · exact ⟨[], [], _, _, List.cons_ne_nil place path, .here _, .element stored onward⟩
    · obtain ⟨before, outer, behind, inner, further, reached, continued⟩ := ih inside
      exact ⟨_, _, behind, inner, further, .element stored reached, continued⟩

theorem concat_inv {place : Nat} (leads : heap.Leads value (path ++ [place]) enclosing found) :
    ∃ before id, heap.Leads value path before (.array id) ∧ enclosing = before ++ [id] := by
  induction path generalizing value enclosing with
  | nil =>
    cases leads with
    | element stored onward =>
      cases onward
      exact ⟨[], _, .here _, rfl⟩
  | cons first path ih =>
    cases leads with
    | element stored onward =>
      obtain ⟨before, id, reached, rfl⟩ := ih onward
      exact ⟨_, id, .element stored reached, rfl⟩

/-- As many arrays enclose a value as there are steps on the path to it. -/
theorem length_eq (leads : heap.Leads value path enclosing found) :
    enclosing.length = path.length := by
  induction leads with
  | here value => rfl
  | element stored _ ih => rw [List.length_cons, List.length_cons, ih]

theorem made (leads : heap.Leads value path enclosing found) (member : id ∈ enclosing) :
    id < heap.size := by
  induction leads with
  | here value => cases member
  | @element own place item found path enclosing stored onward ih =>
    rcases List.mem_cons.mp member with rfl | inside
    · by_contra absent
      rw [elements_eq_empty (Nat.le_of_not_lt absent)] at stored
      cases stored
    · exact ih inside

/-- Distinct arrays cannot be nested deeper than there are arrays. -/
theorem length_le (leads : heap.Leads value path enclosing found) (distinct : enclosing.Nodup) :
    path.length ≤ heap.size := by
  have known : enclosing ⊆ List.range heap.size :=
    fun id member => List.mem_range.mpr (leads.made member)
  calc path.length = enclosing.length := leads.length_eq.symm
    _ ≤ (List.range heap.size).length := distinct.length_le_of_subset known
    _ = heap.size := List.length_range

end Leads

/-- An array that encloses itself is a cycle on the way. -/
theorem MeetsCycle.of_enclosed (leads : heap.Leads value path enclosing (.array id))
    (member : id ∈ enclosing) : heap.MeetsCycle value := by
  obtain ⟨before, outer, behind, inner, further, reached, returns⟩ := leads.split member
  exact ⟨before, outer, id, reached, behind, inner, further, returns⟩

namespace Unfolds

/-- A value unfolds to one tree. -/
theorem unique {other : Layout} (unfolds : heap.Unfolds value tree)
    (again : heap.Unfolds value other) : tree = other := by
  induction unfolds generalizing other with
  | leaf atom =>
    cases again with
    | leaf _ => rfl
    | list _ _ => exact absurd rfl (atom _)
  | @list id items length each ih =>
    cases again with
    | leaf atom => exact absurd rfl (atom id)
    | @list _ others length' each' =>
      congr 1
      refine List.ext_getElem (length.trans length'.symm) fun place inside inside' => ?_
      have made : place < (heap.elements id).size := length ▸ inside
      have stored := Array.getElem?_eq_getElem made
      have known := List.getElem?_eq_getElem inside
      have known' := List.getElem?_eq_getElem inside'
      exact ih place _ _ stored known (each' place _ _ stored known')

/-- What unfolds leads into no cycle: from an array on a cycle one of its elements leads back to
it, and that element unfolds to a smaller tree. -/
theorem acyclic (unfolds : heap.Unfolds value tree) : ¬heap.MeetsCycle value := by
  induction unfolds with
  | leaf atom =>
    rintro ⟨path, enclosing, id, leads, contains⟩
    cases leads with
    | here => exact atom id rfl
    | element stored onward => exact atom _ rfl
  | @list id items length each ih =>
    have inner {place : Nat} {item : Value} (stored : (heap.elements id)[place]? = some item) :
        ¬heap.MeetsCycle item := by
      have inside : place < items.length := by
        rw [length]
        exact (Array.getElem?_eq_some_iff.mp stored).1
      exact ih place item _ stored (List.getElem?_eq_getElem inside)
    rintro ⟨path, enclosing, cyclic, leads, contains⟩
    cases leads with
    | here =>
      obtain ⟨round, _, further, returns⟩ := contains
      cases returns with
      | here => exact further rfl
      | element stored onward =>
        exact inner stored ⟨_, _, id, onward, _, _, further, .element stored onward⟩
    | element stored onward => exact inner stored ⟨_, _, cyclic, onward, contains⟩

end Unfolds
end Heap

namespace Value

variable {heap : Heap} {opened : List ArrayId} {value found : Value} {path : List Nat}
  {enclosing : List ArrayId} {id : ArrayId}

/-- What is written for a value inside the arrays of `opened`. -/
def layoutWithin (heap : Heap) (opened : List ArrayId) : Value → Layout
  | .array id =>
    if id ∈ opened then .ellipsis
    else if id < heap.size then
      .list ((heap.elements id).toList.map fun item => item.layoutWithin heap (id :: opened))
    else .list []
  | value => .leaf value
termination_by unseen (List.range heap.size) opened
decreasing_by exact unseen_cons_lt (List.mem_range.2 ‹_›) ‹_›

def layout (heap : Heap) (value : Value) : Layout := value.layoutWithin heap []

theorem layoutWithin_closed (shown : id ∈ opened) :
    (Value.array id).layoutWithin heap opened = .ellipsis := by
  rw [layoutWithin, if_pos shown]

theorem layoutWithin_open (fresh : id ∉ opened) : (Value.array id).layoutWithin heap opened =
    .list ((heap.elements id).toList.map (layoutWithin heap (id :: opened))) := by
  rw [layoutWithin, if_neg fresh]
  split
  · rfl
  · rename_i absent
    rw [Heap.elements_eq_empty (Nat.le_of_not_lt absent)]
    rfl

/-- A value is one of the arrays it is in, or another, or no array at all. -/
theorem layoutWithin_cases (heap : Heap) (opened : List ArrayId) (value : Value) :
    (∃ id ∈ opened, value = .array id ∧ value.layoutWithin heap opened = .ellipsis) ∨
    (∃ id ∉ opened, value = .array id ∧ value.layoutWithin heap opened =
      .list ((heap.elements id).toList.map (layoutWithin heap (id :: opened)))) ∨
    (∀ id, value ≠ .array id) ∧ value.layoutWithin heap opened = .leaf value := by
  cases value with
  | array id =>
    by_cases shown : id ∈ opened
    · exact .inl ⟨id, shown, rfl, layoutWithin_closed shown⟩
    · exact .inr (.inl ⟨id, shown, rfl, layoutWithin_open shown⟩)
  | _ => exact .inr (.inr ⟨nofun, by simp only [layoutWithin]⟩)

/-- How a value shows that these arrays enclose: it is abbreviated if it is one of them, and
otherwise its elements are all written. -/
structure Shows (heap : Heap) (enclosing : List ArrayId) (value : Value) (node : Layout) :
    Prop where
  ellipsis : node = .ellipsis ↔ ∃ id ∈ enclosing, value = .array id
  list : ∀ items, node = .list items →
    ∃ id, value = .array id ∧ items.length = (heap.elements id).size
  leaf : ∀ atom, node = .leaf atom → value = atom ∧ ∀ id, value ≠ .array id

theorem shows_layoutWithin (heap : Heap) (opened : List ArrayId) (value : Value) :
    value.Shows heap opened (value.layoutWithin heap opened) := by
  rcases value.layoutWithin_cases heap opened with
    ⟨id, shown, rfl, same⟩ | ⟨id, fresh, rfl, same⟩ | ⟨atom, same⟩
  · rw [same]
    exact ⟨iff_of_true rfl ⟨id, shown, rfl⟩, nofun, nofun⟩
  · rw [same]
    refine ⟨iff_of_false nofun ?_, fun items written => ?_, nofun⟩
    · rintro ⟨_, shown, ⟨⟩⟩
      exact fresh shown
    · cases written
      exact ⟨id, rfl, by rw [List.length_map, Array.length_toList]⟩
  · rw [same]
    refine ⟨iff_of_false nofun ?_, nofun, fun leaf written => ?_⟩
    · rintro ⟨id, _, array⟩
      exact atom id array
    · cases written
      exact ⟨rfl, atom⟩

theorem Shows.of_reverse {node : Layout} (shows : value.Shows heap enclosing.reverse node) :
    value.Shows heap enclosing node :=
  { shows with ellipsis := by simpa only [List.mem_reverse] using shows.ellipsis }

/-- The text is that of the layout. -/
theorem text_layoutWithin (heap : Heap) (opened : List ArrayId) (value : Value) :
    (value.layoutWithin heap opened).text = value.textWithin heap opened := by
  -- The induction is on the arrays that are not being written yet.
  induction count : unseen (List.range heap.size) opened using Nat.strongRecOn
    generalizing opened value with
  | ind count ih =>
    cases value with
    | array id =>
      rw [layoutWithin, textWithin]
      split
      · rfl
      · rename_i fresh
        split
        · rename_i made
          have fewer := unseen_cons_lt (List.mem_range.mpr made) fresh
          rw [Layout.text, Layout.texts_eq_map, List.map_map]
          congr 3
          exact List.map_congr_left fun item _ => ih _ (count ▸ fewer) (id :: opened) item rfl
        · rfl
    | _ =>
      simp only [layoutWithin, Layout.text, Value.text, textWithin]

/-- A value is written inside the arrays that enclose it as far as these are distinct. -/
theorem at?_layoutWithin (leads : heap.Leads value path enclosing found) (opened : List ArrayId) :
    (value.layoutWithin heap opened).at? path =
      if (∀ id ∈ enclosing, id ∉ opened) ∧ enclosing.Nodup then
        some (found.layoutWithin heap (enclosing.reverse ++ opened))
      else none := by
  induction leads generalizing opened with
  | here value => simp [Layout.at?]
  | @element id place item found path enclosing stored onward ih =>
    by_cases shown : id ∈ opened
    · rw [layoutWithin_closed shown, if_neg fun fresh => fresh.1 id List.mem_cons_self shown]
      rfl
    · have listed : (heap.elements id).toList[place]? = some item := by
        rw [Array.getElem?_toList]
        exact stored
      rw [layoutWithin_open shown, Layout.at?, List.getElem?_map, listed, Option.map_some,
        Option.bind_some, ih, List.reverse_cons, List.append_assoc, List.singleton_append]
      refine if_congr ?_ rfl rfl
      simp only [List.mem_cons, List.nodup_cons, not_or, forall_eq_or_imp]
      grind

/-- Whatever is written stands for a value that the path leads to. -/
theorem leads_of_at? {node : Layout}
    (written : (value.layoutWithin heap opened).at? path = some node) :
    ∃ enclosing found, heap.Leads value path enclosing found := by
  induction path generalizing value opened with
  | nil => exact ⟨[], value, .here value⟩
  | cons place path ih =>
    rcases value.layoutWithin_cases heap opened with
      ⟨id, _, rfl, same⟩ | ⟨id, _, rfl, same⟩ | ⟨_, same⟩
    · rw [same] at written
      cases written
    · rw [same, Layout.at?, List.getElem?_map, Array.getElem?_toList] at written
      obtain ⟨tree, mapped, onward⟩ := Option.bind_eq_some_iff.mp written
      obtain ⟨item, stored, rfl⟩ := Option.map_eq_some_iff.mp mapped
      obtain ⟨enclosing, found, leads⟩ := ih onward
      exact ⟨id :: enclosing, found, .element stored leads⟩
    · rw [same] at written
      cases written

theorem at?_layout (leads : heap.Leads value path enclosing found) :
    (value.layout heap).at? path =
      if enclosing.Nodup then some (found.layoutWithin heap enclosing.reverse) else none := by
  rw [layout, at?_layoutWithin leads, List.append_nil]
  exact if_congr (by simp) rfl rfl

theorem written_iff (leads : heap.Leads value path enclosing found) :
    (∃ node, (value.layout heap).at? path = some node) ↔ enclosing.Nodup := by
  rw [at?_layout leads]
  split
  · rename_i distinct
    exact iff_of_true ⟨_, rfl⟩ distinct
  · rename_i repeated
    refine iff_of_false ?_ repeated
    rintro ⟨node, written⟩
    cases written

theorem shows_of_written {node : Layout} (leads : heap.Leads value path enclosing found)
    (written : (value.layout heap).at? path = some node) : found.Shows heap enclosing node := by
  have distinct := (written_iff leads).mp ⟨node, written⟩
  rw [at?_layout leads, if_pos distinct] at written
  cases written
  exact (found.shows_layoutWithin heap enclosing.reverse).of_reverse

/-- Without an abbreviation, no path goes round. -/
theorem distinct_of_unabbreviated (full : ∀ path, (value.layout heap).at? path ≠ some .ellipsis)
    (leads : heap.Leads value path enclosing found) :
    enclosing.Nodup ∧ ∀ id, found = .array id → id ∉ enclosing := by
  -- The induction is on the path from its end: what encloses the last value is what encloses the
  -- array before it, and that array.
  induction path using List.reverseRecOn generalizing enclosing found with
  | nil =>
    cases leads
    exact ⟨List.nodup_nil, fun _ _ => List.not_mem_nil⟩
  | append_singleton path place ih =>
    obtain ⟨before, last, reached, rfl⟩ := leads.concat_inv
    obtain ⟨distinct, apart⟩ := ih reached
    have nodup : (before ++ [last]).Nodup :=
      List.nodup_append_comm.mp (List.nodup_cons.mpr ⟨apart last rfl, distinct⟩)
    refine ⟨nodup, fun id same member => full (path ++ [place]) ?_⟩
    obtain ⟨node, written⟩ := (written_iff leads).mpr nodup
    rw [written, (shows_of_written leads written).ellipsis.mpr ⟨id, member, same⟩]

theorem abbreviates_iff : (∃ path, (value.layout heap).at? path = some .ellipsis) ↔
    heap.MeetsCycle value := by
  constructor
  · rintro ⟨path, written⟩
    obtain ⟨enclosing, found, leads⟩ := leads_of_at? written
    obtain ⟨id, member, rfl⟩ := (shows_of_written leads written).ellipsis.mp rfl
    exact .of_enclosed leads member
  · rintro ⟨path, enclosing, id, reached, round, inner, further, returns⟩
    by_contra full
    have apart := (distinct_of_unabbreviated (not_exists.mp full) (reached.append returns)).2 id rfl
    cases returns with
    | here => exact further rfl
    | element => exact apart (List.mem_append_right _ List.mem_cons_self)

/-- What is written without an abbreviation is the tree that the value unfolds to. -/
theorem unfolds_of_unabbreviated
    (full : ∀ path, (value.layoutWithin heap opened).at? path ≠ some .ellipsis) :
    heap.Unfolds value (value.layoutWithin heap opened) := by
  induction count : unseen (List.range heap.size) opened using Nat.strongRecOn
    generalizing opened value with
  | ind count ih =>
    rcases value.layoutWithin_cases heap opened with
      ⟨id, _, rfl, same⟩ | ⟨id, fresh, rfl, same⟩ | ⟨atom, same⟩
    · exact absurd (congrArg some same) (full [])
    · rw [same] at full ⊢
      refine .list (by rw [List.length_map, Array.length_toList])
        fun place item tree stored shown => ?_
      have made := (Heap.Leads.element stored (.here item)).made List.mem_cons_self
      have fewer := unseen_cons_lt (List.mem_range.mpr made) fresh
      rw [List.getElem?_map, Array.getElem?_toList, stored] at shown
      cases shown
      refine ih _ (count ▸ fewer) (fun path => ?_) rfl
      have inner := full (place :: path)
      rw [Layout.at?, List.getElem?_map, Array.getElem?_toList, stored] at inner
      exact inner
    · rw [same]
      exact .leaf atom

theorem unfolds_layout (acyclic : ¬heap.MeetsCycle value) :
    heap.Unfolds value (value.layout heap) :=
  unfolds_of_unabbreviated fun path written => acyclic (abbreviates_iff.mp ⟨path, written⟩)

theorem exists_unfolds_iff : (∃ tree, heap.Unfolds value tree) ↔ ¬heap.MeetsCycle value := by
  constructor
  · rintro ⟨tree, unfolds⟩
    exact unfolds.acyclic
  · intro acyclic
    exact ⟨value.layout heap, unfolds_layout acyclic⟩

theorem text_of_unfolds {tree : Layout} (unfolds : heap.Unfolds value tree) :
    value.text heap = tree.text := by
  have same : value.layout heap = tree := (unfolds_layout unfolds.acyclic).unique unfolds
  rw [← same, text, layout, text_layoutWithin]

end Value

/-- The text of a value is that of a finite layout, nested no deeper than there are arrays. It shows
what each path leads to as long as the arrays on the path are distinct, with an ellipsis for what
is one of them; so there is an ellipsis exactly if a path leads to an array that contains itself.
Without such an array the value unfolds to a tree, whose text it has. -/
theorem text_abbreviates_cycles (heap : Heap) (value : Value) :
    value.text heap = (value.layout heap).text ∧
    (∀ path node, (value.layout heap).at? path = some node → path.length ≤ heap.size ∧
      ∃ enclosing found, heap.Leads value path enclosing found) ∧
    (∀ path enclosing found, heap.Leads value path enclosing found →
      ((∃ node, (value.layout heap).at? path = some node) ↔ enclosing.Nodup) ∧
      ∀ node, (value.layout heap).at? path = some node → found.Shows heap enclosing node) ∧
    ((∃ path, (value.layout heap).at? path = some .ellipsis) ↔ heap.MeetsCycle value) ∧
    ((∃ tree, heap.Unfolds value tree) ↔ ¬heap.MeetsCycle value) ∧
    (∀ tree, heap.Unfolds value tree → value.text heap = tree.text) ∧
    (∀ (other : Heap) (value' : Value) (tree : Layout), heap.Unfolds value tree →
      other.Unfolds value' tree → value.text heap = value'.text other) := by
  refine ⟨(value.text_layoutWithin heap []).symm, fun path node written => ?_,
    fun path enclosing found leads => ⟨Value.written_iff leads, fun node => ?_⟩,
    Value.abbreviates_iff, Value.exists_unfolds_iff, fun tree => Value.text_of_unfolds,
    fun other value' tree unfolds again => ?_⟩
  · obtain ⟨enclosing, found, leads⟩ := Value.leads_of_at? written
    have distinct := (Value.written_iff leads).mp ⟨node, written⟩
    exact ⟨leads.length_le distinct, enclosing, found, leads⟩
  · exact Value.shows_of_written leads
  · rw [Value.text_of_unfolds unfolds, Value.text_of_unfolds again]

/-- A shared array is written out twice, one that contains itself once. -/
example : (Value.array 0).text ⟨#[#[.array 1, .array 0, .array 1], #[.nil]]⟩ =
    "[[nil], [...], [nil]]" := by cbv

end Script
