import Script.Proofs.Evaluation.Confinement
import Script.Session

/-! Machines in which nothing refers to what was never made, and whose scopes all lie within the
global one. Running keeps both. -/

namespace Script

/-- Nothing refers to a scope or an array that was never made. -/
structure Machine.Sound (machine : Machine) : Prop where
  closed : ∀ cell target, machine.store.Points cell target → machine.store.Made target
  active : machine.store.Made (.scope machine.active)

/-- Besides, every scope but the global one is enclosed by another. -/
structure Machine.Rooted (machine : Machine) : Prop extends machine.Sound where
  enclosed : ∀ id, machine.store.Made (.scope id) → id ≠ globalScope →
    (machine.scopes.parent? id).isSome = true

/-- Another machine in the same scope, with all that was made, and with all scopes enclosed as they
were. -/
structure Machine.Kept (before after : Machine) : Prop where
  active : after.active = before.active
  made : ∀ cell, before.store.Made cell → after.store.Made cell
  linked : ∀ id, before.store.Made (.scope id) →
    after.scopes.parent? id = before.scopes.parent? id

/-- The scopes that were there are enclosed as they were, and every new one is enclosed by
another. -/
structure ScopeTree.Linked (before after : ScopeTree Value) : Prop where
  size_le : before.size ≤ after.size
  linked : ∀ id < before.size, after.parent? id = before.parent? id
  enclosed : ∀ id < after.size, before.size ≤ id → (after.parent? id).isSome = true

namespace ScopeTree.Linked

variable {before after : ScopeTree Value}

theorem refl (tree : ScopeTree Value) : tree.Linked tree :=
  ⟨Nat.le_refl _, fun _ _ => rfl, fun _ made new => absurd made (Nat.not_lt.mpr new)⟩

theorem define (linked : before.Linked after) (id : ScopeId) (name : String) (value : Value) :
    before.Linked (after.define id name value) := by
  refine ⟨by simpa using linked.size_le, fun other old => ?_, fun other made new => ?_⟩
  · rw [parent?_define]
    exact linked.linked other old
  · rw [parent?_define]
    exact linked.enclosed other (by simpa using made) new

/-- A new scope behind one that was made. -/
theorem add {parent : ScopeId} (linked : before.Linked after) (made : parent < after.size) :
    before.Linked (after.add (some parent)) := by
  refine ⟨?_, fun other old => ?_, fun other inside new => ?_⟩
  · exact linked.size_le.trans (by simp)
  · rw [parent?_add, if_neg (old.trans_le linked.size_le).ne]
    exact linked.linked other old
  · rw [parent?_add]
    split
    · simp [made]
    · rename_i older
      rw [size_add] at inside
      exact linked.enclosed other (Nat.lt_of_le_of_ne (Nat.le_of_lt_succ inside) older) new

end ScopeTree.Linked

/-- A value refers to what was made only. -/
def Machine.Owns (machine : Machine) (value : Value) : Prop :=
  ∀ cell ∈ value.cells, machine.store.Made cell

namespace Machine

/-- At first only the clock is bound. -/
theorem own?_fresh (reading : Nat → Float) (output : Output) (id : ScopeId) (name : String) :
    (fresh reading output).scopes.own? id name =
      if globalScope = id ∧ "clock" = name then
        some (.function 0 (.host "clock" 0 .clock))
      else none := by
  have made : globalScope < (ScopeTree.empty.add none : ScopeTree Value).size := Nat.one_pos
  simp only [fresh, defineHost, bare]
  rw [ScopeTree.own?_define _ _ _ _ _ _ made, ScopeTree.own?_add,
    ScopeTree.own?_eq_none (Nat.zero_le _)]

variable {machine after : Machine} {id : ScopeId} {α : Type} {steps : Nat}

/-- The chain of every scope leads to the global one. -/
theorem Rooted.getLast?_chain (rooted : machine.Rooted) (made : machine.store.Made (.scope id)) :
    (machine.scopes.chain id).getLast? = some globalScope := by
  induction id using machine.scopes.enclosing_induction with
  | step id ih =>
    cases found : machine.scopes.parent? id with
    | none =>
      have root : id = globalScope := by
        by_contra other
        have linked := rooted.enclosed id made other
        rw [found] at linked
        cases linked
      rw [ScopeTree.chain_of_root found, root]
      rfl
    | some parent =>
      have older : parent < machine.scopes.size := (ScopeTree.parent?_lt found).trans made
      rw [ScopeTree.chain_of_parent found, List.getLast?_cons, ih parent found older]
      rfl

theorem mem_known_made {stage : Extent} (cell : Cell)
    (grown : ∀ cell, machine.store.Made cell → stage.Holds cell) :
    cell ∈ machine.store.extent.known {cell | machine.store.Made cell} stage ↔
      stage.Holds cell := by
  constructor
  · exact fun inside => inside.elim (grown cell) (·.1)
  · intro made
    by_cases old : machine.store.Made cell
    · exact .inl old
    · exact .inr ⟨made, old⟩

/-- A run beside itself that may touch all there is. -/
def everywhere (machine : Machine) : Simulation :=
  confinement machine.store {cell | machine.store.Made cell}

/-- Such a run, and what becomes of the links of its scopes. -/
def upkeep (machine : Machine) : Simulation where
  toCorrespondence := machine.everywhere.toCorrespondence
  stores stage left right :=
    machine.everywhere.stores stage left right ∧ machine.scopes.Linked left.scopes
  declares := machine.everywhere.declares
  declares_grow := machine.everywhere.declares_grow
  heaps stores := machine.everywhere.heaps stores.1
  get stores := machine.everywhere.get stores.1
  assign := by
    rintro stage left right first second value value' ⟨agree, linked⟩ here same name
    have assigned := machine.everywhere.assign agree here same name
    unfold ScopeTree.assign? at assigned ⊢
    generalize left.scopes.owner? first name = owner, right.scopes.owner? second name = owner'
      at assigned ⊢
    cases owner <;> cases owner' <;> cases assigned
    case none.none => exact .none
    case some.some owner owner' assigned =>
      obtain ⟨later, grown, agree⟩ := assigned
      exact .some ⟨later, grown, agree, linked.define owner name value⟩
  define := by
    rintro stage left right first second value value' ⟨agree, linked⟩ here same name declares
    obtain ⟨later, grown, agree⟩ := machine.everywhere.define agree here same name declares
    exact ⟨later, grown, agree, linked.define first name value⟩
  enter := by
    rintro stage left right first second ⟨agree, linked⟩ here
    obtain ⟨later, grown, after, fresh⟩ := machine.everywhere.enter agree here
    have made : left.extent.Holds (.scope first) :=
      agree.left_extent ▸ (mem_known_made _ agree.started).mp here.1
    exact ⟨later, grown, ⟨after, linked.add made⟩, fresh⟩
  makeArray := by
    rintro stage left right items items' ⟨agree, linked⟩ same
    obtain ⟨later, grown, after, fresh⟩ := machine.everywhere.makeArray agree same
    exact ⟨later, grown, ⟨after, linked⟩, fresh⟩
  write stores written same place :=
    ⟨machine.everywhere.write stores.1 written same place, stores.2⟩
  append stores written same := ⟨machine.everywhere.append stores.1 written same, stores.2⟩

theorem Sound.machines (sound : machine.Sound) :
    machine.upkeep.Machines machine.store.extent machine.active machine.active machine machine :=
  ⟨⟨⟨rfl, rfl, fun _ made => made, fun cell _ => .refl _ cell,
    fun cell target _ points => .inl (sound.closed cell target points),
    fun cell _ _ => .refl _ cell⟩, .refl machine.scopes⟩, rfl, rfl, rfl, rfl, rfl⟩

theorem Sound.here (sound : machine.Sound) :
    machine.upkeep.scopes machine.store.extent machine.active machine.active :=
  ⟨.inl sound.active, rfl⟩

theorem Rooted.of_stores (rooted : machine.Rooted) {stage : Extent}
    (stores : machine.upkeep.stores stage after.store after.store)
    (active : stage.Holds (.scope after.active)) : after.Rooted := by
  obtain ⟨agree, linked⟩ := stores
  obtain rfl := agree.left_extent
  have known (cell : Cell) := mem_known_made cell agree.started
  refine ⟨⟨fun cell target points => ?_, active⟩, fun id made outer => ?_⟩
  · exact (known target).mp (agree.closed cell target ((known cell).mpr points.made) points)
  · by_cases old : id < machine.scopes.size
    · exact linked.linked id old ▸ rooted.enclosed id old outer
    · exact linked.enclosed id made (Nat.le_of_not_lt old)

/-- Whatever keeps to what was made keeps a machine rooted. -/
theorem Rooted.kept (rooted : machine.Rooted) {run : Eval α}
    {related : machine.upkeep.Stage → α → α → Prop}
    (runs : machine.upkeep.Runs .together machine.store.extent machine.active machine.active related
      run run) (ended : (run machine).machine? = some after) :
    machine.Kept after ∧ after.Rooted ∧
      ∀ value, run machine = .done value after → related after.store.extent value value := by
  have ends := runs _ machine machine (fun _ made => made) rooted.machines
  obtain ⟨stage, _, machines, same⟩ := ends.alone ended
  obtain ⟨agree, linked⟩ := machines.stores
  obtain rfl := agree.left_extent
  exact ⟨⟨machines.first, agree.started, linked.linked⟩,
    rooted.of_stores ⟨agree, linked⟩ (machines.first ▸ agree.started _ rooted.active), same⟩

theorem Rooted.enter (rooted : machine.Rooted) (made : machine.store.Made (.scope id)) :
    (∀ cell, machine.store.Made cell → (machine.enter (some id)).store.Made cell) ∧
      (machine.enter (some id)).Rooted := by
  have here : machine.upkeep.scopes machine.store.extent id id := ⟨.inl made, rfl⟩
  obtain ⟨later, _, stores, fresh, _⟩ := machine.upkeep.enter rooted.machines.stores here
  have started := stores.1.started
  have entered : (machine.enter (some id)).Rooted :=
    rooted.of_stores stores ((mem_known_made _ started).mp fresh.1)
  obtain rfl := stores.1.left_extent
  exact ⟨started, entered⟩

/-- A value at a stage of an upkeep refers to what is made there. -/
theorem owns_of_upkeep {value value' : Value} (kept : machine.Kept after)
    (same : machine.upkeep.values after.store.extent value value') : after.Owns value :=
  fun cell refers => (mem_known_made cell kept.made).mp
    ((Value.corresponds_known_iff.mp same).1 cell refers)

theorem Owns.upkeep {value : Value} (owns : machine.Owns value) :
    machine.upkeep.values machine.store.extent value value :=
  Value.corresponds_known_iff.mpr ⟨fun cell refers => .inl (owns cell refers), rfl⟩

theorem Owns.kept {value : Value} (owns : machine.Owns value) (kept : machine.Kept after) :
    after.Owns value :=
  fun cell refers => kept.made cell (owns cell refers)

theorem evaluates_upkeep (machine : Machine) (steps : Nat) :
    machine.upkeep.Evaluates .together (Script.evaluate steps) (Script.evaluate steps) :=
  (machine.upkeep.runs .together steps steps rfl).1

theorem executes_upkeep (machine : Machine) (steps : Nat) :
    machine.upkeep.Executes .together (execute steps) (execute steps) :=
  (machine.upkeep.runs .together steps steps rfl).2

theorem Rooted.evaluate (rooted : machine.Rooted) {expr : Expr}
    (ended : (Script.evaluate steps expr machine).machine? = some after) :
    machine.Kept after ∧ after.Rooted ∧
      ∀ value, Script.evaluate steps expr machine = .done value after → after.Owns value := by
  obtain ⟨kept, after, same⟩ :=
    rooted.kept (machine.evaluates_upkeep steps _ _ _ rooted.here expr) ended
  exact ⟨kept, after, fun value done => owns_of_upkeep kept (same value done)⟩

theorem Rooted.evaluateAll (rooted : machine.Rooted) {exprs : List Expr}
    (ended : (Script.evaluateAll (Script.evaluate steps) exprs machine).machine? = some after) :
    machine.Kept after ∧ after.Rooted ∧
      ∀ values, Script.evaluateAll (Script.evaluate steps) exprs machine = .done values after →
        ∀ value ∈ values, after.Owns value := by
  obtain ⟨kept, after, same⟩ :=
    rooted.kept (.evaluateAll (machine.evaluates_upkeep steps) rooted.here exprs) ended
  refine ⟨kept, after, fun values done value member => ?_⟩
  exact owns_of_upkeep kept (List.forall₂_same.mp (same values done) value member)

theorem Rooted.subscriptTarget (rooted : machine.Rooted) {object index : Expr} {bracket : Token}
    (ended : (subscriptTarget (Script.evaluate steps) object bracket index machine).machine? =
      some after) : machine.Kept after ∧ after.Rooted := by
  obtain ⟨kept, after, _⟩ := rooted.kept
    (.subscriptTarget (machine.evaluates_upkeep steps) rooted.here object bracket index) ended
  exact ⟨kept, after⟩

theorem Rooted.execute (rooted : machine.Rooted) {stmt : Stmt}
    (ended : (execute steps stmt machine).machine? = some after) :
    machine.Kept after ∧ after.Rooted := by
  obtain ⟨kept, after, _⟩ := rooted.kept
    (machine.executes_upkeep steps _ _ _ rooted.here stmt fun _ _ => trivial) ended
  exact ⟨kept, after⟩

theorem Rooted.executeAll (rooted : machine.Rooted) {stmts : List Stmt}
    (ended : (Script.executeAll (Script.execute steps) stmts machine).machine? = some after) :
    machine.Kept after ∧ after.Rooted := by
  obtain ⟨kept, after, _⟩ := rooted.kept
    (.executeAll (machine.executes_upkeep steps) rooted.here stmts fun _ _ _ _ => trivial) ended
  exact ⟨kept, after⟩

theorem Rooted.interpret (rooted : machine.Rooted) {program : List Stmt}
    (ended : (Script.interpret steps program machine).machine? = some after) :
    machine.Kept after ∧ after.Rooted := by
  have runs := (Simulation.Runs.executeAll (machine.executes_upkeep steps) rooted.here program
    fun _ _ _ _ => trivial).bind fun _ _ _ _ _ => .flush
  obtain ⟨kept, after, _⟩ := rooted.kept runs ended
  exact ⟨kept, after⟩

theorem Rooted.bindParameters (rooted : machine.Rooted) {parameters : List Token}
    {arguments : List Value} (owned : ∀ value ∈ arguments, machine.Owns value)
    (ended : (bindParameters parameters arguments machine).machine? = some after) :
    machine.Kept after ∧ after.Rooted := by
  have same := List.forall₂_same.mpr fun value member => (owned value member).upkeep
  obtain ⟨kept, after, _⟩ :=
    rooted.kept (.bindParameters rooted.here parameters (fun _ => trivial) same) ended
  exact ⟨kept, after⟩

end Machine
end Script
