import Script.Session
import Script.Proofs.Evaluation.Confinement

/-! Confinement of effects. What a computation can reach from the active scope, or a call from the
function and its arguments, is all that it reads and changes, if only the functions of the host
touch nothing but their arguments. -/

namespace Script

variable {origin : Store} {base : Set Cell} {stage : Extent} {right : Store}

/-- The cells that may be touched by a computation that begins on this store with these roots and
ends on another: those that the roots lead to, and those that were made since. -/
def Store.realm (store : Store) (roots : Set Cell) (after : Store) : Set Cell :=
  store.extent.known (store.Reach roots) after.extent

/-- Two machines that differ at most in the contents of cells that the roots do not lead to. -/
structure Machine.AgreeFrom (roots : Set Cell) (left right : Machine) : Prop where
  extent : left.store.extent = right.store.extent
  same : ∀ cell ∈ left.store.Reach roots, left.store.Same right.store cell
  active : left.active = right.active
  functions : left.functions = right.functions
  clock : left.clock = right.clock
  output : left.output = right.output

/-- The cells that the value of a computation refers to, if it has one. -/
def Result.cells {α : Type} (cells : α → List Cell) : Result α → List Cell
  | .done value _ => cells value
  | .failed _ _ | .exhausted => []

/-- The same end, on machines that agree in all that may have been touched. -/
inductive Result.AgreeFrom {α : Type} (realm : Store → Set Cell) : Result α → Result α → Prop where
  | done {value : α} {left right : Machine} (agree : left.AgreeFrom (realm left.store) right) :
      AgreeFrom realm (.done value left) (.done value right)
  | failed {failure : Failure} {left right : Machine}
      (agree : left.AgreeFrom (realm left.store) right) :
      AgreeFrom realm (.failed failure left) (.failed failure right)
  | exhausted : AgreeFrom realm .exhausted .exhausted

/-- A computation on a machine touches nothing but what the roots lead to and what it makes itself:
it has no effect on anything else, leads to nothing else, and goes the same way whatever is found
elsewhere. -/
structure Eval.Confined {α : Type} (run : Eval α) (cells : α → List Cell) (roots : Set Cell)
    (machine : Machine) : Prop where
  kept : ∀ after, (run machine).machine? = some after → ∀ cell, machine.store.Made cell →
    after.store.Made cell
  unchanged : ∀ after, (run machine).machine? = some after → ∀ cell, machine.store.Made cell →
    cell ∉ machine.store.Reach roots → machine.store.Same after.store cell
  reached : ∀ after, (run machine).machine? = some after →
    ∀ cell ∈ after.store.Reach (machine.store.realm roots after.store ∪
        {cell | cell ∈ (run machine).cells cells}),
      cell ∈ machine.store.Reach roots ∨ after.store.Made cell ∧ ¬machine.store.Made cell
  blind : ∀ other, machine.AgreeFrom roots other →
    Result.AgreeFrom (machine.store.realm roots) (run machine) (run other)

/-- The cells that a returned value refers to. -/
def Flow.cells : Flow → List Cell
  | .normal => []
  | .returned value => value.cells

/-- The cells that some of the values refer to. -/
def Value.roots (values : List Value) : Set Cell := {cell | ∃ value ∈ values, cell ∈ value.cells}

/-- The cells that a reply of the host refers to. -/
def Host.replyCells : Except String Value → List Cell
  | .ok value => value.cells
  | .error _ => []

/-- The functions of the host touch nothing but their arguments, what these lead to and what they
make themselves. They are not told which scope is active. -/
structure Host.Confined [Host] : Prop where
  touches : ∀ key arguments machine,
    (Host.call key arguments).Confined Host.replyCells (Value.roots arguments) machine
  placeless : ∀ key arguments machine active,
    Host.call key arguments { machine with active := active } =
      (Host.call key arguments machine).withActive active

section Confined

variable {α : Type} {run : Eval α} {cells : α → List Cell} {roots : Set Cell}
  {machine other after after' : Machine}

/-- Machines that agree in what the roots lead to are a start for two confined runs. -/
theorem Machine.AgreeFrom.machines (agree : machine.AgreeFrom roots other) :
    (confinement machine.store (machine.store.Reach roots)).Machines machine.store.extent
      machine.active machine.active machine other := by
  have known (cell : Cell) (inside : cell ∈
      machine.store.extent.known (machine.store.Reach roots) machine.store.extent) :
      cell ∈ machine.store.Reach roots := inside.elim id fun fresh => absurd fresh.1 fresh.2
  refine ⟨⟨rfl, agree.extent.symm, fun _ made => made, fun cell inside => ?_,
    fun cell target inside points => ?_, fun cell _ _ => .refl _ cell⟩, rfl, agree.active.symm,
    agree.functions, agree.clock, agree.output⟩
  · exact agree.same cell (known cell inside)
  · exact .inl (Store.reach_closed (known cell inside) points)

theorem Machine.agreeFrom_refl (roots : Set Cell) (machine : Machine) :
    machine.AgreeFrom roots machine :=
  ⟨rfl, fun cell _ => .refl _ cell, rfl, rfl, rfl, rfl⟩

/-- Only known cells are reached from known cells. -/
theorem Store.Agree.reach_subset (agree : Store.Agree origin base stage left right)
    (rooted : roots ⊆ origin.extent.known base stage) :
    left.Reach roots ⊆ origin.extent.known base stage :=
  Store.reach_subset rooted agree.closed

/-- Machines on which two confined runs have ended. -/
theorem agreeFrom_of_machines {active active' : ScopeId}
    (machines : (confinement origin base).Machines stage active active' machine other)
    (same : active = active') (rooted : roots ⊆ origin.extent.known base stage) :
    machine.AgreeFrom roots other := by
  obtain ⟨agree, first, second, functions, clock, output⟩ := machines
  exact ⟨agree.left_extent.trans agree.right_extent.symm,
    fun cell inside => agree.same cell (agree.reach_subset rooted inside),
    first.trans (same.trans second.symm), functions, clock, output⟩

/-- A computation that keeps to the cells it can reach, beside itself, is confined to them. -/
theorem Eval.confined_of_runs {related : (confinement machine.store
      (machine.store.Reach roots)).Stage → α → α → Prop}
    (runs : (confinement machine.store (machine.store.Reach roots)).Runs .together
      machine.store.extent machine.active machine.active related run run)
    (weaken : ∀ stage value value', related stage value value' → value = value' ∧
      ∀ cell ∈ cells value, cell ∈ machine.store.extent.known (machine.store.Reach roots) stage) :
    run.Confined cells roots machine := by
  have ends {other : Machine} (agree : machine.AgreeFrom roots other) :=
    runs _ machine other (fun _ made => made) agree.machines
  have single := ends (Machine.agreeFrom_refl roots machine)
  refine ⟨fun after ended => ?_, fun after ended cell made outside => ?_,
    fun after ended cell reached => ?_, fun other agree => ?_⟩
  · obtain ⟨stage, _, machines, _⟩ := single.alone ended
    obtain rfl := machines.stores.left_extent
    exact machines.stores.started
  · obtain ⟨stage, _, machines, _⟩ := single.alone ended
    exact machines.stores.frame cell made outside
  · obtain ⟨stage, _, machines, same⟩ := single.alone ended
    obtain rfl := machines.stores.left_extent
    refine machines.stores.reach_subset (Set.union_subset subset_rfl ?_) reached
    cases result : run machine with
    | done value after =>
      rw [result] at ended
      cases ended
      exact (weaken _ _ _ (same value result)).2
    | failed | exhausted => exact fun _ refers => nomatch refers
  · have both := ends agree
    generalize run machine = result, run other = result' at both
    cases both with
    | done _ machines same =>
      obtain ⟨rfl, refers⟩ := weaken _ _ _ same
      obtain rfl := machines.stores.left_extent
      exact .done (agreeFrom_of_machines machines rfl subset_rfl)
    | failed _ _ machines =>
      obtain rfl := machines.stores.left_extent
      exact .failed (agreeFrom_of_machines machines rfl subset_rfl)
    | exhausted => exact .exhausted
    | firstShort short | secondShort short => cases short

/-- From the same roots no more is reached on a machine that agrees in what they lead to. -/
theorem Machine.AgreeFrom.reach_subset (agree : machine.AgreeFrom roots other) :
    other.store.Reach roots ⊆ machine.store.Reach roots :=
  Store.reach_subset (fun _ member => Store.mem_reach_of_mem member) fun cell _ inside points =>
    Store.reach_closed inside (points.of_same (agree.same cell inside).symm)

/-- Cells that may not be touched are as before, made or not. -/
theorem Eval.Confined.same (confined : run.Confined cells roots machine)
    (ended : (run machine).machine? = some after) {cell : Cell}
    (outside : cell ∉ machine.store.realm roots after.store) :
    machine.store.Same after.store cell := by
  by_cases made : machine.store.Made cell
  · exact confined.unchanged after ended cell made fun reached => outside (.inl reached)
  · exact .of_absent made fun later => outside (.inr ⟨later, made⟩)

/-- What may be touched from known cells is known. -/
theorem Eval.Confined.realm_subset {first : Machine}
    (confined : run.Confined cells roots first)
    (agree : Store.Agree origin base stage first.store right)
    (rooted : roots ⊆ origin.extent.known base stage)
    (ended : (run first).machine? = some after) :
    first.store.realm roots after.store ⊆ origin.extent.known base after.store.extent := by
  obtain rfl := agree.left_extent
  rintro cell (reached | ⟨made, new⟩)
  · exact Extent.known_grow (confined.kept after ended) (agree.reach_subset rooted reached)
  · exact .inr ⟨made, fun old => new (agree.started cell old)⟩

/-- What a confined computation does to two stores keeps them in agreement. -/
theorem Eval.Confined.agree {first second : Machine}
    (confined : run.Confined cells roots first) (confined' : run.Confined cells roots second)
    (agree : Store.Agree origin base stage first.store second.store)
    (rooted : roots ⊆ origin.extent.known base stage) (start : first.AgreeFrom roots second)
    (ended : (run first).machine? = some after) (ended' : (run second).machine? = some after')
    (alike : after.AgreeFrom (first.store.realm roots after.store) after') :
    Store.Agree origin base after.store.extent after.store after'.store := by
  have known := confined.realm_subset agree rooted ended
  obtain rfl := agree.left_extent
  have smaller : second.store.realm roots after'.store ⊆ first.store.realm roots after.store := by
    rintro cell (reached | ⟨made, new⟩)
    · exact .inl (start.reach_subset reached)
    · refine .inr ⟨?_, fun old => new ?_⟩
      · exact alike.extent ▸ made
      · exact start.extent ▸ old
  refine agree.change (confined.kept after ended) (fun cell made => ?_) known rfl
    alike.extent.symm (fun cell outside => confined.same ended outside)
    (fun cell outside => confined'.same ended' fun inside => outside (smaller inside))
    (fun cell inside => alike.same cell (Store.mem_reach_of_mem inside))
    fun cell inside target points => ?_
  · by_cases old : first.store.Made cell
    · exact .inl old
    · exact .inr (.inr ⟨made, old⟩)
  · exact known (confined.reached after ended target ⟨cell, .inl inside, .single points⟩)

/-- A function of the host leaves the active scope active. -/
theorem Host.Confined.active_eq [Host] (host : Host.Confined) {key : Nat} {arguments : List Value}
    (ended : (Host.call key arguments machine).machine? = some after) :
    after.active = machine.active := by
  have placed : Host.call key arguments machine =
      (Host.call key arguments machine).withActive machine.active :=
    host.placeless key arguments machine machine.active
  rw [placed, Result.machine?_withActive] at ended
  obtain ⟨_, _, rfl⟩ := Option.map_eq_some_iff.mp ended
  rfl

/-- Functions of the host that touch their arguments only keep to the known cells. -/
theorem Host.Confined.serves [Host] (host : Host.Confined) (origin : Store) (base : Set Cell)
    (pace : Pace) : (confinement origin base).Serves pace := by
  intro stage first second arguments arguments' same key later left right grown machines
  obtain ⟨refers, rfl⟩ := Value.forall₂_corresponds_known_iff.mp same
  have rooted : Value.roots arguments ⊆ origin.extent.known base later := by
    rintro cell ⟨value, member, inside⟩
    exact Extent.known_grow grown (refers value member cell inside)
  -- Which scope is active in the second run is of no account to the host: let it be the first's.
  let other : Machine := { right with active := left.active }
  have agree : Store.Agree origin base later left.store other.store := machines.stores
  have start : left.AgreeFrom (Value.roots arguments) other :=
    ⟨agree.left_extent.trans agree.right_extent.symm,
      fun cell inside => agree.same cell (agree.reach_subset rooted inside), rfl,
      machines.functions, machines.clock, machines.output⟩
  have placed : Host.call key arguments right =
      (Host.call key arguments other).withActive right.active :=
    host.placeless key arguments other right.active
  have confined := host.touches key arguments left
  have ends := confined.blind other start
  have keeps {after after' : Machine}
      (ended : (Host.call key arguments left).machine? = some after)
      (ended' : (Host.call key arguments other).machine? = some after')
      (alike : after.AgreeFrom (left.store.realm (Value.roots arguments) after.store) after') :
      (∀ cell, later.Holds cell → after.store.extent.Holds cell) ∧
        (confinement origin base).Machines after.store.extent first second after
          { after' with active := right.active } := by
    have stores := confined.agree (host.touches key arguments other) agree rooted start ended
      ended' alike
    refine ⟨agree.left_extent ▸ confined.kept after ended, stores, ?_, machines.second,
      alike.functions, alike.clock, alike.output⟩
    exact (host.active_eq ended).trans machines.first
  rw [placed]
  generalize found : Host.call key arguments left = result,
    found' : Host.call key arguments other = result' at ends ⊢
  cases ends with
  | @done reply after after' alike =>
    have ended : (Host.call key arguments left).machine? = some after := by rw [found]; rfl
    have ended' : (Host.call key arguments other).machine? = some after' := by rw [found']; rfl
    obtain ⟨grown, machines⟩ := keeps ended ended' alike
    refine .done grown machines ?_
    cases reply with
    | error message => exact .error message
    | ok value =>
      refine .ok (Value.corresponds_known_iff.mpr ⟨fun cell refers => ?_, rfl⟩)
      refine confined.realm_subset agree rooted ended (confined.reached after ended cell ?_)
      exact ⟨cell, .inr (by rw [found]; exact refers), .refl⟩
  | @failed failure after after' alike =>
    have ended : (Host.call key arguments left).machine? = some after := by rw [found]; rfl
    have ended' : (Host.call key arguments other).machine? = some after' := by rw [found']; rfl
    obtain ⟨grown, machines⟩ := keeps ended ended' alike
    exact .failed failure grown machines
  | exhausted => exact .exhausted

end Confined

/-- The host at hand touches nothing but its arguments. -/
theorem Host.atHand_confined : Host.Confined where
  touches key arguments machine := by
    let between := confinement machine.store (machine.store.Reach (Value.roots arguments))
    have known : List.Forall₂ (between.values machine.store.extent) arguments arguments :=
      Value.forall₂_corresponds_known_iff.mpr ⟨fun value member cell refers =>
        .inl (Store.mem_reach_of_mem ⟨value, member, refers⟩), rfl⟩
    have run := between.serves .together machine.store.extent machine.active machine.active
      arguments arguments known key
    refine Eval.confined_of_runs run fun stage reply reply' same => ?_
    cases same with
    | error message => exact ⟨rfl, fun _ refers => nomatch refers⟩
    | ok same =>
      obtain ⟨refers, rfl⟩ := Value.corresponds_known_iff.mp same
      exact ⟨rfl, refers⟩
  placeless key arguments machine active := by
    simp only [Host.call]
    cases HostOperation.all[key]? with
    | none => rfl
    | some operation =>
      cases operation with
      | length | append =>
        simp only [HostOperation.run]
        generalize arguments.getD 0 .nil = first
        cases first <;> rfl
      | _ => rfl

/-- Expressions and statements are confined to what the active scope leads to. A call is confined to
what the function and its arguments lead to, so the scopes of its caller are out of its reach unless
these lead there. -/
theorem effects_are_confined [Host] (host : Host.Confined) :
    (∀ steps expr machine,
      (evaluate steps expr).Confined Value.cells {.scope machine.active} machine) ∧
    (∀ steps stmt machine,
      (execute steps stmt).Confined Flow.cells {.scope machine.active} machine) ∧
    ∀ steps callee paren arguments machine,
      (invoke (execute steps) callee paren arguments).Confined Value.cells
        (Value.roots (callee :: arguments)) machine := by
  have runs (machine : Machine) (roots : Set Cell) (steps : Nat) :=
    Simulation.runs_of_serves
      (host.serves machine.store (machine.store.Reach roots) .together) steps steps rfl
  refine ⟨fun steps expr machine => ?_, fun steps stmt machine => ?_,
    fun steps callee paren arguments machine => ?_⟩
  · have run := (runs machine {.scope machine.active} steps).1 machine.store.extent machine.active
      machine.active ⟨.inl (Store.mem_reach_of_mem rfl), rfl⟩ expr
    refine Eval.confined_of_runs run fun stage value value' same => ?_
    obtain ⟨refers, rfl⟩ := Value.corresponds_known_iff.mp same
    exact ⟨rfl, refers⟩
  · have run := (runs machine {.scope machine.active} steps).2 machine.store.extent machine.active
      machine.active ⟨.inl (Store.mem_reach_of_mem rfl), rfl⟩ stmt fun _ _ => trivial
    refine Eval.confined_of_runs run fun stage flow flow' same => ?_
    cases same with
    | normal => exact ⟨rfl, fun _ refers => nomatch refers⟩
    | returned same =>
      obtain ⟨refers, rfl⟩ := Value.corresponds_known_iff.mp same
      exact ⟨rfl, refers⟩
  · let between := confinement machine.store
      (machine.store.Reach (Value.roots (callee :: arguments)))
    have known (value : Value) (member : value ∈ callee :: arguments) :
        between.values machine.store.extent value value :=
      Value.corresponds_known_iff.mpr
        ⟨fun cell refers => .inl (Store.mem_reach_of_mem ⟨value, member, refers⟩), rfl⟩
    obtain ⟨called, given⟩ := List.forall_mem_cons.mp known
    have run : between.Runs .together machine.store.extent machine.active machine.active
        between.values (invoke (execute steps) callee paren arguments)
        (invoke (execute steps) callee paren arguments) :=
      .invoke (host.serves _ _ _) (runs machine _ steps).2 called paren
        (List.forall₂_same.mpr given)
    refine Eval.confined_of_runs run fun stage value value' same => ?_
    obtain ⟨refers, rfl⟩ := Value.corresponds_known_iff.mp same
    exact ⟨rfl, refers⟩

/-- A function that lengthens an array of its closure, called where another array is in scope: that
array and the scope of its caller stay as they are, and what the array holds makes no difference. -/
theorem effects_are_confined_of_append :
    let append : Value := .function 1 (.host "push" 2 HostOperation.append)
    let bare : Machine := .fresh (fun _ => 0) .unlimited
    let globals := (bare.scopes.define globalScope "push" append).define globalScope "a" (.array 0)
    let machine : Machine := { bare with
      scopes := (globals.add (some globalScope)).define 1 "b" (.array 1)
      heap := ⟨#[#[], #[]]⟩
      functions := 2
      active := 1 }
    let other : Machine := { machine with heap := ⟨#[#[], #[.nil]]⟩ }
    let name (lexeme : String) : Token := ⟨.plain .identifier, lexeme, 1⟩
    let call : Expr := .call (.reference (name "push")) (name ")")
      [.reference (name "a"), .literal .nil]
    let callee : Value := .function 2 (.declared ⟨name "f", [], [.expression call]⟩ globalScope)
    let run := invoke (execute 3) callee (name ")") []
    ∃ after after', run machine = .done .nil after ∧ run other = .done .nil after' ∧
      after.heap.elements 0 = #[.nil] ∧ machine.store.Same after.store (.array 1) ∧
      machine.store.Same after.store (.scope 1) := by
  intro append bare globals machine other name call callee run
  let inside := machine.enter (some globalScope)
  let lengthened := { inside with heap := inside.heap.append 0 .nil }
  let after := { lengthened with active := machine.active }
  have ended : run machine = .done .nil after := by
    have found (lexeme : String) (value : Value) (unbound : inside.scopes.own? 2 lexeme = none)
        (bound : inside.scopes.own? globalScope lexeme = some value) :
        evaluate 1 (.reference (name lexeme)) inside = .done value inside :=
      Eval.lookUp_of_found
        ((ScopeTree.get?_of_linked unbound rfl).trans (ScopeTree.get?_of_bound bound))
    have operation := found "push" append rfl rfl
    have operand := found "a" (.array 0) rfl rfl
    have given : evaluateAll (evaluate 1) [.reference (name "a"), .literal .nil] inside =
        .done [.array 0, .nil] inside := Eval.bind_of_done operand
    have called : evaluate 2 call inside = .done (.array 0) lengthened :=
      (Eval.bind_of_done operation).trans (Eval.bind_of_done given)
    have performed : execute 3 (.expression call) inside = .done .normal lengthened :=
      Eval.bind_of_done called
    have executed : executeAll (execute 3) [.expression call] inside = .done .normal lengthened :=
      Eval.bind_of_done performed
    have left : Eval.inScope (some globalScope) (do
        bindParameters [] []
        executeAll (execute 3) [.expression call]) machine = .done .normal after := by
      rw [Eval.inScope_eq]
      exact congrArg (Result.withActive machine.active) executed
    exact (congrFun (invoke_declared rfl) machine).trans (Eval.bind_of_done left)
  have reach : machine.store.Reach (Value.roots [callee]) ⊆ {.scope globalScope, .array 0} := by
    apply Store.reach_subset
    · rintro cell ⟨value, member, refers⟩
      obtain rfl := List.mem_singleton.mp member
      exact .inl (List.mem_singleton.mp refers)
    · rintro _ target (rfl | rfl) points
      · cases points with
        | enclosing linked => cases linked
        | @bound _ lexeme value _ bound refers =>
          have bindings : machine.scopes.own? globalScope lexeme =
              if "clock" = lexeme then some (.function 0 (.host "clock" 0 .clock))
              else if "push" = lexeme then some append
              else if "a" = lexeme then some (.array 0) else none := rfl
          rw [show Store.scopes _ = machine.scopes from rfl, bindings] at bound
          split_ifs at bound <;> cases bound <;> simp_all [Value.cells, append]
      · cases points with
        | element member refers => cases member
  have confined : run.Confined Value.cells (Value.roots [callee]) machine :=
    (effects_are_confined Host.atHand_confined).2.2 3 callee (name ")") [] machine
  have apart (cell : Cell) (made : machine.store.Made cell)
      (outside : cell ≠ .scope globalScope ∧ cell ≠ .array 0) :
      machine.store.Same after.store cell :=
    confined.unchanged after (congrArg Result.machine? ended) cell made fun reached =>
      (reach reached).elim outside.1 outside.2
  have agree : machine.AgreeFrom (Value.roots [callee]) other := by
    refine ⟨rfl, fun cell reached => ?_, rfl, rfl, rfl, rfl⟩
    obtain rfl | rfl := reach reached <;> rfl
  have alike := confined.blind other agree
  obtain ⟨after', ended'⟩ : ∃ after', run other = .done .nil after' := by
    rw [ended] at alike
    generalize run other = result at alike
    cases alike with
    | done agree => exact ⟨_, rfl⟩
  refine ⟨after, after', ended, ended', rfl, apart _ ?_ ?_, apart _ ?_ ?_⟩
  · exact Nat.lt_succ_self 1
  · simp
  · exact Nat.lt_succ_self 1
  · simp [globalScope]

end Script
