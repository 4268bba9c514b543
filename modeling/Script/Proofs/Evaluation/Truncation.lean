import Script.Session
import Script.Proofs.Evaluation.Congruence
import Script.Proofs.Evaluation.Simulation
import Script.Proofs.Scope.Growth

/-! Runs whose output is limited in size. A limited run does what the unlimited one does as long as
its output fits; from then on it has failed, with its output cut where the room ends. -/

namespace Script

variable {α β : Type}

namespace Output

/-- An output on which nothing is written yet, with room for some bytes in all. -/
def limited (capacity : Nat) : Output := ⟨#[], some capacity, true⟩

def limit (capacity : Nat) (output : Output) : Output := { output with capacity := some capacity }

variable (output : Output) (bytes first second : List UInt8)

@[simp] theorem capacity_write : (output.write bytes).capacity = output.capacity := rfl

theorem size_write :
    (output.write bytes).written.size = output.written.size + (output.fitting bytes).length := by
  rw [← Array.length_toList, toList_write, List.length_append, Array.length_toList]

private theorem eq_of_toList {output other : Output}
    (written : output.written.toList = other.written.toList)
    (capacity : output.capacity = other.capacity)
    (flushable : output.flushable = other.flushable) : output = other := by
  cases output
  cases other
  cases capacity
  cases flushable
  cases Array.toList_inj.mp written
  rfl

theorem write_nil : output.write [] = output := by
  refine eq_of_toList ?_ rfl rfl
  cases room : output.capacity <;> simp [toList_write, fitting, room]

/-- Nothing of a text fits behind one that did not fit. -/
theorem write_append : output.write (first ++ second) =
    if output.accepts first then (output.write first).write second else output.write first := by
  have size := output.size_write first
  cases room : output.capacity with
  | none =>
    simp only [accepts, room, if_true]
    refine eq_of_toList ?_ rfl rfl
    simp only [toList_write, fitting, capacity_write, room, List.append_assoc]
  | some capacity =>
    simp only [accepts, room, decide_eq_true_eq]
    rw [fitting, room, List.length_take] at size
    split
    · rename_i fits
      rw [Nat.min_eq_right fits] at size
      refine eq_of_toList ?_ rfl rfl
      simp only [toList_write, fitting, capacity_write, room, size, List.take_append,
        List.append_assoc, Nat.sub_sub]
    · rename_i full
      refine eq_of_toList ?_ rfl rfl
      simp only [toList_write, fitting, room, List.take_append,
        Nat.sub_eq_zero_of_le (Nat.le_of_not_le full), List.take_zero, List.append_nil]

/-- What is written stays written, and what else there is to the output stays as it is. -/
def Grows (before after : Output) : Prop :=
  after.capacity = before.capacity ∧ after.flushable = before.flushable ∧
    ∃ more, after.written = before.written ++ more

theorem Grows.refl : output.Grows output := ⟨rfl, rfl, #[], by simp⟩

theorem Grows.trans {first second third : Output} (before : first.Grows second)
    (after : second.Grows third) : first.Grows third := by
  obtain ⟨roomFirst, flushFirst, more, wroteFirst⟩ := before
  obtain ⟨roomSecond, flushSecond, further, wroteSecond⟩ := after
  refine ⟨roomSecond.trans roomFirst, flushSecond.trans flushFirst, more ++ further, ?_⟩
  rw [wroteSecond, wroteFirst, Array.append_assoc]

theorem grows_write : output.Grows (output.write bytes) := by
  refine ⟨rfl, rfl, (output.fitting bytes).toArray, ?_⟩
  apply Array.ext'
  simp [write]

/-- An output that is cut stays cut at the same place. -/
theorem Grows.take {before after : Output} {capacity : Nat} (grown : before.Grows after)
    (full : capacity < before.written.size) :
    capacity < after.written.size ∧
      after.written.take capacity = before.written.take capacity := by
  obtain ⟨_, _, more, wrote⟩ := grown
  rw [wrote]
  constructor
  · rw [Array.size_append]
    omega
  · simp [Nat.sub_eq_zero_of_le full.le]

/-- Where there was no limit, a limit cuts what is written to the room there is. -/
theorem take_write {capacity : Nat} (unlimited : output.capacity = none)
    (small : output.written.size ≤ capacity) :
    ((output.limit capacity).write bytes).written = (output.write bytes).written.take capacity := by
  apply Array.ext'
  have before : output.written.toList.take capacity = output.written.toList :=
    List.take_of_length_le (by simpa using small)
  simp only [toList_write, fitting, limit, unlimited, Array.take_eq_extract, Array.toList_extract,
    List.extract_eq_take_drop, List.drop_zero, Nat.sub_zero, List.take_append, before,
    Array.length_toList]

/-- The limit does not show as long as there is room. -/
theorem limit_write {capacity : Nat} (unlimited : output.capacity = none)
    (small : output.written.size ≤ capacity)
    (room : (output.write bytes).written.size ≤ capacity) :
    (output.limit capacity).write bytes = (output.write bytes).limit capacity := by
  refine eq_of_toList ?_ rfl rfl
  rw [take_write output bytes unlimited small]
  simp [limit, room]

theorem accepts_limit {capacity : Nat} (unlimited : output.capacity = none)
    (small : output.written.size ≤ capacity) :
    (output.limit capacity).accepts bytes =
      decide ((output.write bytes).written.size ≤ capacity) := by
  rw [size_write, fitting, unlimited]
  apply decide_eq_decide.mpr
  simp only [limit]
  omega

end Output

def Machine.limit (capacity : Nat) (machine : Machine) : Machine :=
  { machine with output := machine.output.limit capacity }

/-- How a run with limited room ends where the one without a limit ends in the first result. -/
inductive Result.Truncated (capacity : Nat) : Result α → Result α → Prop
  | done {value : α} {after : Machine} (small : after.output.written.size ≤ capacity) :
    Truncated capacity (.done value after) (.done value (after.limit capacity))
  | failed {failure : Failure} {after : Machine} (small : after.output.written.size ≤ capacity) :
    Truncated capacity (.failed failure after) (.failed failure (after.limit capacity))
  | full {result : Result α} {cut : Machine}
    (beyond : ∀ after, result.machine? = some after → capacity < after.output.written.size ∧
      cut.output.written = after.output.written.take capacity) :
    Truncated capacity result (.failed (.output .full) cut)
  | exhausted : Truncated capacity .exhausted .exhausted

/-- What is seen of a run with limited room, given what is seen of the one without a limit. -/
theorem Result.Truncated.report {capacity : Nat} {result limited : Result α}
    {ending : Except Failure α} {written : Array UInt8}
    (truncated : result.Truncated capacity limited)
    (ended : result.report = some (ending, written)) :
    limited.report = some (if written.size ≤ capacity then (ending, written)
      else (.error (.output .full), written.take capacity)) := by
  cases truncated with
  | done small =>
    cases ended
    rw [if_pos small]
    rfl
  | failed small =>
    cases ended
    rw [if_pos small]
    rfl
  | exhausted => cases ended
  | full beyond =>
    cases result with
    | done value after =>
      obtain ⟨past, wrote⟩ := beyond after rfl
      cases ended
      rw [if_neg (Nat.not_le.mpr past), ← wrote]
      rfl
    | failed failure after =>
      obtain ⟨past, wrote⟩ := beyond after rfl
      cases ended
      rw [if_neg (Nat.not_le.mpr past), ← wrote]
      rfl
    | exhausted => cases ended

theorem Result.Truncated.withActive {capacity : Nat} {result limited : Result α}
    (truncated : result.Truncated capacity limited) (active : ScopeId) :
    (result.withActive active).Truncated capacity (limited.withActive active) := by
  cases truncated with
  | done small => exact .done small
  | failed small => exact .failed small
  | exhausted => exact .exhausted
  | full beyond =>
    apply Result.Truncated.full
    intro after found
    rw [Result.machine?_withActive] at found
    obtain ⟨inner, ended, rfl⟩ := Option.map_eq_some_iff.mp found
    exact beyond inner ended

def Result.withOutput (output : Output) : Result α → Result α
  | .done value after => .done value { after with output := output }
  | .failed failure after => .failed failure { after with output := output }
  | .exhausted => .exhausted

theorem Result.machine?_withOutput (result : Result α) (output : Output) :
    (result.withOutput output).machine? =
      result.machine?.map fun after => { after with output := output } := by
  cases result <;> rfl

/-- The output is neither read nor changed. -/
def Eval.Oblivious (run : Eval α) : Prop :=
  ∀ machine output, run { machine with output := output } = (run machine).withOutput output

theorem Eval.Oblivious.output {run : Eval α} (oblivious : run.Oblivious) {machine after : Machine}
    (found : (run machine).machine? = some after) : after.output = machine.output := by
  have same : (run machine).machine? = ((run machine).withOutput machine.output).machine? :=
    congrArg Result.machine? (oblivious machine machine.output)
  rw [Result.machine?_withOutput, found, Option.map_some] at same
  have kept := congrArg Machine.output (Option.some.inj same)
  exact kept

theorem Eval.oblivious_lookUp (name : Token) : (Eval.lookUp name).Oblivious := by
  intro machine output
  unfold Eval.lookUp
  cases machine.scopes.get? machine.active name.lexeme <;> rfl

theorem Eval.oblivious_assign (name : Token) (value : Value) :
    (Eval.assign name value).Oblivious := by
  intro machine output
  unfold Eval.assign
  cases machine.scopes.owner? machine.active name.lexeme <;> rfl

/-- What a computation writes is cut to the room there is, and the first text that does not fit
ends it. -/
structure Eval.Truncates (run : Eval α) : Prop where
  grows : ∀ machine after, (run machine).machine? = some after →
    machine.output.Grows after.output
  cut : ∀ machine capacity, machine.output.capacity = none →
    machine.output.written.size ≤ capacity →
    (run machine).Truncated capacity (run (machine.limit capacity))

namespace Eval.Truncates

theorem of_oblivious {run : Eval α} (oblivious : run.Oblivious) : run.Truncates where
  grows machine after found := by
    rw [oblivious.output found]
    exact .refl machine.output
  cut machine capacity unlimited small := by
    have limited : run (machine.limit capacity) =
        (run machine).withOutput (machine.output.limit capacity) := oblivious machine _
    rw [limited]
    cases ended : run machine with
    | done value after =>
      have kept : after.output = machine.output := oblivious.output (congrArg _ ended)
      rw [← kept]
      exact .done (kept ▸ small)
    | failed failure after =>
      have kept : after.output = machine.output := oblivious.output (congrArg _ ended)
      rw [← kept]
      exact .failed (kept ▸ small)
    | exhausted => exact .exhausted

theorem bind {run : Eval α} {next : α → Eval β} (first : run.Truncates)
    (others : ∀ value, (next value).Truncates) : (run >>= next).Truncates where
  grows machine after found := by
    change (Eval.bind run next machine).machine? = some after at found
    unfold Eval.bind at found
    cases ended : run machine with
    | done value middle =>
      rw [ended] at found
      exact (first.grows machine middle (by rw [ended]; rfl)).trans
        ((others value).grows middle after found)
    | failed failure middle =>
      rw [ended] at found
      exact first.grows machine after (by rw [ended]; exact found)
    | exhausted =>
      rw [ended] at found
      cases found
  cut machine capacity unlimited small := by
    show (Eval.bind run next machine).Truncated capacity (Eval.bind run next _)
    unfold Eval.bind
    have grown := first.grows machine
    have truncated := first.cut machine capacity unlimited small
    revert truncated
    generalize run machine = result at *
    generalize run (machine.limit capacity) = limited at *
    intro truncated
    cases truncated with
    | done fits =>
      rename_i value middle
      apply (others value).cut middle capacity _ fits
      rw [(grown middle rfl).1, unlimited]
    | failed fits => exact .failed fits
    | exhausted => exact .exhausted
    | full beyond =>
      -- What goes on without a limit only adds behind the place where the output is cut.
      apply Result.Truncated.full
      intro after found
      cases result with
      | done value middle =>
        obtain ⟨past, wrote⟩ := beyond middle rfl
        obtain ⟨still, same⟩ := ((others value).grows middle after found).take past
        exact ⟨still, wrote.trans same.symm⟩
      | failed failure middle => exact beyond after found
      | exhausted => cases found

theorem inScope {run : Eval α} (parent : Option ScopeId) (body : run.Truncates) :
    (Eval.inScope parent run).Truncates where
  grows machine after found := by
    rw [Eval.inScope_eq, Result.machine?_withActive] at found
    obtain ⟨inner, ended, rfl⟩ := Option.map_eq_some_iff.mp found
    exact body.grows (machine.enter parent) inner ended
  cut machine capacity unlimited small := by
    rw [Eval.inScope_eq, Eval.inScope_eq]
    exact (body.cut (machine.enter parent) capacity unlimited small).withActive machine.active

theorem write (text : String) : (Eval.write text).Truncates where
  grows machine after found := by
    have wrote : after.output = machine.output.write (Utf8.encode text) := by
      unfold Eval.write at found
      dsimp only at found
      split at found <;> cases found <;> rfl
    rw [wrote]
    exact machine.output.grows_write _
  cut machine capacity unlimited small := by
    have accepted : machine.output.accepts (Utf8.encode text) = true := by
      simp only [Output.accepts, unlimited]
    have whole : Eval.write text machine =
        .done () { machine with output := machine.output.write (Utf8.encode text) } := by
      simp only [Eval.write, accepted, if_true]
    have fits := machine.output.accepts_limit (Utf8.encode text) unlimited small
    rw [whole]
    by_cases room : (machine.output.write (Utf8.encode text)).written.size ≤ capacity
    · have limited : Eval.write text (machine.limit capacity) =
          .done () (Machine.limit capacity
            { machine with output := machine.output.write (Utf8.encode text) }) := by
        simp [Eval.write, Machine.limit, fits, room, Output.limit_write _ _ unlimited small room]
      rw [limited]
      exact .done room
    · have limited : Eval.write text (machine.limit capacity) = .failed (.output .full)
          { machine.limit capacity with
            output := (machine.output.limit capacity).write (Utf8.encode text) } := by
        simp [Eval.write, Machine.limit, fits, room]
      rw [limited]
      apply Result.Truncated.full
      intro after found
      cases found
      exact ⟨Nat.lt_of_not_le room, machine.output.take_write _ unlimited small⟩

theorem flush : Eval.flush.Truncates where
  grows machine after found := by
    have kept : after = machine := by
      unfold Eval.flush at found
      split at found <;> cases found <;> rfl
    rw [kept]
    exact .refl machine.output
  cut machine capacity unlimited small := by
    have choice (flushes : Bool) : Result.Truncated capacity
        (if flushes then .done () machine else .failed (.output .flush) machine)
        (if flushes then .done () (machine.limit capacity)
          else .failed (.output .flush) (machine.limit capacity)) := by
      cases flushes with
      | true => exact .done small
      | false => exact .failed small
    exact choice machine.output.flushable

/-- Every elementary step truncates, so whole runs do. The recast has no part in it. -/
theorem congruence (change : Recast) : change.Congruence fun _ run _ => run.Truncates where
  pure _ _ := of_oblivious fun _ _ => rfl
  bind first others := first.bind others
  exhausted _ := of_oblivious fun _ _ => rfl
  raise _ _ _ := of_oblivious fun _ _ => rfl
  inspect _ _ _ _ := of_oblivious fun _ _ => rfl
  activeScope := of_oblivious fun _ _ => rfl
  inScope parent body := body.inScope parent
  lookUp name := of_oblivious (Eval.oblivious_lookUp name)
  define _ _ := of_oblivious fun _ _ => rfl
  assign name value := of_oblivious (Eval.oblivious_assign name value)
  newArray _ := of_oblivious fun _ _ => rfl
  newFunction _ := of_oblivious fun _ _ => rfl
  writeElement _ _ _ := of_oblivious fun _ _ => rfl
  appendElement _ _ := of_oblivious fun _ _ => rfl
  readClock := of_oblivious fun _ _ => rfl
  write := write
  flush := flush

end Eval.Truncates

/-- A limit on the output only cuts what is printed. If all of it fits, the limited run ends as the
unlimited one does; otherwise it ends with the fault of the output, and what it has printed is as
much of the whole as there is room for. -/
theorem interpret_limited (reading : Nat → Float) (program : List Stmt) (steps capacity : Nat)
    {ending : Except Failure Unit} {written : Array UInt8}
    (ended : (interpret steps program (.fresh reading .unlimited)).report =
      some (ending, written)) :
    (interpret steps program (.fresh reading (.limited capacity))).report =
      some (if written.size ≤ capacity then (ending, written)
        else (.error (.output .full), written.take capacity)) := by
  have truncates := (Eval.Truncates.congruence .trim).interpret steps program
  exact (truncates.cut (.fresh reading .unlimited) capacity rfl (Nat.zero_le _)).report ended

/-- With room for two bytes, the text `nil` is cut behind the second. -/
theorem interpret_limited_nil :
    (interpret 2 [.print (.literal .nil)] (.fresh (fun _ => 0) .unlimited)).report =
      some (.ok (), #[110, 105, 108, 10]) ∧
    (interpret 2 [.print (.literal .nil)] (.fresh (fun _ => 0) (.limited 2))).report =
      some (.error (.output .full), #[110, 105]) := by
  have shown : Value.nil.text .empty = "nil" := by
    rw [Value.text, Value.textWithin]
  have bytes : Utf8.encode ("nil" ++ "\n") = [110, 105, 108, 10] := by
    decide +kernel
  have ran : interpret 2 [.print (.literal .nil)] (.fresh (fun _ => 0) .unlimited) =
      (Eval.write (Value.nil.text .empty ++ "\n")).bind (fun _ => Eval.flush)
        (.fresh (fun _ => 0) .unlimited) := rfl
  have ended : (interpret 2 [.print (.literal .nil)] (.fresh (fun _ => 0) .unlimited)).report =
      some (.ok (), #[110, 105, 108, 10]) := by
    rw [ran, shown]
    simp only [Eval.bind, Eval.write, bytes]
    rfl
  exact ⟨ended, interpret_limited _ _ 2 2 ended⟩

end Script
