import Mathlib.Computability.Language
import Script.Proofs.Parsing.Outcome

/-! Rules that predict a language: they give up at the first token that no text of the language
goes on with. Up to there what they have taken can be completed, and whatever stood behind that
token, they would give up. -/

namespace Script

/-- Whether a complaint with this cause gives up the declaration that it is about. -/
def ParseCause.unwinds : ParseCause → Bool
  | .expected _ | .unsupportedClass => true
  | .tooManyParameters | .tooManyArguments | .invalidTarget => false

/-- None of the complaints gives anything up. -/
def Mild (complaints : List Complaint) : Prop :=
  ∀ complaint ∈ complaints, complaint.cause.unwinds = false

namespace Outcome

variable {α β : Type} {progress further asked : Bool} {input input' : List Token}

/-- All complaints of a rule; one that stops it comes last. -/
def complaints : Outcome α progress input → List Complaint
  | .accepted _ _ _ notes => notes
  | .stopped complaint _ notes => notes ++ [complaint]

/-- The first complaint that gives something up. -/
def fault? (outcome : Outcome α progress input) : Option Complaint :=
  outcome.complaints.find? (·.cause.unwinds)

theorem fault?_eq_none {outcome : Outcome α progress input} :
    outcome.fault? = none ↔ Mild outcome.complaints := by
  simp [fault?, Mild]

/-- The rule accepts with this result and leaves these tokens. -/
def Leaves (outcome : Outcome α progress input) (result : α) (rest : List Token) : Prop :=
  outcome.Ensures (fun found left _ => found = result ∧ left = rest) fun _ _ => False

theorem leaves_accepted {result : α} {rest : List Token} {moved : Moved progress rest input}
    {notes : List Complaint} : (accepted result rest moved notes).Leaves result rest := ⟨rfl, rfl⟩

theorem Leaves.eq {outcome : Outcome α progress input} {result : α} {rest : List Token}
    (leaves : outcome.Leaves result rest) :
    ∃ moved notes, outcome = .accepted result rest moved notes := by
  cases outcome with
  | stopped complaint within notes => exact leaves.elim
  | accepted found left moved notes =>
    obtain ⟨rfl, rfl⟩ := leaves
    exact ⟨moved, notes, rfl⟩

section Combinators

variable {outcome : Outcome α progress input} {result : α} {rest : List Token}

theorem Leaves.unique {found : α} {left : List Token} (leaves : outcome.Leaves result rest)
    (again : outcome.Leaves found left) : result = found ∧ rest = left := by
  obtain ⟨moved, notes, rfl⟩ := leaves.eq
  exact again

theorem Leaves.map {change : α → β} (leaves : outcome.Leaves result rest) :
    (outcome.map change).Leaves (change result) rest := by
  obtain ⟨moved, notes, rfl⟩ := leaves.eq
  exact leaves_accepted

theorem Leaves.relax (leaves : outcome.Leaves result rest) : outcome.relax.Leaves result rest :=
  ensures_relax.mpr leaves

theorem Leaves.settle {judge : α → β × List Complaint} (leaves : outcome.Leaves result rest) :
    (outcome.settle judge).Leaves (judge result).1 rest := by
  obtain ⟨moved, notes, rfl⟩ := leaves.eq
  exact leaves_accepted

theorem Leaves.noting {earlier : List Complaint} (leaves : outcome.Leaves result rest) :
    (outcome.noting earlier).Leaves result rest := ensures_noting.mpr leaves

theorem Leaves.recover {first : Token} {others : List Token}
    {outcome : Outcome α true (first :: others)} (leaves : outcome.Leaves result rest) :
    outcome.recover.Leaves (some result) rest := by
  obtain ⟨moved, notes, rfl⟩ := leaves.eq
  exact leaves_accepted

theorem fault?_andThen_of_some {fault : Complaint} (found : outcome.fault? = some fault)
    (next : α → (rest : List Token) → Moved progress rest input → Outcome β further rest) :
    (outcome.andThen next).fault? = some fault := by
  cases outcome with
  | stopped complaint within notes => exact found
  | accepted result rest moved notes =>
    have earlier : notes.find? (·.cause.unwinds) = some fault := found
    unfold Outcome.andThen
    dsimp only
    cases next result rest moved <;> simp [fault?, complaints, List.find?_append, earlier]

theorem fault?_andThen_of_mild {moved : Moved progress rest input} {notes : List Complaint}
    (mild : (accepted result rest moved notes).fault? = none)
    (next : α → (rest : List Token) → Moved progress rest input → Outcome β further rest) :
    ((accepted result rest moved notes).andThen next).fault? = (next result rest moved).fault? := by
  have none : notes.find? (·.cause.unwinds) = none := mild
  unfold Outcome.andThen
  dsimp only
  cases next result rest moved <;> simp [fault?, complaints, List.find?_append, none]

theorem fault?_andThen_ne_none {moved : Moved progress rest input} {notes : List Complaint}
    {next : α → (rest : List Token) → Moved progress rest input → Outcome β further rest}
    (faulty : (next result rest moved).fault? ≠ none) :
    ((accepted result rest moved notes).andThen next).fault? ≠ none := by
  cases found : (accepted result rest moved notes).fault? with
  | none => rwa [fault?_andThen_of_mild found]
  | some fault => simp [fault?_andThen_of_some found]

@[simp] theorem leaves_andThen {moved : Moved progress rest input} {notes : List Complaint}
    {next : α → (rest : List Token) → Moved progress rest input → Outcome β further rest}
    {found : β} {left : List Token} :
    ((accepted result rest moved notes).andThen next).Leaves found left ↔
      (next result rest moved).Leaves found left := by
  unfold Outcome.andThen
  dsimp only
  cases next result rest moved <;> rfl

@[simp] theorem fault?_map {change : α → β} : (outcome.map change).fault? = outcome.fault? := by
  cases outcome <;> rfl

@[simp] theorem fault?_relax : outcome.relax.fault? = outcome.fault? := by cases outcome <;> rfl

@[simp] theorem fault?_behind {token : Token} :
    (outcome.behind token : Outcome α asked (token :: input)).fault? = outcome.fault? := by
  cases outcome <;> rfl

@[simp] theorem fault?_recover {first : Token} {others : List Token}
    {outcome : Outcome α true (first :: others)} : outcome.recover.fault? = outcome.fault? := by
  cases outcome <;> rfl

theorem fault?_settle {judge : α → β × List Complaint} (mild : ∀ result, Mild (judge result).2) :
    (outcome.settle judge).fault? = outcome.fault? := by
  cases outcome with
  | stopped complaint within notes => rfl
  | accepted result rest moved notes =>
    have none : (judge result).2.find? (·.cause.unwinds) = none := by simpa [Mild] using mild result
    simp [settle, fault?, complaints, List.find?_append, none]

theorem fault?_noting {earlier : List Complaint} (mild : Mild earlier) :
    (outcome.noting earlier).fault? = outcome.fault? := by
  have none : earlier.find? (·.cause.unwinds) = none := by simpa [Mild] using mild
  cases outcome <;> simp [noting, fault?, complaints, List.find?_append, none]

end Combinators

/-- What the rule takes belongs to the language. If it gives something up, what stands before the
first fault can at least be completed. -/
structure Leads (language : Language Token) (outcome : Outcome α progress input) : Prop where
  whole : outcome.fault? = none →
    ∃ taken ∈ language, ∃ result rest, taken ++ rest = input ∧ outcome.Leaves result rest
  part : ∀ fault, outcome.fault? = some fault →
    ∃ taken more, taken ++ fault.remaining = input ∧ taken ++ more ∈ language

/-- What the rule makes of tokens before `tail` it also makes of them before `tail'`: it accepts the
same, and a fault in them gives something up there, too. -/
structure Foretells (tail tail' : List Token) (outcome : Outcome α progress input)
    (other : Outcome α progress input') : Prop where
  agrees : outcome.fault? = none → ∀ result shared, shared ≠ [] →
    outcome.Leaves result (shared ++ tail) → other.Leaves result (shared ++ tail')
  warns : ∀ fault shared, outcome.fault? = some fault → shared ≠ [] →
    fault.remaining = shared ++ tail → other.fault? ≠ none

theorem Leads.mono {language larger : Language Token} {outcome : Outcome α progress input}
    (leads : outcome.Leads language) (weaken : ∀ tokens ∈ language, tokens ∈ larger) :
    outcome.Leads larger where
  whole mild := by
    obtain ⟨taken, member, leaves⟩ := leads.whole mild
    exact ⟨taken, weaken taken member, leaves⟩
  part fault found := by
    obtain ⟨taken, more, split, member⟩ := leads.part fault found
    exact ⟨taken, more, split, weaken _ member⟩

/-- Two rules in a row. If the first gives something up, what it took can be completed by any text
for the second. -/
theorem Leads.andThen {language follow : Language Token} {tokens : List Token}
    {first : Outcome α progress input}
    {next : α → (rest : List Token) → Moved progress rest input → Outcome β further rest}
    (leads : first.Leads language) (member : tokens ∈ follow)
    (goOn : ∀ result rest moved, (next result rest moved).Leads follow) :
    (first.andThen next).Leads (language * follow) := by
  cases faults : first.fault? with
  | some earlier =>
    have same := fault?_andThen_of_some faults next
    refine ⟨fun mild => absurd (same.symm.trans mild) nofun, fun fault found => ?_⟩
    obtain rfl := Option.some.inj (same.symm.trans found)
    obtain ⟨taken, more, split, inside⟩ := leads.part earlier faults
    refine ⟨taken, more ++ tokens, split, ?_⟩
    rw [← List.append_assoc]
    exact Language.append_mem_mul inside member
  | none =>
    obtain ⟨taken, inside, result, rest, split, leaves⟩ := leads.whole faults
    obtain ⟨moved, notes, rfl⟩ := leaves.eq
    refine ⟨fun mild => ?_, fun fault found => ?_⟩
    · rw [fault?_andThen_of_mild faults] at mild
      obtain ⟨others, inside', found, left, split', leaves'⟩ :=
        (goOn result rest moved).whole mild
      exact ⟨taken ++ others, Language.append_mem_mul inside inside', found, left,
        by rw [List.append_assoc, split', split], leaves_andThen.mpr leaves'⟩
    · rw [fault?_andThen_of_mild faults] at found
      obtain ⟨others, more, split', inside'⟩ := (goOn result rest moved).part fault found
      refine ⟨taken ++ others, more, by rw [List.append_assoc, split', split], ?_⟩
      rw [List.append_assoc]
      exact Language.append_mem_mul inside inside'

end Outcome

variable {α β : Type} {progress further : Bool}

/-- On this input the rule leads into the language, and what it does up to any token it would do
whatever stood behind. -/
structure Predicts (language : Language Token)
    (rule : (input : List Token) → Outcome α progress input) (input : List Token) : Prop where
  leads : (rule input).Leads language
  foretells : ∀ shared tail tail', shared ≠ [] → input = shared ++ tail →
    (rule input).Foretells tail tail' (rule (shared ++ tail'))

namespace Predicts

variable {language larger follow : Language Token} {input after : List Token} {token : Token}
  {rule other : (input : List Token) → Outcome α progress input}

theorem mono (predicts : Predicts language rule input)
    (weaken : ∀ tokens ∈ language, tokens ∈ larger) : Predicts larger rule input :=
  ⟨predicts.leads.mono weaken, predicts.foretells⟩

/-- A rule that presents what another one does, with the same faults and with a change to its
result, on all inputs that begin alike. -/
theorem present {rule' : (input : List Token) → Outcome β further input}
    (predicts : Predicts language rule input) (change : α → β)
    (faults : ∀ more, more.head? = input.head? → (rule' more).fault? = (rule more).fault?)
    (leaves : ∀ more result rest, more.head? = input.head? → (rule more).Leaves result rest →
      (rule' more).Leaves (change result) rest) : Predicts language rule' input := by
  refine ⟨⟨fun mild => ?_, fun fault found => ?_⟩, ?_⟩
  · rw [faults input rfl] at mild
    obtain ⟨taken, member, result, rest, split, here⟩ := predicts.leads.whole mild
    exact ⟨taken, member, change result, rest, split, leaves input result rest rfl here⟩
  · exact predicts.leads.part fault (faults input rfl ▸ found)
  · rintro shared tail tail' some rfl
    have alike : (shared ++ tail').head? = (shared ++ tail).head? := by
      cases shared with
      | nil => exact absurd rfl some
      | cons first others => rfl
    have before := predicts.foretells shared tail tail' some rfl
    refine ⟨fun mild result others some left => ?_, fun fault others found some left => ?_⟩
    · rw [faults _ rfl] at mild
      obtain ⟨_, _, found, rest, _, here⟩ := predicts.leads.whole mild
      obtain ⟨rfl, rfl⟩ := (leaves _ found rest rfl here).unique left
      exact leaves _ found _ alike (before.agrees mild found others some here)
    · rw [faults _ rfl] at found
      rw [faults _ alike]
      exact before.warns fault others found some left

/-- Rules that agree on all inputs that begin alike predict alike. -/
theorem congr (predicts : Predicts language other input)
    (same : ∀ more, more.head? = input.head? → rule more = other more) :
    Predicts language rule input :=
  predicts.present id (fun more alike => by rw [same more alike])
    fun more result rest alike leaves => by rwa [same more alike]

theorem of_nil (predicts : Predicts language other []) (same : rule [] = other []) :
    Predicts language rule [] := by
  refine predicts.congr fun more alike => ?_
  obtain rfl := List.head?_eq_none_iff.mp alike
  exact same

theorem of_cons (predicts : Predicts language other (token :: after))
    (same : ∀ more, rule (token :: more) = other (token :: more)) :
    Predicts language rule (token :: after) := by
  refine predicts.congr fun more alike => ?_
  obtain ⟨others, rfl⟩ := List.head?_eq_some_iff.mp alike
  exact same others

theorem map {change : α → β} (predicts : Predicts language rule input) :
    Predicts language (fun input => (rule input).map change) input :=
  predicts.present change (fun _ _ => Outcome.fault?_map) fun _ _ _ _ => Outcome.Leaves.map

theorem relax (predicts : Predicts language rule input) :
    Predicts language (fun input => (rule input).relax) input :=
  predicts.present id (fun _ _ => Outcome.fault?_relax) fun _ _ _ _ => Outcome.Leaves.relax

/-- The result may be judged in any way that does not depend on what stands behind, and what is
noted about it may give nothing up. -/
theorem settle {judge : List Token → α → β × List Complaint} {change : α → β}
    (predicts : Predicts language rule input)
    (same : ∀ more result, (judge more result).1 = change result)
    (mild : ∀ more result, Mild (judge more result).2) :
    Predicts language (fun input => (rule input).settle (judge input)) input :=
  predicts.present change (fun more _ => Outcome.fault?_settle (mild more))
    fun more result _ _ leaves => same more result ▸ leaves.settle

theorem noting {earlier : List Token → List Complaint} (predicts : Predicts language rule input)
    (mild : ∀ more, Mild (earlier more)) :
    Predicts language (fun input => (rule input).noting (earlier input)) input :=
  predicts.present id (fun more _ => Outcome.fault?_noting (mild more))
    fun _ _ _ _ => Outcome.Leaves.noting

/-- In front of what the tails share there may be nothing: then there is nothing to foretell. -/
theorem foretells_any (predicts : Predicts language rule input) {shared tail : List Token}
    (tail' : List Token) (split : input = shared ++ tail) :
    (rule input).Foretells tail tail' (rule (shared ++ tail')) := by
  cases shared with
  | cons first others => exact predicts.foretells _ tail tail' (by simp) split
  | nil =>
    rw [List.nil_append] at split
    subst split
    constructor
    · intro mild result shared some leaves
      obtain ⟨moved, notes, _⟩ := leaves.eq
      have bound := moved.length_le
      have := List.length_pos_iff.mpr some
      simp only [List.length_append] at bound
      omega
    · intro fault shared found some left
      obtain ⟨taken, more, split, _⟩ := predicts.leads.part fault found
      have bound := congrArg List.length split
      have := List.length_pos_iff.mpr some
      simp only [left, List.length_append] at bound
      omega

theorem done (result : α) :
    Predicts 1 (fun input => (Outcome.done result : Outcome α false input)) input where
  leads := ⟨fun _ => ⟨[], Language.nil_mem_one, result, input, rfl, rfl, rfl⟩, nofun⟩
  foretells shared tail tail' some split := by
    refine ⟨?_, nofun⟩
    rintro mild found others _ ⟨rfl, left⟩
    rw [split, List.append_cancel_right_eq] at left
    exact ⟨rfl, by rw [left]⟩

theorem empty (result : α) (nothing : [] ∈ language) :
    Predicts language (fun input => (Outcome.done result : Outcome α false input)) input :=
  (done result).mono fun _ none => none ▸ nothing

/-- A rule that blames the first token, whatever stands behind it. -/
theorem blame {tokens : List Token} (member : tokens ∈ language)
    (here : ∃ cause, (rule input).fault? = some ⟨cause, input⟩)
    (there : ∀ more, more.head? = input.head? → (rule more).fault? ≠ none) :
    Predicts language rule input := by
  obtain ⟨cause, found⟩ := here
  refine ⟨⟨fun mild => ?_, fun fault again => ?_⟩, ?_⟩
  · rw [found] at mild
    cases mild
  · cases found.symm.trans again
    exact ⟨[], tokens, rfl, member⟩
  · rintro shared tail tail' some rfl
    refine ⟨fun mild => ?_, fun _ _ _ _ _ => there _ ?_⟩
    · rw [found] at mild
      cases mild
    · cases shared with
      | nil => exact absurd rfl some
      | cons first others => rfl

theorem stop (what : Expectation) {tokens : List Token} (member : tokens ∈ language) :
    Predicts language (fun input => (Outcome.stop what : Outcome α progress input)) input :=
  blame member ⟨_, rfl⟩ fun _ _ => nofun

/-- A rule behind a token that is taken. -/
theorem behind {inner : (input : List Token) → Outcome α further input}
    (predicts : Predicts language inner after)
    (same : ∀ more, rule (token :: more) = (inner more).behind token) :
    Predicts ({[token]} * language) rule (token :: after) := by
  have prepend {tokens : List Token} (member : tokens ∈ language) :
      token :: tokens ∈ ({[token]} * language : Language Token) :=
    Language.append_mem_mul (Set.mem_singleton [token]) member
  refine ⟨⟨fun mild => ?_, fun fault found => ?_⟩, ?_⟩
  · rw [same, Outcome.fault?_behind] at mild
    obtain ⟨taken, member, result, rest, split, leaves⟩ := predicts.leads.whole mild
    refine ⟨token :: taken, prepend member, result, rest, by rw [List.cons_append, split], ?_⟩
    rw [same]
    exact Outcome.ensures_behind.mpr leaves
  · rw [same, Outcome.fault?_behind] at found
    obtain ⟨taken, more, split, member⟩ := predicts.leads.part fault found
    exact ⟨token :: taken, more, by rw [List.cons_append, split], prepend member⟩
  · intro shared tail tail' some split
    cases shared with
    | nil => exact absurd rfl some
    | cons first others =>
      rw [List.cons_append, List.cons.injEq] at split
      obtain ⟨rfl, split⟩ := split
      have before := predicts.foretells_any tail' split
      rw [List.cons_append, same, same]
      refine ⟨fun mild result shared some leaves => Outcome.ensures_behind.mpr ?_,
        fun fault shared found some left => ?_⟩
      · exact before.agrees (by simpa using mild) result shared some
          (Outcome.ensures_behind.mp leaves)
      · simpa using before.warns fault shared (by simpa using found) some left

/-- A rule and another one from where the first leaves off. -/
theorem andThen {next : α → (input : List Token) → Outcome β further input}
    {tokens : List Token} (predicts : Predicts language rule input) (member : tokens ∈ follow)
    (goOn : ∀ result rest, Moved progress rest input → Predicts follow (next result) rest) :
    Predicts (language * follow)
      (fun input => (rule input).andThen fun result rest _ => next result rest) input := by
  refine ⟨predicts.leads.andThen member fun result rest moved => (goOn result rest moved).leads, ?_⟩
  intro shared tail tail' some split
  have before := predicts.foretells shared tail tail' some split
  cases first : (rule input).fault? with
  | some earlier =>
    have same := Outcome.fault?_andThen_of_some first fun result rest _ => next result rest
    refine ⟨fun mild => absurd (same.symm.trans mild) nofun, fun fault others found some left => ?_⟩
    obtain rfl := Option.some.inj (same.symm.trans found)
    obtain ⟨_, again⟩ := Option.ne_none_iff_exists'.mp (before.warns earlier others first some left)
    simp [Outcome.fault?_andThen_of_some again]
  | none =>
    obtain ⟨_, _, result, rest, _, leaves⟩ := predicts.leads.whole first
    obtain ⟨moved, notes, here⟩ := leaves.eq
    have second := goOn result rest moved
    rw [here] at first ⊢
    -- Whatever is shared behind the first rule, the second one starts before it.
    have reaches {others own : List Token} (some : others ≠ [])
        (split : rest = own ++ (others ++ tail)) :
        ∃ moved notes, rule (shared ++ tail') =
            .accepted result (own ++ others ++ tail') moved notes ∧
          (next result rest).Foretells tail tail' (next result (own ++ others ++ tail')) := by
      rw [← List.append_assoc] at split
      have more : own ++ others ≠ [] := by simp [some]
      obtain ⟨_, _, there⟩ :=
        (before.agrees (here ▸ first) result (own ++ others) more (split ▸ leaves)).eq
      exact ⟨_, _, there, second.foretells _ tail tail' more split⟩
    refine ⟨fun mild found others some leaves => ?_, fun fault others found some left => ?_⟩
    · rw [Outcome.fault?_andThen_of_mild first] at mild
      rw [Outcome.leaves_andThen] at leaves
      obtain ⟨moved', _, _⟩ := leaves.eq
      obtain ⟨own, ownSplit⟩ := moved'.1
      obtain ⟨_, _, there, after⟩ := reaches some ownSplit.symm
      rw [there, Outcome.leaves_andThen]
      exact after.agrees mild found others some leaves
    · rw [Outcome.fault?_andThen_of_mild first] at found
      obtain ⟨own, more, ownSplit, _⟩ := second.leads.part fault found
      rw [left] at ownSplit
      obtain ⟨_, _, there, after⟩ := reaches some ownSplit.symm
      rw [there]
      exact Outcome.fault?_andThen_ne_none (after.warns fault others found some left)

/-- Nothing if the closing token comes at once, and otherwise what the rule takes. -/
theorem orNothing {rule : (input : List Token) → Outcome α false input} {closer : Tag} {result : α}
    (nothing : [] ∈ language)
    (predicts : Rule.nextIs closer input = false → Predicts language rule input) :
    Predicts language
      (fun input => if Rule.nextIs closer input then .done result else rule input) input := by
  have alike {more : List Token} (same : more.head? = input.head?) :
      Rule.nextIs closer more = Rule.nextIs closer input := by
    cases more <;> cases input <;> simp_all [Rule.nextIs]
  cases closes : Rule.nextIs closer input with
  | true =>
    refine (empty result nothing).congr fun more same => ?_
    simp only [alike same, closes, ↓reduceIte]
  | false =>
    refine (predicts closes).congr fun more same => ?_
    simp only [alike same, closes, Bool.false_eq_true, ↓reduceIte]

/-- Nothing, unless a token comes that is taken, and then what goes on behind it. -/
theorem optional {rule : (input : List Token) → Outcome α false input}
    {inner : Token → (input : List Token) → Outcome α further input} {takes : Token → Bool}
    {result : α} (nothing : [] ∈ language) (none : rule [] = .done result)
    (other : ∀ token more, ¬takes token = true → rule (token :: more) = .done result)
    (some : ∀ token more, takes token = true →
      rule (token :: more) = (inner token more).behind token)
    (goOn : ∀ token after, input = token :: after → takes token = true →
      Predicts follow (inner token) after)
    (weaken : ∀ token, takes token = true → ∀ tokens ∈ follow, token :: tokens ∈ language) :
    Predicts language rule input := by
  cases input with
  | nil => exact (empty result nothing).of_nil none
  | cons token after =>
    by_cases taken : takes token = true
    · refine ((goOn token after rfl taken).behind fun more => some token more taken).mono ?_
      rintro _ ⟨_, rfl, tokens, member, rfl⟩
      exact weaken token taken tokens member
    · exact (empty result nothing).of_cons fun more => other token more taken

end Predicts

/-- A rule behind its first token, whatever that is. -/
def Rule.behindFirst (inner : (input : List Token) → Outcome α progress input) :
    (input : List Token) → Outcome α true input
  | [] => .stop .expression
  | token :: after => (inner after).behind token

theorem Predicts.behindFirst {language : Language Token} {token : Token} {after : List Token}
    {inner : (input : List Token) → Outcome α progress input}
    (predicts : Predicts language inner after) :
    Predicts ({[token]} * language) (Rule.behindFirst inner) (token :: after) :=
  predicts.behind fun _ => rfl

/-- What recovers from a rule gives up where the rule does. -/
theorem Predicts.recover {language : Language Token} {first : Token} {others : List Token}
    {rule : (input : List Token) → Outcome α true input}
    {rule' : (input : List Token) → Outcome (Option α) true input}
    (predicts : Predicts language rule (first :: others))
    (same : ∀ more, rule' (first :: more) = (rule (first :: more)).recover) :
    Predicts language rule' (first :: others) := by
  refine predicts.present some (fun more alike => ?_) fun more result rest alike leaves => ?_
  · obtain ⟨others, rfl⟩ := List.head?_eq_some_iff.mp alike
    rw [same, Outcome.fault?_recover]
  · obtain ⟨others, rfl⟩ := List.head?_eq_some_iff.mp alike
    rw [same]
    exact leaves.recover

/-- The texts of one token of the category. -/
def Tag.texts (tag : Tag) : Language Token := {tokens | ∃ token, tokens = [token] ∧ token.is tag}

theorem Tag.mem_texts {tag : Tag} {token : Token} (found : token.is tag = true) :
    [token] ∈ tag.texts := ⟨token, rfl, found⟩

theorem Tag.exists_mem_texts (tag : Tag) : ∃ tokens, tokens ∈ tag.texts :=
  ⟨_, ⟨.plain tag, "", 1⟩, rfl, Token.is_iff.mpr rfl⟩

theorem Predicts.expect {wanted : Tag} {what : Expectation} {input : List Token} :
    Predicts wanted.texts (Rule.expect wanted what) input := by
  obtain ⟨tokens, member⟩ := wanted.exists_mem_texts
  cases input with
  | nil => exact (stop what member).of_nil rfl
  | cons token after =>
    by_cases found : token.is wanted = true
    · refine ((done token).behind fun more => if_pos found).mono ?_
      rintro _ ⟨_, rfl, _, rfl, rfl⟩
      exact Tag.mem_texts found
    · exact (stop what member).of_cons fun more => if_neg found

end Script
