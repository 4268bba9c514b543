import Script.Proofs.Grammar.Extension
import Script.Proofs.Parsing.PhraseComplete

/-! Expressions that the rules give up. A rule that halts behind an operand halts behind every
expression that ends in one, and so it does between an expression and an array literal that cannot
be read as a subscript. -/

namespace Script

open Grammar

namespace Outcome

variable {α β : Type} {progress further asked : Bool} {input middle : List Token}
  {complaint : Complaint} {first : Outcome α progress input}
  {next : α → (rest : List Token) → Moved progress rest input → Outcome β further rest}

/-- The rule stops with this complaint and has noted nothing before. -/
def Halts (complaint : Complaint) : Outcome α progress input → Prop :=
  Ensures (fun _ _ _ => False) fun found notes => found = complaint ∧ notes = []

theorem Halts.andThen (halts : first.Halts complaint) : (first.andThen next).Halts complaint :=
  Ensures.andThen halts (fun _ _ _ _ impossible => impossible.elim) fun _ _ found => found

/-- Behind a rule that accepts without a fault, two rules in a row meet what the second meets. -/
theorem Accepts.andThen_ensures {last : Token} {result : α}
    {accept : β → List Token → List Complaint → Prop} {halt : Complaint → List Complaint → Prop}
    (accepts : first.Accepts last result middle [])
    (goOn : ∀ moved, (next result middle moved).Ensures accept halt) :
    (first.andThen next).Ensures accept halt := by
  refine Ensures.andThen accepts ?_ fun _ _ impossible => impossible.elim
  rintro _ _ moved notes ⟨rfl, rfl, clean⟩
  obtain rfl := List.map_eq_nil_iff.mp clean
  exact goOn moved

theorem Accepts.andThen_halts {last : Token} {result : α}
    (accepts : first.Accepts last result middle [])
    (goOn : ∀ moved, (next result middle moved).Halts complaint) :
    (first.andThen next).Halts complaint := accepts.andThen_ensures goOn

theorem Halts.map {change : α → β} (halts : first.Halts complaint) :
    (first.map change).Halts complaint := ensures_map.mpr halts

theorem Halts.settle {judge : α → β × List Complaint} (halts : first.Halts complaint) :
    (first.settle judge).Halts complaint := ensures_settle.mpr halts

theorem Halts.behind {token : Token} (halts : first.Halts complaint) :
    (first.behind token : Outcome α asked (token :: input)).Halts complaint :=
  ensures_behind.mpr halts

theorem Halts.relax (halts : first.Halts complaint) : first.relax.Halts complaint :=
  ensures_relax.mpr halts

theorem halts_stop {what : Expectation} :
    (stop what : Outcome α progress input).Halts ⟨.expected what, input⟩ := ⟨rfl, rfl⟩

theorem halts_expect {wanted : Tag} {what : Expectation}
    (missing : Rule.nextIs wanted input = false) :
    (Rule.expect wanted what input).Halts ⟨.expected what, input⟩ := by
  cases input with
  | nil => exact halts_stop
  | cons token after =>
    have other : ¬token.is wanted = true := by simpa [Rule.nextIs] using missing
    simp only [Rule.expect, if_neg other]
    exact halts_stop

end Outcome

theorem Layer.level_injective {layer other : Layer} (same : layer.level = other.level) :
    layer = other := by
  cases layer <;> cases other <;> first | rfl | cases same

namespace Rule

variable {layer : Layer} {level : Level} {tokens input rest : List Token} {tree : Expr}
  {faults : List ParseError} {complaint : Complaint}

theorem layered_halts (halts : (operand layer input).Halts complaint) :
    (layered layer input).Halts complaint := by
  rw [layered]
  exact halts.andThen

theorem expression_halts (halts : (layered .disjunction input).Halts complaint) :
    (expression input).Halts complaint := by
  rw [expression]
  exact halts.andThen

/-- The rule of the level halts. -/
def Halting (complaint : Complaint) (input : List Token) : Level → Prop
  | .assignment => (expression input).Halts complaint
  | .disjunction => (layered .disjunction input).Halts complaint
  | .conjunction => (layered .conjunction input).Halts complaint
  | .equality => (layered .equality input).Halts complaint
  | .comparison => (layered .comparison input).Halts complaint
  | .sum => (layered .sum input).Halts complaint
  | .product => (layered .product input).Halts complaint
  | .signed => (signed input).Halts complaint
  | .suffixed => (suffixed input).Halts complaint
  | .primary => (primary input).Halts complaint

theorem halting_level :
    Halting complaint input layer.level ↔ (layered layer input).Halts complaint := by
  cases layer <;> rfl

theorem operand_halts (halting : Halting complaint input layer.operandLevel) :
    (operand layer input).Halts complaint := by
  cases found : layer.tighter? with
  | some inner =>
    rw [Layer.operandLevel_of_some found] at halting
    rw [operand_of_some found]
    exact halting_level.mp halting
  | none =>
    rw [Layer.operandLevel_of_none found] at halting
    rw [operand_of_none found]
    exact halting

/-- A rule halts with the rule of the next level inward, where no sign stands before it. -/
theorem halting_inside {inner : Level} (next : level.inner? = some inner)
    (suffixed : level ≠ .suffixed)
    (unsigned : level = .signed → nextIs .bang input = false ∧ nextIs .minus input = false)
    (halting : Halting complaint input inner) : Halting complaint input level := by
  cases level with
  | assignment =>
    cases next
    exact expression_halts halting
  | disjunction | conjunction | equality | comparison | sum | product =>
    cases next
    exact layered_halts (operand_halts halting)
  | signed =>
    cases next
    cases input with
    | nil =>
      rw [Halting, signed_nil]
      exact halting
    | cons token after =>
      obtain ⟨noBang, noMinus⟩ := unsigned rfl
      have noBang : token.is .bang = false := noBang
      have noMinus : token.is .minus = false := noMinus
      rw [Halting, signed_other (by simp [noBang, noMinus])]
      exact halting
  | suffixed => exact absurd rfl suffixed
  | primary => cases next

/-- No expression begins at a token of a category that begins none, nor at the end. -/
theorem expression_halts_at (none : ∀ first ∈ input.head?, ∃ tag ∉ phraseStarts,
    first.is tag = true) : (expression input).Halts ⟨.expected .expression, input⟩ := by
  have unsigned : nextIs .bang input = false ∧ nextIs .minus input = false := by
    cases input with
    | nil => exact ⟨rfl, rfl⟩
    | cons token after =>
      obtain ⟨tag, absent, found⟩ := none token rfl
      constructor
      · exact Token.is_eq_false found .bang (by rintro rfl; exact absent (by decide))
      · exact Token.is_eq_false found .minus (by rintro rfl; exact absent (by decide))
  have atPrimary : (primary input).Halts ⟨.expected .expression, input⟩ := by
    cases input with
    | nil =>
      rw [primary_nil]
      exact Outcome.halts_stop
    | cons token after =>
      obtain ⟨tag, absent, found⟩ := none token rfl
      have kind := Token.is_iff.mp found
      rw [primary_other (by simp [kind]) (by simp [kind])]
      · exact Outcome.halts_stop
      all_goals
        intro same
        cases kind.symm.trans same
        exact absent (by decide)
  have atSigned : Halting ⟨.expected .expression, input⟩ input .signed := by
    refine halting_inside rfl (by decide) (fun _ => unsigned) ?_
    rw [Halting, suffixed]
    exact atPrimary.andThen
  have atProduct : (layered .product input).Halts _ := layered_halts (operand_halts atSigned)
  have atSum : (layered .sum input).Halts _ := layered_halts (operand_halts atProduct)
  have atComparison : (layered .comparison input).Halts _ := layered_halts (operand_halts atSum)
  have atEquality : (layered .equality input).Halts _ := layered_halts (operand_halts atComparison)
  have atConjunction : (layered .conjunction input).Halts _ :=
    layered_halts (operand_halts atEquality)
  exact expression_halts (layered_halts (operand_halts atConjunction))

/-- Behind a phrase of a layer the layer halts where joining more operands halts. -/
theorem layered_halts_behind (phrase : Phrase .strict layer.level tokens tree faults)
    (ends : layer.operandLevel.EndsAt rest) (stuck : (joined layer tree rest).Halts complaint) :
    (layered layer (tokens ++ rest)).Halts complaint := by
  generalize same : layer.level = level at phrase
  induction phrase generalizing rest with
  | @inside outer inner tokens tree faults next phrase =>
    subst same
    obtain rfl := Option.some.inj (layer.inner?_level.symm.trans next)
    have clean := phrase.faults_eq_nil
    subst clean
    rw [layered]
    exact (operand_accepts (phrase_completes (TokenStream.missingLast []) phrase)
      ends).andThen_halts fun _ => stuck
  | @join outer inner tag node operator leftTokens rightTokens left right leftFaults rightFaults
      joins before found after ih =>
    obtain ⟨joinedLayer, rfl, member, rfl, rfl⟩ := joins.layer
    obtain rfl : layer = joinedLayer := Layer.level_injective same
    have clean := after.faults_eq_nil
    subst clean
    rw [List.append_assoc, List.cons_append]
    refine ih (Layer.endsAt_of_mem member found) ?_ rfl
    rw [joined_more (Layer.joins_iff.mpr ⟨tag, member, found⟩)]
    exact ((operand_accepts (phrase_completes operator after) ends).andThen_halts
      fun _ => stuck).behind
  | _ => cases layer <;> cases same

/-- Behind a phrase that suffixes may follow the rule halts where the suffixes halt. -/
theorem suffixed_halts_behind (phrase : Phrase .strict .suffixed tokens tree faults)
    (stuck : (suffixes tree rest).Halts complaint) :
    (suffixed (tokens ++ rest)).Halts complaint := by
  generalize same : Level.suffixed = level at phrase
  induction phrase generalizing rest with
  | inside next phrase =>
    subst same
    cases next
    have clean := phrase.faults_eq_nil
    subst clean
    rw [suffixed]
    exact (phrase_completes (TokenStream.missingLast []) phrase rest).andThen_halts fun _ => stuck
  | @call opening closing calleeTokens listTokens callee arguments calleeFaults function opens each
      listed few closes ih =>
    rw [List.append_assoc, List.append_assoc, List.cons_append]
    refine ih ?_ rfl
    rw [suffixes_call opens]
    have clean : itemFaults true 0 arguments = [] :=
      itemFaults_eq_nil (by simpa using few rfl) fun item member => (each item member).faults_eq_nil
    have items : (Rule.listed .rightParen true (listTokens ++ closing :: rest)).Accepts opening
        (arguments.map Piece.tree) (closing :: rest) [] :=
      clean ▸ listed_accepts (by decide) each
        (fun item member => phrase_completes opening (each item member)) listed closes
    have closer : (expect .rightParen .argumentsEnd (closing :: rest)).Accepts opening closing rest
        [] := Outcome.accepts_expect closes
    exact (items.andThen_halts fun _ => closer.andThen_halts fun _ => stuck).behind
  | @subscript opening closing objectTokens indexTokens object index objectFaults indexFaults left
      opens place closes ih =>
    rw [List.append_assoc, List.append_assoc, List.cons_append]
    refine ih ?_ rfl
    rw [suffixes_subscript opens]
    have clean := place.faults_eq_nil
    subst clean
    have index := phrase_completes opening place (closing :: rest)
      (Level.endsAt_of_is closes (by decide))
    have closer : (expect .rightBracket .indexEnd (closing :: rest)).Accepts opening closing rest
        [] := Outcome.accepts_expect closes
    exact (index.andThen_halts fun _ => closer.andThen_halts fun _ => stuck).behind
  | join joins => cases joins <;> cases same
  | _ => cases same

/-- A value that halts behind an equals sign halts the assignment. -/
theorem expression_halts_assigned {sign : Token}
    (target : Phrase .strict .suffixed tokens tree faults) (equals : sign.is .equal = true)
    (stuck : (expression rest).Halts complaint) :
    (expression (tokens ++ sign :: rest)).Halts complaint := by
  have clean := target.faults_eq_nil
  subst clean
  have completes : LayerCompletes sign .disjunction tokens tree [] :=
    completes_disjunction target (phrase_completes sign target)
  have ends : Level.disjunction.EndsAt (sign :: rest) := Level.endsAt_of_is equals (by decide)
  rw [expression]
  refine (completes.layered ends).andThen_halts fun moved => ?_
  simp only [equals, ↓reduceIte]
  exact stuck.settle.behind

/-- Where no suffixes can be read, no phrase that ends there can. -/
theorem phrase_halts (phrase : Phrase .strict level tokens tree faults)
    (outside : level ≠ .primary) (stuck : ∀ object, (suffixes object rest).Halts complaint) :
    Halting complaint (tokens ++ rest) level := by
  induction phrase with
  | @inside level inner tokens tree faults next phrase ih =>
    by_cases suffixed : level = .suffixed
    · subst suffixed
      exact suffixed_halts_behind (.inside next phrase) (stuck tree)
    · refine halting_inside next suffixed ?_ (ih ?_)
      · rintro rfl
        cases next
        obtain ⟨first, others, rfl, starts⟩ := phrase.starts_suffixed
        exact ⟨starts.is_eq_false (by decide), starts.is_eq_false (by decide)⟩
      · rintro rfl
        cases level <;> cases next
        exact suffixed rfl
  | @assignName name sign tokens value faults named equals right ih =>
    have target : Phrase .strict .suffixed [name] (.reference name) [] :=
      .inside rfl (.name named)
    exact expression_halts_assigned target equals (ih (by decide))
  | @assignElement opening closing sign objectTokens indexTokens tokens object index value
      objectFaults indexFaults faults left opens place closes equals right ihLeft ihPlace ihRight =>
    have regroup : objectTokens ++ opening :: indexTokens ++ closing :: sign :: tokens ++ rest =
        objectTokens ++ opening :: indexTokens ++ [closing] ++ sign :: (tokens ++ rest) := by simp
    rw [regroup]
    exact expression_halts_assigned (.subscript left opens place closes) equals
      (ihRight (by decide))
  | assignOther lenient => cases lenient
  | @join outer inner tag node operator leftTokens rightTokens left right leftFaults rightFaults
      joins before found after ihBefore ihAfter =>
    obtain ⟨layer, rfl, member, rfl, rfl⟩ := joins.layer
    have operand : (operand layer (rightTokens ++ rest)).Halts complaint :=
      operand_halts (ihAfter (by cases layer <;> decide))
    rw [List.append_assoc, List.cons_append, halting_level]
    refine layered_halts_behind before (Layer.endsAt_of_mem member found) ?_
    rw [joined_more (Layer.joins_iff.mpr ⟨tag, member, found⟩)]
    exact operand.andThen.behind
  | sign found operand ih =>
    rw [List.cons_append, Halting, signed_more (by simpa using found)]
    exact (ih (by decide)).map.behind
  | call function opens each listed few closes =>
    exact suffixed_halts_behind (.call function opens each listed few closes) (stuck _)
  | subscript left opens place closes =>
    exact suffixed_halts_behind (.subscript left opens place closes) (stuck _)
  | _ => exact absurd rfl outside

/-- No suffix can be read from an array literal that is none; what is read up to there stands inside
the array. -/
theorem suffixes_halt_at_array (array : OpensArray tokens) :
    ∃ what remaining, remaining ≠ [] ∧ remaining <:+ tokens ∧ ∀ object rest,
      (suffixes object (tokens ++ rest)).Halts ⟨.expected what, remaining ++ rest⟩ := by
  obtain @⟨opening, closing, listTokens, behind, elements, opens, each, listed, closes, several⟩ :=
    array
  cases elements with
  | nil =>
    cases listed
    refine ⟨.expression, closing :: behind, by simp, List.suffix_cons _ _, fun object rest => ?_⟩
    have none : ∀ first ∈ (closing :: (behind ++ rest)).head?, ∃ tag ∉ phraseStarts,
        first.is tag = true := by
      rintro _ ⟨⟩
      exact ⟨.rightBracket, by decide, closes⟩
    rw [List.cons_append, suffixes_subscript opens]
    exact (expression_halts_at none).andThen.behind
  | cons element others =>
    cases others with
    | nil => exact absurd rfl several
    | cons next others =>
      cases listed with
      | @more _ _ _ comma items between listed =>
        refine ⟨.indexEnd, comma :: (items ++ closing :: behind), by simp, ?_,
          fun object rest => ?_⟩
        · rw [List.append_assoc, List.cons_append]
          exact (List.suffix_append element.tokens _).trans (List.suffix_cons opening _)
        · have item := each element (by simp)
          have clean := item.faults_eq_nil
          rw [clean] at item
          have regroup : element.tokens ++ comma :: items ++ closing :: behind ++ rest =
              element.tokens ++ (comma :: (items ++ closing :: behind) ++ rest) := by simp
          have missing : nextIs .rightBracket (comma :: (items ++ closing :: behind) ++ rest) =
              false := Token.is_eq_false between .rightBracket (by decide)
          have accepts := phrase_completes opening item
            (comma :: (items ++ closing :: behind) ++ rest)
            (Level.endsAt_of_is between (by decide))
          rw [List.cons_append, suffixes_subscript opens, regroup]
          exact (accepts.andThen_halts fun _ => (Outcome.halts_expect missing).andThen).behind

/-- An expression and an array literal that is no subscript of it are given up inside the array. -/
theorem expression_halts_at_array {behind : List Token}
    (phrase : Phrase .strict .assignment tokens tree faults) (array : OpensArray behind) :
    ∃ what remaining, remaining ≠ [] ∧ remaining <:+ behind ∧ ∀ rest,
      (expression (tokens ++ (behind ++ rest))).Halts ⟨.expected what, remaining ++ rest⟩ := by
  obtain ⟨what, remaining, some, within, halts⟩ := suffixes_halt_at_array array
  exact ⟨what, remaining, some, within,
    fun rest => phrase_halts phrase (by decide) fun object => halts object rest⟩

end Rule

end Script
