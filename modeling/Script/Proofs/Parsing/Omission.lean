import Script.Proofs.Grammar.Parentheses
import Script.Proofs.Parsing.Continuation
import Script.Proofs.Parsing.Halting
import Script.Proofs.Parsing.Recovery

/-! A semicolon that is left out. What stood before it runs into what stands behind it, and either
the two make up one statement or the first is given up in front of the second's semicolon. -/

namespace Script

open Grammar

namespace Grammar

variable {form : Form} {tokens : List Token} {tree : Stmt} {faults : List ParseError}

theorem Maybe.faults_eq_nil {value : Option Expr} (derived : Maybe .strict tokens value faults) :
    faults = [] := by
  cases derived with
  | none => rfl
  | some phrase => exact phrase.faults_eq_nil

theorem Variable.faults_eq_nil (declared : Variable .strict tokens tree faults) : faults = [] := by
  cases declared with
  | bare => rfl
  | initial declares named equals phrase => exact phrase.faults_eq_nil

theorem Initial.faults_eq_nil {initial : Option Stmt}
    (first : Initial .strict tokens initial faults) : faults = [] := by
  cases first with
  | none => rfl
  | declaration declared => exact declared.faults_eq_nil
  | expression phrase => exact phrase.faults_eq_nil

/-- The strict grammar of statements has no faults. -/
theorem Sentence.faults_eq_nil (sentence : Sentence .strict form tokens tree faults) :
    faults = [] := by
  induction sentence with
  | function declares named opens each listed few closes bodyOpens inner bodyCloses ih =>
    rw [List.append_eq_nil_iff, parameterFaults, List.drop_eq_nil_of_le (few rfl)]
    exact ⟨rfl, List.flatMap_eq_nil_iff.mpr ih⟩
  | declaration declared => exact declared.faults_eq_nil
  | statement sentence ih => exact ih
  | counting loops opens first tested separates steps closes inner ih =>
    rw [first.faults_eq_nil, tested.faults_eq_nil, steps.faults_eq_nil, ih]
    rfl
  | branch branches opens tested closes inner ih =>
    rw [tested.faults_eq_nil, ih, List.append_nil]
  | alternative branches opens tested closes inner otherwise outer ihInner ihOuter =>
    rw [tested.faults_eq_nil, ihInner, ihOuter]
    rfl
  | loop loops opens tested closes inner ih => rw [tested.faults_eq_nil, ih, List.append_nil]
  | returning returns result => exact result.faults_eq_nil
  | block opens inner closes ih => exact List.flatMap_eq_nil_iff.mpr ih
  | print prints phrase => exact phrase.faults_eq_nil
  | expression phrase => exact phrase.faults_eq_nil

end Grammar

namespace Outcome

variable {α β : Type} {progress further asked : Bool} {input middle rest : List Token}
  {slack : Prop}

/-- The rule accepts up to these tokens and notes at most one complaint. Where it may, it stops
instead before it notes any, and skipping leads to these tokens. -/
def Lands (slack : Prop) (rest : List Token) : Outcome α progress input → Prop :=
  Ensures (fun _ left notes => left = rest ∧ notes.length ≤ 1) fun complaint notes =>
    slack ∧ Rule.synchronize complaint.remaining = rest ∧ notes = []

theorem Halts.lands {outcome : Outcome α progress input} {complaint : Complaint}
    (halts : outcome.Halts complaint) (allowed : slack)
    (skips : Rule.synchronize complaint.remaining = rest) : outcome.Lands slack rest := by
  refine Ensures.mono halts (fun _ _ _ impossible => impossible.elim) ?_
  rintro _ _ ⟨rfl, rfl⟩
  exact ⟨allowed, skips, rfl⟩

variable {first : Outcome α progress input}
  {next : α → (rest : List Token) → Moved progress rest input → Outcome β further rest}

theorem Lands.mono {more : Prop} (lands : first.Lands slack rest) (weaken : slack → more) :
    first.Lands more rest :=
  Ensures.mono lands (fun _ _ _ here => here) fun _ _ ⟨allowed, skips⟩ => ⟨weaken allowed, skips⟩

theorem Lands.map {change : α → β} (lands : first.Lands slack rest) :
    (first.map change).Lands slack rest := ensures_map.mpr lands

theorem Lands.behind {token : Token} (lands : first.Lands slack rest) :
    (first.behind token : Outcome α asked (token :: input)).Lands slack rest :=
  ensures_behind.mpr lands

theorem Lands.relax (lands : first.Lands slack rest) : first.relax.Lands slack rest :=
  ensures_relax.mpr lands

/-- A rule that accepts without a fault leaves it to the next one where to land. -/
theorem Accepts.andThen_lands {last : Token} {result : α}
    (accepts : first.Accepts last result middle [])
    (goOn : ∀ moved, (next result middle moved).Lands slack rest) :
    (first.andThen next).Lands slack rest := accepts.andThen_ensures goOn

/-- What is accepted behind the place where a rule lands has no part in the complaints. -/
theorem Lands.andThen_accepts (last : Token) (lands : first.Lands slack middle)
    (same : slack → middle = rest)
    (goOn : ∀ result moved, ∃ found, (next result middle moved).Accepts last found rest []) :
    (first.andThen next).Lands slack rest := by
  refine Ensures.andThen lands ?_ ?_
  · rintro result _ moved notes ⟨rfl, few⟩
    obtain ⟨found, accepts⟩ := goOn result moved
    refine Ensures.mono accepts ?_ fun _ _ impossible => impossible.elim
    rintro _ _ more ⟨rfl, rfl, clean⟩
    obtain rfl := List.map_eq_nil_iff.mp clean
    exact ⟨rfl, by simpa using few⟩
  · rintro complaint notes ⟨allowed, skips, clean⟩
    exact ⟨allowed, skips.trans (same allowed), clean⟩

/-- A declaration that is given up lands where skipping leads. -/
theorem Lands.recover {token : Token} {others : List Token}
    {outcome : Outcome α true (token :: others)} (lands : outcome.Lands slack rest) :
    outcome.recover.Lands False rest := by
  refine ensures_recover.mpr (Ensures.mono lands (fun _ _ _ here => here) ?_)
  rintro complaint _ ⟨_, skips, rfl⟩
  exact ⟨skips, by simp⟩

/-- What is given up is blamed, and skipped. -/
theorem Halts.recover {last token : Token} {others : List Token}
    {outcome : Outcome α true (token :: others)} {complaint : Complaint}
    (halts : outcome.Halts complaint) :
    outcome.recover.Accepts last none (Rule.synchronize complaint.remaining)
      [complaint.fault last] := by
  refine ensures_recover.mpr (Ensures.mono halts (fun _ _ _ impossible => impossible.elim) ?_)
  rintro _ _ ⟨rfl, rfl⟩
  exact ⟨rfl, rfl, rfl⟩

/-- The rule leaves the tokens that are run into or, with at most one complaint noted, the semicolon
in front of the rest. Otherwise it stops before it notes any, and skipping leads to the rest. -/
def Nears (follow rest : List Token) : Outcome α progress input → Prop :=
  Ensures (fun _ left notes => left = follow ++ rest ∧ notes = [] ∨
      ∃ closing, closing.is .semicolon = true ∧ left = closing :: rest ∧ notes.length ≤ 1)
    fun complaint notes => Rule.synchronize complaint.remaining = rest ∧ notes = []

variable {follow : List Token}

theorem Accepts.nears_follow {last : Token} {result : α}
    (accepts : first.Accepts last result (follow ++ rest) []) : first.Nears follow rest := by
  refine Ensures.mono accepts ?_ fun _ _ impossible => impossible.elim
  rintro _ _ notes ⟨rfl, rfl, clean⟩
  exact .inl ⟨rfl, List.map_eq_nil_iff.mp clean⟩

theorem Accepts.nears_rest {last closing : Token} {result : α} {faults : List ParseError}
    (accepts : first.Accepts last result (closing :: rest) faults)
    (closes : closing.is .semicolon = true) (few : faults.length ≤ 1) :
    first.Nears follow rest := by
  refine Ensures.mono accepts ?_ fun _ _ impossible => impossible.elim
  rintro _ _ notes ⟨rfl, rfl, rfl⟩
  exact .inr ⟨closing, closes, rfl, by simpa using few⟩

theorem Halts.nears {complaint : Complaint} (halts : first.Halts complaint)
    (skips : Rule.synchronize complaint.remaining = rest) : first.Nears follow rest := by
  refine Ensures.mono halts (fun _ _ _ impossible => impossible.elim) ?_
  rintro _ _ ⟨rfl, rfl⟩
  exact ⟨skips, rfl⟩

theorem Nears.map {change : α → β} (nears : first.Nears follow rest) :
    (first.map change).Nears follow rest := ensures_map.mpr nears

theorem Nears.relax (nears : first.Nears follow rest) : first.relax.Nears follow rest :=
  ensures_relax.mpr nears

/-- Where a semicolon is expected next, a rule that nears it lands. -/
theorem Nears.expect {what : Expectation} {change : α → Token → β}
    (nears : first.Nears follow rest) (missing : Rule.nextIs .semicolon (follow ++ rest) = false)
    (skips : Rule.synchronize (follow ++ rest) = rest) :
    (first.andThen fun value rest _ =>
      (Rule.expect .semicolon what rest).map (change value)).Lands True rest := by
  refine Ensures.andThen nears ?_ fun complaint notes ⟨skips, clean⟩ => ⟨trivial, skips, clean⟩
  rintro result left moved notes (⟨rfl, rfl⟩ | ⟨closing, closes, rfl, few⟩)
  · exact ((halts_expect missing).map).lands trivial skips
  · refine ensures_map.mpr (Ensures.mono (accepts_expect closes : Accepts closing _ _ _ _) ?_
      fun _ _ impossible => impossible.elim)
    rintro _ _ more ⟨rfl, rfl, clean⟩
    obtain rfl := List.map_eq_nil_iff.mp clean
    exact ⟨rfl, by simpa using few⟩

end Outcome

/-- A suffix of tokens that end in their only semicolon ends in it, too. -/
theorem Closed.suffix {tokens remaining : List Token} (closed : Closed tokens)
    (within : remaining <:+ tokens) (some : remaining ≠ []) : Closed remaining := by
  obtain ⟨front, closing, rfl, closes, opens⟩ := closed
  obtain ⟨skipped, same⟩ := within
  obtain ⟨others, last, rfl⟩ := List.eq_nil_or_concat' remaining |>.resolve_left some
  rw [← List.append_assoc] at same
  obtain ⟨rfl, rfl⟩ := List.append_inj' same rfl |>.imp_right List.singleton_inj.mp
  exact ⟨others, last, rfl, closes,
    fun token member => opens token (List.mem_append_right _ member)⟩

namespace Grammar

/-- The categories that begin a declaration or a statement with no semicolon of its own at its end,
or end the block or the branch before them. -/
def compoundTags : List Tag :=
  [.leftBrace, .rightBrace, .elseKeyword, .funKeyword, .forKeyword, .ifKeyword, .whileKeyword]

/-- A declaration or a statement of one semicolon. -/
inductive Simple : List Token → Prop where
  | keyword {first : Token} {others : List Token}
      (opens : ∃ tag ∈ [Tag.varKeyword, .returnKeyword, .printKeyword], first.is tag = true)
      (closed : Closed others) (plain : ∀ token ∈ others, token.beginsStatement = false) :
      Simple (first :: others)
  | expression {tokens : List Token} {closing : Token} {tree : Expr} {faults : List ParseError}
      (phrase : Phrase .strict .assignment tokens tree faults) (closes : closing.is .semicolon) :
      Simple (tokens ++ [closing])

/-- The categories that skipping stops in front of. -/
def boundaryTags : List Tag :=
  [.classKeyword, .funKeyword, .varKeyword, .forKeyword, .ifKeyword, .whileKeyword, .printKeyword,
    .returnKeyword]

theorem Among.beginsStatement {tags : List Tag} {token : Token} (among : Among tags token)
    (plain : ∀ tag ∈ boundaryTags, tag ∉ tags) : token.beginsStatement = false := by
  have other : ∀ tag ∈ boundaryTags, token.is tag = false :=
    fun tag member => among.is_eq_false (plain tag member)
  simpa [boundaryTags, Token.beginsStatement] using other

theorem beginsStatement_of_is {token : Token} {tag : Tag} (found : token.is tag = true)
    (plain : tag ∉ boundaryTags) : token.beginsStatement = false := by
  have among : Among [tag] token := among_of_is found (List.mem_singleton.mpr rfl)
  refine among.beginsStatement fun other member same => plain ?_
  rwa [← List.mem_singleton.mp same]

theorem closed_of_unclosed {tokens : List Token} {closing : Token} (unclosed : Unclosed tokens)
    (closes : closing.is .semicolon = true) : Closed (tokens ++ [closing]) :=
  ⟨tokens, closing, rfl, closes, unclosed⟩

/-- An expression, or none, and a semicolon. -/
theorem Maybe.terminated {tokens : List Token} {value : Option Expr} {faults : List ParseError}
    {closing : Token} (derived : Maybe .strict tokens value faults)
    (closes : closing.is .semicolon = true) :
    Closed (tokens ++ [closing]) ∧
      ∀ token ∈ tokens ++ [closing], token.beginsStatement = false := by
  refine ⟨closed_of_unclosed derived.unclosed closes, List.forall_mem_append.mpr ⟨?_, ?_⟩⟩
  · cases derived with
    | none => simp
    | some phrase =>
      exact fun token member => (phrase.among token member).beginsStatement (by decide)
  · simpa using beginsStatement_of_is closes (by decide)

/-- What begins with no token of a compound category has one semicolon. -/
theorem Sentence.simple {form : Form} {tokens : List Token} {tree : Stmt}
    {faults : List ParseError} (sentence : Sentence .strict form tokens tree faults)
    (clear : ∀ first ∈ tokens.head?, ∀ tag ∈ compoundTags, first.is tag = false) :
    Simple tokens := by
  have impossible {first : Token} {tag : Tag} {Goal : Prop} (found : first.is tag = true)
      (other : first.is tag = false) : Goal := by
    rw [found] at other
    cases other
  induction sentence with
  | function declares => exact impossible declares (clear _ rfl _ (by decide))
  | counting loops => exact impossible loops (clear _ rfl _ (by decide))
  | branch branches => exact impossible branches (clear _ rfl _ (by decide))
  | alternative branches => exact impossible branches (clear _ rfl _ (by decide))
  | loop loops => exact impossible loops (clear _ rfl _ (by decide))
  | block opens => exact impossible opens (clear _ rfl _ (by decide))
  | statement sentence ih => exact ih clear
  | declaration declared =>
    cases declared with
    | @bare keyword name closing declares named closes =>
      refine .keyword ⟨_, by decide, declares⟩ ?_ ?_
      · exact closed_of_unclosed (unclosed_cons named (by decide) unclosed_nil) closes
      · simpa using
          ⟨beginsStatement_of_is named (by decide), beginsStatement_of_is closes (by decide)⟩
    | initial declares named equals phrase closes =>
      obtain ⟨closed, plain⟩ := (Maybe.some phrase).terminated closes
      refine .keyword ⟨_, by decide, declares⟩ ?_ ?_
      · exact closed_of_unclosed (unclosed_cons named (by decide)
          (unclosed_cons equals (by decide) phrase.unclosed)) closes
      · refine List.forall_mem_cons.mpr ⟨beginsStatement_of_is named (by decide), ?_⟩
        exact List.forall_mem_cons.mpr ⟨beginsStatement_of_is equals (by decide), plain⟩
  | returning returns result closes =>
    obtain ⟨closed, plain⟩ := result.terminated closes
    exact .keyword ⟨_, by decide, returns⟩ closed plain
  | print prints phrase closes =>
    obtain ⟨closed, plain⟩ := (Maybe.some phrase).terminated closes
    exact .keyword ⟨_, by decide, prints⟩ closed plain
  | expression phrase closes => exact .expression phrase closes

namespace Simple

variable {tokens remaining : List Token}

theorem closed (simple : Simple tokens) : Closed tokens := by
  cases simple with
  | keyword opens closed plain =>
    obtain ⟨tag, member, found⟩ := opens
    obtain ⟨front, closing, rfl, closes, unclosed⟩ := closed
    have other : tag ≠ .semicolon := by
      rintro rfl
      exact absurd member (by decide)
    exact ⟨_ :: front, closing, rfl, closes, unclosed_cons found other unclosed⟩
  | expression phrase closes => exact closed_of_unclosed phrase.unclosed closes

theorem plain (simple : Simple tokens) :
    ∀ token ∈ tokens.tail, token.beginsStatement = false := by
  cases simple with
  | keyword opens closed plain => exact plain
  | expression phrase closes =>
    exact fun token member => ((Maybe.some phrase).terminated closes).2 token
      (List.mem_of_mem_tail member)

/-- From anywhere in a simple statement skipping leads behind it. -/
theorem skipped (simple : Simple tokens) (within : remaining <:+ tokens)
    (some : remaining ≠ []) (rest : List Token) :
    Rule.synchronize (remaining ++ rest) = rest := by
  refine Rule.synchronize_closed (simple.closed.suffix within some) ?_ rest
  intro token member
  have plain := simple.plain
  cases tokens with
  | nil => exact absurd (List.suffix_nil.mp within) some
  | cons first others =>
    rcases List.suffix_cons_iff.mp within with rfl | inner
    · exact plain token member
    · exact plain token (inner.subset (List.mem_of_mem_tail member))

end Simple

/-- What the tokens before an omitted semicolon run into: a simple statement with any tokens behind
it, or the end of all tokens. -/
inductive RunsInto : List Token → List Token → Prop where
  | ending : RunsInto [] []
  | simple {tokens rest : List Token} (simple : Simple tokens) : RunsInto tokens rest

namespace RunsInto

variable {follow rest : List Token}

theorem skipped (runs : RunsInto follow rest) : Rule.synchronize (follow ++ rest) = rest := by
  cases runs with
  | ending => rfl
  | simple simple => exact simple.skipped List.suffix_rfl simple.closed.ne_nil rest

/-- The first token is a keyword or begins an expression. -/
theorem among (runs : RunsInto follow rest) :
    ∀ first ∈ (follow ++ rest).head?,
      Among ([.varKeyword, .returnKeyword, .printKeyword] ++ phraseStarts) first := by
  cases runs with
  | ending => simp
  | simple simple =>
    cases simple with
    | keyword opens closed plain =>
      obtain ⟨tag, member, found⟩ := opens
      rintro _ ⟨⟩
      exact among_of_is found (List.mem_append_left _ member)
    | expression phrase closes =>
      obtain ⟨first, others, rfl, among⟩ := phrase.starts
      rintro _ ⟨⟩
      exact among.mono (List.subset_append_right _ _)

theorem nextIs (runs : RunsInto follow rest) {tag : Tag}
    (absent : tag ∉ [Tag.varKeyword, .returnKeyword, .printKeyword] ++ phraseStarts) :
    Rule.nextIs tag (follow ++ rest) = false := by
  have among := runs.among
  cases shape : follow ++ rest with
  | nil => rfl
  | cons first others =>
    rw [shape] at among
    exact (among first rfl).is_eq_false absent

end RunsInto

end Grammar

namespace Rule

variable {tokens follow rest : List Token} {tree : Expr} {faults : List ParseError}

/-- Behind an expression stands what goes on with it only if that begins with an expression. -/
theorem adjoins_of_not_endsAt {behind : List Token} {next : Expr} {others : List ParseError}
    (phrase : Phrase .strict .assignment tokens next others)
    (goesOn : ¬Level.assignment.EndsAt (tokens ++ behind)) : Adjoins tokens := by
  obtain ⟨first, more, rfl, among⟩ := phrase.starts
  rintro _ ⟨⟩
  by_contra none
  refine goesOn ?_
  rintro _ ⟨⟩ tag follower
  refine Bool.eq_false_iff.mpr fun found => none ⟨tag, ?_, found⟩
  have joint : ∀ tag ∈ phraseFollowers, tag ∈ phraseStarts → tag ∈ jointTags := by decide
  exact joint tag follower (among tag found)

/-- An expression in front of its semicolon. -/
theorem expression_nears_semicolon {mode : Mode} {closing : Token}
    (phrase : Phrase mode .assignment tokens tree faults) (closes : closing.is .semicolon = true)
    (few : faults.length ≤ 1) : (expression (tokens ++ closing :: rest)).Nears follow rest := by
  have accepts : (expression (tokens ++ closing :: rest)).Accepts closing tree (closing :: rest)
      faults := expression_accepts_before phrase closes (by decide)
  exact accepts.nears_rest closes few

/-- An expression without its semicolon. -/
theorem expression_nears (phrase : Phrase .strict .assignment tokens tree faults)
    (runs : RunsInto follow rest) :
    (expression (tokens ++ (follow ++ rest))).Nears follow rest := by
  have clean := phrase.faults_eq_nil
  subst clean
  by_cases ends : Level.assignment.EndsAt (follow ++ rest)
  · exact (phrase_completes (TokenStream.missingLast []) phrase _ ends).nears_follow
  · cases runs with
    | ending => exact absurd Level.endsAt_nil ends
    | simple simple =>
      have skips : ∀ remaining, remaining <:+ follow → remaining ≠ [] →
          synchronize (remaining ++ rest) = rest :=
        fun _ within some => simple.skipped within some rest
      cases simple with
      | keyword opens closed plain =>
        obtain ⟨tag, member, found⟩ := opens
        have other : ∀ tag ∈ [Tag.varKeyword, .returnKeyword, .printKeyword],
            tag ∉ phraseFollowers := by decide
        refine absurd ?_ ends
        exact Level.endsAt_of_is found (other tag member)
      | @expression second closing next others more closes =>
        have split : second ++ [closing] ++ rest = second ++ (closing :: rest) := by simp
        rw [split] at ends ⊢
        rcases phrase.adjoin more (adjoins_of_not_endsAt more ends) with array | longer
        · obtain ⟨what', remaining, some, within, halts⟩ := expression_halts_at_array phrase array
          refine (halts (closing :: rest)).nears ?_
          have inside : remaining ++ [closing] <:+ second ++ [closing] := by
            obtain ⟨skipped, rfl⟩ := within
            exact ⟨skipped, by simp⟩
          simpa using skips _ inside (by simp)
        · obtain ⟨tree, faults, longer, few⟩ := longer
          rw [← List.append_assoc]
          exact expression_nears_semicolon longer closes few

theorem terminated_lands {what : Expectation}
    (phrase : Phrase .strict .assignment tokens tree faults) (runs : RunsInto follow rest) :
    (terminated what (tokens ++ (follow ++ rest))).Lands True rest :=
  (expression_nears phrase runs).expect (runs.nextIs (by decide)) runs.skipped

/-- A value that may be missing, without its semicolon. -/
theorem optionalBefore_nears {value : Option Expr} (derived : Maybe .strict tokens value faults)
    (runs : RunsInto follow rest) :
    (optionalBefore .semicolon (tokens ++ (follow ++ rest))).Nears follow rest := by
  have more : nextIs .semicolon (tokens ++ (follow ++ rest)) = false := by
    cases derived with
    | none => exact runs.nextIs (by decide)
    | some phrase =>
      obtain ⟨first, others, rfl, among⟩ := phrase.starts
      exact among.is_eq_false (by decide)
  rw [optionalBefore, more]
  refine Outcome.Nears.relax (Outcome.Nears.map ?_)
  cases derived with
  | some phrase => exact expression_nears phrase runs
  | none =>
    rw [List.nil_append]
    by_cases none : ∀ first ∈ (follow ++ rest).head?, ∃ tag ∉ phraseStarts, first.is tag = true
    · exact (expression_halts_at none).nears runs.skipped
    · cases runs with
      | ending => exact absurd (by simp) none
      | simple simple =>
        cases simple with
        | keyword opens closed plain =>
          obtain ⟨tag, member, found⟩ := opens
          have other : ∀ tag ∈ [Tag.varKeyword, .returnKeyword, .printKeyword],
              tag ∉ phraseStarts := by decide
          refine absurd ?_ none
          rintro _ ⟨⟩
          exact ⟨tag, other tag member, found⟩
        | @expression second closing next others phrase closes =>
          have split : second ++ [closing] ++ rest = second ++ (closing :: rest) := by simp
          have clean := phrase.faults_eq_nil
          rw [split]
          exact expression_nears_semicolon phrase closes (by simp [clean])

/-- A return statement without its semicolon takes the expression behind it for its value. -/
theorem returnStatement_lands {keyword : Token} {value : Option Expr}
    (result : Maybe .strict tokens value faults) (runs : RunsInto follow rest) :
    (returnStatement keyword (tokens ++ (follow ++ rest))).Lands True rest :=
  (optionalBefore_nears result runs).expect (runs.nextIs (by decide)) runs.skipped

/-- A variable declaration without its semicolon. -/
theorem variableDeclaration_lands {keyword closing : Token} {tree : Stmt}
    (declared : Variable .strict (keyword :: tokens ++ [closing]) tree faults)
    (runs : RunsInto follow rest) :
    (variableDeclaration (tokens ++ (follow ++ rest))).Lands True rest := by
  generalize same : keyword :: tokens ++ [closing] = all at declared
  cases declared with
  | @bare keyword' name closing' declares named closes =>
    have split : keyword :: tokens ++ [closing] = [keyword', name] ++ [closing'] := same
    obtain ⟨rfl, rfl⟩ := List.cons.inj (List.append_inj' split rfl).1
    have taken : (expect .identifier .variableName (name :: (follow ++ rest))).Accepts name name
        (follow ++ rest) [] := Outcome.accepts_expect named
    have noEquals : nextIs .equal (follow ++ rest) = false := runs.nextIs (by decide)
    have noSemicolon : nextIs .semicolon (follow ++ rest) = false := runs.nextIs (by decide)
    have skips := runs.skipped
    rw [List.cons_append, List.nil_append, variableDeclaration_eq]
    refine taken.andThen_lands fun _ => ?_
    cases shape : follow ++ rest with
    | nil =>
      rw [shape] at skips
      exact Outcome.halts_stop.lands trivial skips
    | cons sign after =>
      rw [shape] at skips noEquals noSemicolon
      have noEquals : ¬sign.is .equal = true := by simpa [nextIs] using noEquals
      rw [variableBehind, if_neg noEquals]
      exact ((Outcome.halts_expect noSemicolon).map.relax).lands trivial skips
  | @initial keyword' name sign closing' tokens' value faults declares named equals phrase closes =>
    have split : keyword :: tokens ++ [closing] =
        (keyword' :: name :: sign :: tokens') ++ [closing'] := same
    obtain ⟨rfl, rfl⟩ := List.cons.inj (List.append_inj' split rfl).1
    have taken : (expect .identifier .variableName
        (name :: sign :: (tokens' ++ (follow ++ rest)))).Accepts name name
        (sign :: (tokens' ++ (follow ++ rest))) [] := Outcome.accepts_expect named
    rw [List.cons_append, List.cons_append, variableDeclaration_eq]
    refine taken.andThen_lands fun _ => ?_
    rw [variableBehind, if_pos equals]
    exact (terminated_lands phrase runs).map.behind

end Rule
end Script
