import Script.Proofs.Grammar.Draft
import Script.Proofs.Parsing.Continuation
import Script.Proofs.Parsing.Layer
import Script.Proofs.Parsing.Predicts

/-! The expression rules predict the relaxed grammar. -/

namespace Script

namespace Grammar

/-- The texts of a level of the relaxed grammar. -/
def Level.texts (level : Level) : Language Token := {tokens | ∃ draft, Drafted level tokens draft}

/-- What makes a text of the level when put behind one. -/
def Level.growths (level : Level) : Language Token :=
  {tokens | ∀ before ∈ level.texts, before ++ tokens ∈ level.texts}

/-- What makes an assignment when put behind a disjunction. -/
def assignmentTails : Language Token :=
  {tokens | ∀ before ∈ Level.disjunction.texts, before ++ tokens ∈ Level.assignment.texts}

/-- Expressions with commas between them. -/
def listTexts : Language Token :=
  {tokens | ∃ items : List (List Token × Draft),
    (∀ item ∈ items, Drafted .assignment item.1 item.2) ∧ Separated (items.map Prod.fst) tokens}

/-- Expressions, at least one, with commas between them. -/
def someListTexts : Language Token :=
  {tokens | ∃ items : List (List Token × Draft), items ≠ [] ∧
    (∀ item ∈ items, Drafted .assignment item.1 item.2) ∧ Separated (items.map Prod.fst) tokens}

/-- What makes a list when put behind its first item. -/
def listTails : Language Token :=
  {tokens | ∀ before ∈ Level.assignment.texts, before ++ tokens ∈ someListTexts}

variable {level inner : Level}

theorem Level.mem_texts_of_inner (next : level.inner? = some inner) {tokens : List Token}
    (member : tokens ∈ inner.texts) : tokens ∈ level.texts := by
  obtain ⟨draft, drafted⟩ := member
  exact ⟨draft, .inside next drafted⟩

theorem Level.nil_mem_growths : [] ∈ level.growths :=
  fun before member => (List.append_nil before).symm ▸ member

theorem nil_mem_assignmentTails : [] ∈ assignmentTails :=
  fun before member => (List.append_nil before).symm ▸ Level.mem_texts_of_inner rfl member

theorem nil_mem_listTexts : [] ∈ listTexts := ⟨[], by simp, .none⟩

theorem nil_mem_listTails : [] ∈ listTails := by
  rintro before ⟨draft, drafted⟩
  rw [List.append_nil]
  exact ⟨[(before, draft)], by simp, by simpa using drafted, .one before⟩

theorem Level.exists_mem_primary_texts : ∃ tokens, tokens ∈ Level.primary.texts :=
  ⟨[⟨.plain .nilKeyword, "", 1⟩], _, .leaf rfl⟩

theorem Level.exists_mem_texts : ∃ tokens, tokens ∈ Level.assignment.texts := by
  obtain ⟨tokens, draft, drafted⟩ := exists_mem_primary_texts
  exact ⟨tokens, draft, .inside rfl drafted.of_primary⟩

theorem mem_listTexts_of_some {tokens : List Token} (member : tokens ∈ someListTexts) :
    tokens ∈ listTexts := by
  obtain ⟨items, _, each, separated⟩ := member
  exact ⟨items, each, separated⟩

end Grammar

open Grammar

namespace Rule

variable {input after : List Token} {token : Token}

theorem judged_mild (target : Expr) (sign : Token) (after : List Token) (value : Expr) :
    Mild (judged target sign after value).2 := by
  unfold judged Mild
  cases target.assigned? value with
  | some assignment => simp
  | none => simp [ParseCause.unwinds]

theorem judged_fst (target : Expr) (sign : Token) (after : List Token) (value : Expr) :
    (judged target sign after value).1 = (target.assigned? value).getD target := by
  unfold judged
  cases target.assigned? value <;> rfl

theorem expression_predicts
    (target : Predicts Level.disjunction.texts (layered .disjunction) input)
    (value : ∀ sign after, Moved true (sign :: after) input →
      Predicts Level.assignment.texts expression after) :
    Predicts Level.assignment.texts expression input := by
  have assigned (target : Expr) (rest : List Token) (moved : Moved true rest input) :
      Predicts assignmentTails (expressionBehind target) rest := by
    refine Predicts.optional nil_mem_assignmentTails rfl (fun sign after other => if_neg other)
      (fun sign after equals => if_pos equals) (fun sign after split _ =>
        (value sign after (split ▸ moved)).settle (judged_fst target sign)
          (judged_mild target sign)) ?_
    rintro sign equals tokens ⟨value, right⟩ before ⟨target, left⟩
    exact ⟨_, .assign left equals right⟩
  refine ((target.andThen nil_mem_assignmentTails assigned).mono ?_).congr
    fun more _ => expression_eq more
  rintro _ ⟨before, target, tokens, grows, rfl⟩
  exact grows before target

theorem layered_predicts {layer : Layer}
    (first : Predicts layer.operandLevel.texts (operand layer) input)
    (others : ∀ left rest, Moved true rest input →
      Predicts layer.level.growths (joined layer left) rest) :
    Predicts layer.level.texts (layered layer) input := by
  refine ((first.andThen Level.nil_mem_growths others).mono ?_).congr
    fun more _ => layered.eq_1 layer more
  rintro _ ⟨before, operand, tokens, grows, rfl⟩
  exact grows before (Level.mem_texts_of_inner layer.inner?_level operand)

theorem joined_predicts {layer : Layer} {left : Expr} (joins : layer.joins token = true)
    (right : Predicts layer.operandLevel.texts (operand layer) after)
    (others : ∀ right rest, Moved true rest after →
      Predicts layer.level.growths (joined layer (layer.join left token right)) rest) :
    Predicts layer.level.growths (joined layer left) (token :: after) := by
  refine ((right.andThen Level.nil_mem_growths others).behind fun more => joined_more joins).mono ?_
  rintro _ ⟨_, rfl, _, ⟨tokens, ⟨right, drafted⟩, more, grows, rfl⟩, rfl⟩ before ⟨left, first⟩
  obtain ⟨tag, member, found⟩ := Layer.joins_iff.mp joins
  have node := Drafted.join (Layer.joins_of_mem member) first found drafted
  simpa using grows _ ⟨_, node⟩

theorem suffixes_call_predicts {object : Expr} (opens : token.is .leftParen = true)
    (inner : Predicts listTexts (listed .rightParen true) after)
    (others : ∀ arguments rest, Moved false rest after → ∀ paren behind, Moved true behind rest →
      Predicts Level.suffixed.growths (suffixes (.call object paren arguments)) behind) :
    Predicts Level.suffixed.growths (suffixes object) (token :: after) := by
  obtain ⟨closing, member⟩ := Tag.rightParen.exists_mem_texts
  refine ((inner.andThen (Language.append_mem_mul member Level.nil_mem_growths)
    fun arguments rest moved => Predicts.expect.andThen Level.nil_mem_growths
      (others arguments rest moved)).behind fun more => suffixes_call opens).mono ?_
  rintro _ ⟨_, rfl, _, ⟨tokens, ⟨items, each, listed⟩, _, ⟨_, ⟨closing, rfl, closes⟩, more, grows,
    rfl⟩, rfl⟩, rfl⟩ before ⟨object, left⟩
  simpa using grows _ ⟨_, .call left opens each listed closes⟩

theorem suffixes_subscript_predicts {object : Expr} (opens : token.is .leftBracket = true)
    (inner : Predicts Level.assignment.texts expression after)
    (others : ∀ index rest, Moved true rest after → ∀ bracket behind, Moved true behind rest →
      Predicts Level.suffixed.growths (suffixes (.subscript object bracket index)) behind) :
    Predicts Level.suffixed.growths (suffixes object) (token :: after) := by
  obtain ⟨closing, member⟩ := Tag.rightBracket.exists_mem_texts
  refine ((inner.andThen (Language.append_mem_mul member Level.nil_mem_growths)
    fun index rest moved => Predicts.expect.andThen Level.nil_mem_growths
      (others index rest moved)).behind fun more => suffixes_subscript opens).mono ?_
  rintro _ ⟨_, rfl, _, ⟨tokens, ⟨index, place⟩, _, ⟨_, ⟨closing, rfl, closes⟩, more, grows,
    rfl⟩, rfl⟩, rfl⟩ before ⟨object, left⟩
  simpa using grows _ ⟨_, .subscript left opens place closes⟩

theorem listed_predicts {closer : Tag} {limited : Bool}
    (items : ¬nextIs closer input = true → Predicts someListTexts (separated limited 0) input) :
    Predicts listTexts (listed closer limited) input := by
  refine (Predicts.orNothing nil_mem_listTexts fun more => ?_).congr
    fun more _ => listed.eq_1 closer limited more
  exact ((items (by simp [more])).mono fun _ => mem_listTexts_of_some).relax

theorem separated_predicts {limited : Bool} {count : Nat}
    (first : Predicts Level.assignment.texts expression input)
    (others : ∀ comma after, Moved true (comma :: after) input →
      Predicts someListTexts (separated limited (count + 1)) after) :
    Predicts someListTexts (separated limited count) input := by
  have listed (item : Expr) (rest : List Token) (moved : Moved true rest input) :
      Predicts listTails (separatedBehind limited count item) rest := by
    refine Predicts.optional nil_mem_listTails rfl (fun comma after other => if_neg other)
      (fun comma after between => if_pos between)
      (fun comma after split _ => (others comma after (split ▸ moved)).map) ?_
    rintro comma between tokens ⟨items, some, each, separated⟩ before ⟨draft, drafted⟩
    obtain _ | ⟨next, items⟩ := items
    · exact absurd rfl some
    exact ⟨(before, draft) :: next :: items, by simp, List.forall_mem_cons.mpr ⟨drafted, each⟩,
      .more between separated⟩
  have mild (more : List Token) : Mild (if limited && maxArity ≤ count then
      [⟨.tooManyArguments, more⟩] else []) := by
    split <;> simp [Mild, ParseCause.unwinds]
  refine (((first.noting mild).andThen nil_mem_listTails listed).mono ?_).congr
    fun more _ => separated_eq limited count more
  rintro _ ⟨before, item, tokens, grows, rfl⟩
  exact grows before item

theorem primary_group_predicts (opens : token.kind = .plain .leftParen)
    (inner : Predicts Level.assignment.texts expression after) :
    Predicts Level.primary.texts primary (token :: after) := by
  obtain ⟨closing, member⟩ := Tag.rightParen.exists_mem_texts
  refine ((inner.andThen member fun _ _ _ => Predicts.expect.map).behind
    fun more => primary_group opens).mono ?_
  rintro _ ⟨_, rfl, _, ⟨tokens, ⟨draft, drafted⟩, _, ⟨closing, rfl, closes⟩, rfl⟩, rfl⟩
  exact ⟨_, .group (Token.is_iff.mpr opens) drafted closes⟩

theorem primary_array_predicts (opens : token.kind = .plain .leftBracket)
    (inner : Predicts listTexts (listed .rightBracket false) after) :
    Predicts Level.primary.texts primary (token :: after) := by
  obtain ⟨closing, member⟩ := Tag.rightBracket.exists_mem_texts
  refine ((inner.andThen member fun _ _ _ => Predicts.expect.map).behind
    fun more => primary_array opens).mono ?_
  rintro _ ⟨_, rfl, _, ⟨tokens, ⟨items, each, listed⟩, _, ⟨closing, rfl, closes⟩, rfl⟩, rfl⟩
  exact ⟨_, .array (Token.is_iff.mpr opens) each listed closes⟩

/-- A primary of one token. -/
theorem leaf_predicts {tree : Expr} (leaf : token.leaf? = some tree) :
    Predicts Level.primary.texts primary (token :: after) := by
  refine ((Predicts.done tree).behind fun more => primary_leaf leaf).mono ?_
  rintro _ ⟨_, rfl, _, rfl, rfl⟩
  exact ⟨_, .leaf leaf⟩

/-- Every expression rule predicts its part of the relaxed grammar. -/
theorem expressions_predict :
    (∀ input, Predicts Level.assignment.texts expression input) ∧
    (∀ layer input, Predicts layer.level.texts (layered layer) input) ∧
    (∀ layer left input, Predicts layer.level.growths (joined layer left) input) ∧
    (∀ layer input, Predicts layer.operandLevel.texts (operand layer) input) ∧
    (∀ input, Predicts Level.signed.texts signed input) ∧
    (∀ input, Predicts Level.suffixed.texts suffixed input) ∧
    (∀ object input, Predicts Level.suffixed.growths (suffixes object) input) ∧
    (∀ closer limited input, Predicts listTexts (listed closer limited) input) ∧
    (∀ limited count input, Predicts someListTexts (separated limited count) input) ∧
    ∀ input, Predicts Level.primary.texts primary input := by
  obtain ⟨literal, isPrimary⟩ := Level.exists_mem_primary_texts
  refine expression.mutual_induct _ _ _ _ _ _ _ _ _ _ ?expression ?layered ?joinedEnd ?joinedMore
    ?joinedOther ?operandLayer ?operandSigned ?signedEnd ?signedMore ?signedOther ?suffixed
    ?suffixesEnd ?suffixesCall ?suffixesSubscript ?suffixesOther ?listedNone ?listedSome
    ?separated ?primaryEnd ?number ?string ?falsehood ?truth ?nil ?name ?group ?array
    ?primaryOther
  case expression => exact fun input => expression_predicts
  case layered => exact fun layer input => layered_predicts
  case joinedEnd =>
    exact fun layer left => (Predicts.empty left Level.nil_mem_growths).of_nil joined_nil
  case joinedMore => exact fun layer left operator after => joined_predicts
  case joinedOther =>
    intro layer left operator after other
    exact (Predicts.empty left Level.nil_mem_growths).of_cons fun more => joined_other other
  case operandLayer =>
    intro layer input inner found ih
    rw [Layer.operandLevel_of_some found]
    exact ih.congr fun more _ => operand_of_some found
  case operandSigned =>
    intro layer input found ih
    rw [Layer.operandLevel_of_none found]
    exact ih.congr fun more _ => operand_of_none found
  case signedEnd =>
    exact fun ih => (ih.mono fun _ => Level.mem_texts_of_inner rfl).of_nil signed_nil
  case signedMore =>
    intro operator after found ih
    refine (ih.map.behind fun more => signed_more found).mono ?_
    rintro _ ⟨_, rfl, tokens, ⟨operand, drafted⟩, rfl⟩
    exact ⟨_, .sign (by simpa using found) drafted⟩
  case signedOther =>
    intro operator after other ih
    exact (ih.mono fun _ => Level.mem_texts_of_inner rfl).of_cons fun more => signed_other other
  case suffixed =>
    intro input object others
    refine ((object.andThen Level.nil_mem_growths others).mono ?_).congr fun more _ =>
      suffixed.eq_1 more
    rintro _ ⟨before, object, tokens, grows, rfl⟩
    exact grows before (Level.mem_texts_of_inner rfl object)
  case suffixesEnd =>
    exact fun object => (Predicts.empty object Level.nil_mem_growths).of_nil suffixes_nil
  case suffixesCall => exact fun object opening after => suffixes_call_predicts
  case suffixesSubscript => exact fun object opening after _ => suffixes_subscript_predicts
  case suffixesOther =>
    intro object opening after noCall noSubscript
    exact (Predicts.empty object Level.nil_mem_growths).of_cons fun more =>
      suffixes_other noCall noSubscript
  case listedNone =>
    exact fun closer limited input closes => listed_predicts fun more => absurd closes more
  case listedSome => exact fun closer limited input more ih => listed_predicts fun _ => ih
  case separated => exact fun limited count input => separated_predicts
  case primaryEnd => exact (Predicts.stop .expression isPrimary).of_nil primary_nil
  case number => exact fun token after value kind => leaf_predicts (by rw [Token.leaf?, kind])
  case string => exact fun token after text kind => leaf_predicts (by rw [Token.leaf?, kind])
  case falsehood => exact fun token after kind => leaf_predicts (by rw [Token.leaf?, kind])
  case truth => exact fun token after kind => leaf_predicts (by rw [Token.leaf?, kind])
  case nil => exact fun token after kind => leaf_predicts (by rw [Token.leaf?, kind])
  case name => exact fun token after kind => leaf_predicts (by rw [Token.leaf?, kind])
  case group => exact fun token after => primary_group_predicts
  case array => exact fun token after => primary_array_predicts
  case primaryOther =>
    intro token after noNumber noString noFalse noTrue noNil noName noGroup noArray
    exact (Predicts.stop .expression isPrimary).of_cons fun more =>
      primary_other noNumber noString noFalse noTrue noNil noName noGroup noArray

theorem expression_predicts_texts : Predicts Level.assignment.texts expression input :=
  expressions_predict.1 input

end Rule

end Script
