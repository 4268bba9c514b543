import Script.Proofs.Token.Partition

/-! The lexical grammar. A token takes the longest lexeme at its place and its category is the one
that its lexeme has; a character is reported as unexpected where nothing at all begins. -/

namespace Script
namespace Scan

/-- The punctuation and the operators. -/
def marks : List (List Char × Tag) :=
  [(['('], .leftParen), ([')'], .rightParen), (['\x7b'], .leftBrace), (['\x7d'], .rightBrace),
    (['['], .leftBracket), ([']'], .rightBracket), ([','], .comma), (['.'], .dot),
    (['-'], .minus), (['+'], .plus), ([';'], .semicolon), (['*'], .star), (['/'], .slash),
    (['!'], .bang), (['!', '='], .bangEqual), (['='], .equal), (['=', '='], .equalEqual),
    (['<'], .less), (['<', '='], .lessEqual), (['>'], .greater), (['>', '='], .greaterEqual)]

/-- The words that are no names. -/
def reserved : List (String × Tag) :=
  [("and", .andKeyword), ("class", .classKeyword), ("else", .elseKeyword),
    ("false", .falseKeyword), ("for", .forKeyword), ("fun", .funKeyword),
    ("function", .funKeyword), ("if", .ifKeyword), ("nil", .nilKeyword), ("or", .orKeyword),
    ("print", .printKeyword), ("return", .returnKeyword), ("super", .superKeyword),
    ("this", .thisKeyword), ("true", .trueKeyword), ("var", .varKeyword),
    ("while", .whileKeyword)]

/-- The lexemes of the language, each with its category. -/
inductive Lexeme : List Char → Kind → Prop where
  | mark {spelling : List Char} {tag : Tag} (listed : (spelling, tag) ∈ marks) :
      Lexeme spelling (.plain tag)
  | keyword {word : String} {tag : Tag} (listed : (word, tag) ∈ reserved) :
      Lexeme word.toList (.plain tag)
  | name {first : Char} {rest : List Char} (begins : first.isAlpha ∨ first = '_')
      (continues : ∀ char ∈ rest, char.isAlphanum ∨ char = '_')
      (free : ∀ tag, (String.ofList (first :: rest), tag) ∉ reserved) :
      Lexeme (first :: rest) (.plain .identifier)
  | whole {digits : List Char} {value : Float} (nonempty : digits ≠ [])
      (all : ∀ digit ∈ digits, digit.isDigit) (spelled : Numeral.value? digits = some value) :
      Lexeme digits (.number value)
  | fraction {whole digits : List Char} {value : Float} (nonempty : whole ≠ []) (more : digits ≠ [])
      (all : ∀ digit ∈ whole, digit.isDigit) (behind : ∀ digit ∈ digits, digit.isDigit)
      (spelled : Numeral.value? (whole ++ '.' :: digits) = some value) :
      Lexeme (whole ++ '.' :: digits) (.number value)
  | string {body : List Char} (inside : '"' ∉ body) :
      Lexeme ('"' :: (body ++ ['"'])) (.string (String.ofList body))

/-- A text begins with a quote that is never closed. -/
def OpensUnclosed (text : List Char) : Prop := ∃ body, text = '"' :: body ∧ '"' ∉ body

theorem isDigit_eq (char : Char) : isDigit char = char.isDigit := rfl

theorem beginsWord_iff {char : Char} : beginsWord char = true ↔ char.isAlpha ∨ char = '_' := by
  have letters : char.isAlpha = (decide ('A' ≤ char ∧ char ≤ 'Z') ||
      (decide ('a' ≤ char) && decide (char ≤ 'z'))) := rfl
  rw [beginsWord, Bool.or_eq_true, beq_iff_eq, letters, Bool.decide_and, Bool.or_comm]

theorem continuesWord_iff {char : Char} :
    continuesWord char = true ↔ char.isAlphanum ∨ char = '_' := by
  have letters : char.isAlphanum = (char.isAlpha || char.isDigit) := rfl
  rw [continuesWord, Bool.or_eq_true, beginsWord_iff, isDigit_eq, letters, Bool.or_eq_true,
    or_right_comm]

/-- Letters stand behind the digits. -/
theorem beginsWord_bound {char : Char} (begins : beginsWord char = true) : 65 ≤ char.toNat := by
  have behind {bound : Char} (high : 65 ≤ bound.toNat) (above : bound ≤ char) : 65 ≤ char.toNat :=
    Nat.le_trans high above
  simp only [beginsWord, Bool.or_eq_true, Bool.and_eq_true, decide_eq_true_iff,
    beq_iff_eq] at begins
  rcases begins with (⟨lower, _⟩ | ⟨upper, _⟩) | rfl
  · exact behind (by decide) lower
  · exact behind (by decide) upper
  · decide

theorem reserved_eq : reserved = keywords := rfl

theorem wordTag_reserved {word : String} {tag : Tag} (listed : (word, tag) ∈ reserved) :
    wordTag word = tag := by
  have all : ∀ entry ∈ reserved, wordTag entry.1 = entry.2 := by decide
  exact all _ listed

theorem wordTag_free {word : String} (free : ∀ tag, (word, tag) ∉ reserved) :
    wordTag word = .identifier := by
  unfold wordTag
  cases found : keywords.lookup word with
  | none => rfl
  | some tag =>
    obtain ⟨before, after, split, _⟩ := List.lookup_eq_some_iff.mp found
    apply absurd _ (free tag)
    rw [reserved_eq, split]
    exact List.mem_append_right before List.mem_cons_self

/-- A letter begins nothing but a word. -/
theorem cut_word {first : Char} (begins : beginsWord first = true) (rest : List Char) :
    cut first rest = cutWord (first :: rest) := by
  have noMark : mark? first = none := by
    unfold mark?
    split <;> first | rfl | exact absurd begins (by decide)
  have noPair : equalsPair? first = none := by
    unfold equalsPair?
    split <;> first | rfl | exact absurd begins (by decide)
  have noQuote : first ≠ '"' := by
    rintro rfl
    exact absurd begins (by decide)
  have noDigit : ¬isDigit first = true := by
    intro digit
    have below := (Numeral.digit_bounds digit).2
    have above := beginsWord_bound begins
    omega
  rw [cut, noMark, noPair]
  dsimp only
  rw [if_neg noQuote, if_neg noDigit, if_pos begins]

/-- A digit begins nothing but a number. -/
theorem cut_digit {first : Char} (digit : isDigit first = true) (rest : List Char) :
    cut first rest = cutNumber (first :: rest) := by
  have noMark : mark? first = none := by
    unfold mark?
    split <;> first | rfl | exact absurd digit (by decide)
  have noPair : equalsPair? first = none := by
    unfold equalsPair?
    split <;> first | rfl | exact absurd digit (by decide)
  have noQuote : first ≠ '"' := Numeral.digit_ne digit rfl
  rw [cut, noMark, noPair]
  dsimp only
  rw [if_neg noQuote, if_pos digit]

theorem cut_quote (rest : List Char) : cut '"' rest = cutString rest := rfl

/-- The marks as single characters and as pairs with an equals sign. -/
theorem marks_shape {spelling : List Char} {tag : Tag} (listed : (spelling, tag) ∈ marks) :
    (∃ char, spelling = [char] ∧ mark? char = some tag) ∨
    (∃ char double, spelling = [char] ∧ mark? char = none ∧
      equalsPair? char = some (tag, double)) ∨
    ∃ char single, spelling = [char, '='] ∧ mark? char = none ∧
      equalsPair? char = some (single, tag) := by
  simp only [marks, List.mem_cons, Prod.mk.injEq, List.not_mem_nil] at listed
  repeat' rcases listed with ⟨rfl, rfl⟩ | listed
  all_goals first
    | exact .inl ⟨_, rfl, rfl⟩
    | exact .inr (.inl ⟨_, _, rfl, rfl, rfl⟩)
    | exact .inr (.inr ⟨_, _, rfl, rfl, rfl⟩)

theorem lexeme_mark {char : Char} {tag : Tag} (found : mark? char = some tag) :
    Lexeme [char] (.plain tag) := by
  unfold mark? at found
  split at found <;> cases found <;> exact .mark (by decide)

theorem lexeme_pair {char : Char} {single double : Tag}
    (found : equalsPair? char = some (single, double)) :
    Lexeme [char] (.plain single) ∧ Lexeme [char, '='] (.plain double) := by
  unfold equalsPair? at found
  split at found <;> cases found <;> exact ⟨.mark (by decide), .mark (by decide)⟩

theorem lexeme_word {first : Char} {rest : List Char} (begins : beginsWord first = true)
    (continues : ∀ char ∈ rest, continuesWord char = true) :
    Lexeme (first :: rest) (.plain (wordTag (String.ofList (first :: rest)))) := by
  by_cases listed : ∃ tag, (String.ofList (first :: rest), tag) ∈ reserved
  · obtain ⟨tag, listed⟩ := listed
    have lexeme := Lexeme.keyword listed
    rw [String.toList_ofList] at lexeme
    rw [wordTag_reserved listed]
    exact lexeme
  · have free : ∀ tag, (String.ofList (first :: rest), tag) ∉ reserved := not_exists.mp listed
    rw [wordTag_free free]
    exact .name (beginsWord_iff.mp begins)
      (fun char member => continuesWord_iff.mp (continues char member)) free

theorem lexeme_number {text : List Char} {kind : Kind}
    (present : text.takeWhile isDigit ≠ []) (found : (cutNumber text).found = .ok kind) :
    Lexeme (cutNumber text).span kind := by
  have all := Cursor.all_takeWhile isDigit
  rcases Numeral.cutNumber_cases text with ⟨digit, others, _, more, same⟩ | ⟨_, same⟩
  · rw [same] at found ⊢
    cases found
    apply Lexeme.fraction present _ (all text) (all (digit :: others))
    · exact Numeral.value?_fraction present (all text) (all (digit :: others))
    · rw [List.takeWhile_cons_of_pos more]
      exact List.cons_ne_nil _ _
  · rw [same] at found ⊢
    cases found
    exact .whole present (all text) (Numeral.value?_whole present (all text))

/-- What is cut as a token is a lexeme of the token's category. -/
theorem cut_lexeme {first : Char} {rest : List Char} {kind : Kind}
    (found : (cut first rest).found = .ok kind) : Lexeme (cut first rest).span kind := by
  unfold cut at found ⊢
  split at found
  · rename_i marked
    cases found
    exact lexeme_mark marked
  · rename_i single double _ paired
    split at found
    · cases found
      exact (lexeme_pair paired).2
    · cases found
      exact (lexeme_pair paired).1
  · split at found
    · rename_i quotes
      rw [if_pos quotes]
      unfold cutString at found ⊢
      cases closing : rest.dropWhile (· != '"') with
      | nil =>
        rw [closing] at found
        cases found
      | cons quote after =>
        have head := List.head?_dropWhile_not (· != '"') rest
        rw [closing, List.head?_cons] at head
        have head : quote = '"' := by simpa using head
        rw [closing] at found
        cases found
        rw [head]
        apply Lexeme.string
        intro among
        have kept := Cursor.all_takeWhile (· != '"') rest _ among
        simp at kept
    · rename_i noQuote
      rw [if_neg noQuote]
      split at found
      · rename_i digit
        rw [if_pos digit]
        apply lexeme_number _ found
        rw [List.takeWhile_cons_of_pos digit]
        exact List.cons_ne_nil _ _
      · rename_i noDigit
        rw [if_neg noDigit]
        split at found
        · rename_i begins
          have starts : continuesWord first = true := by rw [continuesWord, begins]; rfl
          rw [if_pos begins]
          unfold cutWord at found ⊢
          cases found
          rw [List.takeWhile_cons_of_pos starts]
          exact lexeme_word begins (Cursor.all_takeWhile continuesWord rest)
        · cases found

/-- A cut takes all of a lexeme at the head of the text, and is of its category if it takes no
more. -/
def Takes (lexeme : List Char) (kind : Kind) (cut : Cut) : Prop :=
  ∃ other extra, cut.found = .ok other ∧ cut.span = lexeme ++ extra ∧ (extra = [] → other = kind)

theorem takes_word {first : Char} {word more : List Char} (begins : beginsWord first = true)
    (continues : ∀ char ∈ word, continuesWord char = true) :
    Takes (first :: word) (.plain (wordTag (String.ofList (first :: word))))
      (cut first (word ++ more)) := by
  have starts : continuesWord first = true := by rw [continuesWord, begins]; rfl
  have taken : (first :: (word ++ more)).takeWhile continuesWord =
      (first :: word) ++ more.takeWhile continuesWord := by
    rw [List.takeWhile_cons_of_pos starts, List.takeWhile_append_of_pos continues]
    rfl
  rw [cut_word begins, cutWord, taken]
  refine ⟨_, more.takeWhile continuesWord, rfl, rfl, ?_⟩
  intro none
  rw [none, List.append_nil]

theorem takes_whole {first : Char} {digits more : List Char} {value : Float}
    (all : ∀ digit ∈ first :: digits, isDigit digit = true)
    (spelled : Numeral.value? (first :: digits) = some value) :
    Takes (first :: digits) (.number value) (cut first (digits ++ more)) := by
  have taken : (first :: (digits ++ more)).takeWhile isDigit =
      (first :: digits) ++ more.takeWhile isDigit := by
    rw [← List.cons_append, List.takeWhile_append_of_pos all]
  have value' : numberValue (first :: digits) [] = value := by
    rw [Numeral.value?_whole (List.cons_ne_nil _ _) all, Option.some.injEq] at spelled
    exact spelled
  rw [cut_digit (all first List.mem_cons_self)]
  rcases Numeral.cutNumber_cases (first :: (digits ++ more)) with
    ⟨digit, others, _, _, same⟩ | ⟨_, same⟩
  · rw [same, taken]
    refine ⟨_, _, rfl, List.append_assoc _ _ _, ?_⟩
    intro none
    rw [List.append_eq_nil_iff] at none
    cases none.2
  · rw [same, taken]
    refine ⟨_, _, rfl, rfl, ?_⟩
    intro none
    rw [none, List.append_nil, value']

theorem takes_fraction {first : Char} {whole digits more : List Char} {value : Float}
    (all : ∀ digit ∈ first :: whole, isDigit digit = true) (present : digits ≠ [])
    (behind : ∀ digit ∈ digits, isDigit digit = true)
    (spelled : Numeral.value? (first :: whole ++ '.' :: digits) = some value) :
    Takes (first :: whole ++ '.' :: digits) (.number value)
      (cut first (whole ++ '.' :: (digits ++ more))) := by
  have taken : (first :: (whole ++ '.' :: (digits ++ more))).takeWhile isDigit =
      first :: whole := by
    rw [← List.cons_append, List.takeWhile_append_of_pos all,
      List.takeWhile_cons_of_neg (by decide), List.append_nil]
  have left : (first :: (whole ++ '.' :: (digits ++ more))).dropWhile isDigit =
      '.' :: (digits ++ more) := by
    rw [← List.cons_append, List.dropWhile_append_of_pos all,
      List.dropWhile_cons_of_neg (by decide)]
  have value' : numberValue (first :: whole) digits = value := by
    rw [Numeral.value?_fraction (List.cons_ne_nil _ _) all behind, Option.some.injEq] at spelled
    exact spelled
  obtain ⟨next, others, rfl⟩ := List.exists_cons_of_ne_nil present
  rw [cut_digit (all first List.mem_cons_self)]
  rcases Numeral.cutNumber_cases (first :: (whole ++ '.' :: (next :: others ++ more))) with
    ⟨digit, after, found, _, same⟩ | ⟨noFraction, _⟩
  · rw [left, List.cons.injEq] at found
    rw [same, taken, ← found.2, List.takeWhile_append_of_pos behind]
    refine ⟨_, more.takeWhile isDigit, rfl, ?_, ?_⟩
    · rw [List.append_assoc]
      rfl
    · intro none
      rw [none, List.append_nil, value']
  · exact absurd ⟨next, others ++ more, left, behind next List.mem_cons_self⟩ noFraction

theorem takes_string {body more : List Char} (inside : '"' ∉ body) :
    Takes ('"' :: (body ++ ['"'])) (.string (String.ofList body))
      (cut '"' (body ++ '"' :: more)) := by
  have all : ∀ char ∈ body, (char != '"') = true := by
    intro char member
    apply bne_iff_ne.mpr
    rintro rfl
    exact inside member
  have taken : (body ++ '"' :: more).takeWhile (· != '"') = body := by
    rw [List.takeWhile_append_of_pos all, List.takeWhile_cons_of_neg (by decide), List.append_nil]
  have left : (body ++ '"' :: more).dropWhile (· != '"') = '"' :: more := by
    rw [List.dropWhile_append_of_pos all, List.dropWhile_cons_of_neg (by decide)]
  rw [cut_quote, cutString, taken, left]
  exact ⟨_, [], rfl, (List.append_nil _).symm, fun _ => rfl⟩

theorem takes_mark {spelling : List Char} {tag : Tag} (listed : (spelling, tag) ∈ marks)
    {first : Char} {rest more : List Char} (split : first :: rest = spelling ++ more) :
    Takes spelling (.plain tag) (cut first rest) := by
  rcases marks_shape listed with
    ⟨char, rfl, marked⟩ | ⟨char, double, rfl, noMark, paired⟩ | ⟨char, single, rfl, noMark, paired⟩
  · cases split
    rw [cut, marked]
    exact ⟨_, [], rfl, rfl, fun _ => rfl⟩
  · cases split
    rw [cut, noMark, paired]
    dsimp only
    split
    · exact ⟨_, ['='], rfl, rfl, fun none => by cases none⟩
    · exact ⟨_, [], rfl, rfl, fun _ => rfl⟩
  · cases split
    rw [cut, noMark, paired]
    exact ⟨_, [], rfl, rfl, fun _ => rfl⟩

/-- The reserved words are words. -/
theorem reserved_shape {word : String} {tag : Tag} (listed : (word, tag) ∈ reserved) :
    ∃ first rest, word.toList = first :: rest ∧ beginsWord first = true ∧
      ∀ char ∈ rest, continuesWord char = true := by
  have all : (reserved.all fun entry => entry.1.toList.head?.any beginsWord &&
      entry.1.toList.tail.all continuesWord) = true := rfl
  have shape := List.all_eq_true.mp all _ listed
  rw [Bool.and_eq_true, List.all_eq_true] at shape
  obtain ⟨begins, continues⟩ := shape
  dsimp only at begins continues
  cases spelled : word.toList with
  | nil =>
    rw [spelled] at begins
    cases begins
  | cons first rest =>
    rw [spelled] at begins continues
    exact ⟨first, rest, rfl, begins, continues⟩

/-- The longest match. -/
theorem Lexeme.takes {lexeme : List Char} {kind : Kind} (shown : Lexeme lexeme kind)
    {first : Char} {rest more : List Char} (split : first :: rest = lexeme ++ more) :
    Takes lexeme kind (cut first rest) := by
  cases shown with
  | mark listed => exact takes_mark listed split
  | @keyword word tag listed =>
    obtain ⟨head, tail, spelled, begins, continues⟩ := reserved_shape listed
    rw [spelled] at split ⊢
    cases split
    have word : String.ofList (first :: tail) = word := by
      rw [← spelled, String.ofList_toList]
    have tag := congrArg Kind.plain (wordTag_reserved listed)
    rw [← word] at tag
    exact tag ▸ takes_word begins continues
  | @name head tail begins continues free =>
    cases split
    have continues : ∀ char ∈ tail, continuesWord char = true :=
      fun char member => continuesWord_iff.mpr (continues char member)
    exact wordTag_free free ▸ takes_word (beginsWord_iff.mpr begins) continues
  | @whole digits value nonempty all spelled =>
    obtain ⟨head, tail, rfl⟩ := List.exists_cons_of_ne_nil nonempty
    cases split
    exact takes_whole all spelled
  | @fraction whole digits value nonempty present all behind spelled =>
    obtain ⟨head, tail, rfl⟩ := List.exists_cons_of_ne_nil nonempty
    rw [List.append_assoc] at split
    cases split
    exact takes_fraction all present behind spelled
  | @string body inside =>
    rw [List.cons_append, List.append_assoc] at split
    cases split
    exact takes_string inside

theorem Lexeme.ne_nil {lexeme : List Char} {kind : Kind} (shown : Lexeme lexeme kind) :
    lexeme ≠ [] := by
  cases shown with
  | mark listed =>
    rcases marks_shape listed with ⟨_, rfl, _⟩ | ⟨_, _, rfl, _⟩ | ⟨_, _, rfl, _⟩ <;> simp
  | keyword listed =>
    obtain ⟨_, _, spelled, _⟩ := reserved_shape listed
    simp [spelled]
  | name => simp
  | whole nonempty => exact nonempty
  | fraction => simp
  | string => simp

/-- By itself a lexeme is cut whole, as what it is. -/
theorem Lexeme.cut_alone {first : Char} {rest : List Char} {kind : Kind}
    (shown : Lexeme (first :: rest) kind) : cut first rest = ⟨.ok kind, first :: rest, []⟩ := by
  obtain ⟨taken, extra, found, span, same⟩ := shown.takes (List.append_nil _).symm
  have covered := cut_covers first rest
  have lengths := congrArg List.length covered
  rw [List.length_append, span, List.length_append] at lengths
  have none : extra = [] := List.eq_nil_of_length_eq_zero (by omega)
  have left : (cut first rest).rest = [] := List.eq_nil_of_length_eq_zero (by omega)
  rw [none, List.append_nil] at span
  rw [same none] at found
  generalize cut first rest = whole at found span left ⊢
  obtain ⟨result, chars, behind⟩ := whole
  rw [Cut.mk.injEq]
  exact ⟨found, span, left⟩

/-- A lexeme has one category. -/
theorem Lexeme.unique {lexeme : List Char} {kind other : Kind} (shown : Lexeme lexeme kind)
    (shown' : Lexeme lexeme other) : kind = other := by
  obtain ⟨first, rest, rfl⟩ := List.exists_cons_of_ne_nil shown.ne_nil
  have same := shown.cut_alone.symm.trans shown'.cut_alone
  simpa using congrArg Cut.found same

/-- A character is unexpected exactly where no lexeme and no unclosed string begins. -/
theorem cut_unexpected_iff (first : Char) (rest : List Char) :
    (cut first rest).found = .error (.unexpected first) ↔
      (∀ lexeme kind, Lexeme lexeme kind → ¬lexeme <+: first :: rest) ∧
        ¬OpensUnclosed (first :: rest) := by
  constructor
  · intro fault
    constructor
    · rintro lexeme kind shown ⟨more, split⟩
      obtain ⟨_, _, found, _⟩ := shown.takes split.symm
      rw [fault] at found
      cases found
    · rintro ⟨body, split, unclosed⟩
      cases split
      have all : ∀ char ∈ rest, (char != '"') = true := by
        intro char member
        apply bne_iff_ne.mpr
        rintro rfl
        exact unclosed member
      have none : rest.dropWhile (· != '"') = [] := by
        have left : (rest ++ []).dropWhile (· != '"') = [] := List.dropWhile_append_of_pos all
        rw [List.append_nil] at left
        exact left
      rw [cut_quote, cutString, none] at fault
      cases fault
  · rintro ⟨noLexeme, closed⟩
    have covered := cut_covers first rest
    have spans := cut_spans first rest
    cases found : (cut first rest).found with
    | ok kind =>
      exact absurd ⟨_, covered⟩ (noLexeme _ _ (cut_lexeme found))
    | error cause =>
      rw [found] at spans
      generalize (cut first rest).span = span, (cut first rest).rest = left at spans covered
      cases spans with
      | unexpected char =>
        cases covered
        rfl
      | unterminated unclosed =>
        rw [List.append_nil] at covered
        exact absurd ⟨_, covered.symm, unclosed⟩ closed

/-- A stretch whose item reports a character reports the first one of its span. -/
theorem Stretch.unexpected_iff {text : String} {before after : List Stretch} {stretch : Stretch}
    (split : stretches 1 text.toList = before ++ stretch :: after) {first : Char}
    {rest : List Char}
    (ahead : stretch.piece.span ++ after.flatMap Stretch.chars = first :: rest) :
    (∃ char line, stretch.piece.item = .error ⟨.unexpected char, line⟩) ↔
      stretch.piece.found = .error (.unexpected first) := by
  have spans := (Stretch.exact_of_split split).spans
  unfold Piece.item
  constructor
  · rintro ⟨char, line, fault⟩
    cases found : stretch.piece.found with
    | ok kind =>
      rw [found] at fault
      cases fault
    | error cause =>
      rw [found] at fault spans
      cases fault
      generalize stretch.piece.span = span at spans ahead
      cases spans
      cases ahead
      rfl
  · intro found
    rw [found]
    exact ⟨first, _, rfl⟩

/-- The tokens of a text are its longest lexemes. The text from a token on has the token's lexeme
at its head, with the category that this lexeme alone determines, and no longer one. At every place
where the scanner stops in front of more text, be it before an item or in the trivia there, a
character is reported as unexpected exactly if neither a lexeme nor trivia nor an unclosed string
begins there. -/
theorem scan_longest (text : String) :
    (stretches 1 text.toList).map (Piece.item ∘ Stretch.piece) = Token.scan text ∧
    (stretches 1 text.toList).flatMap Stretch.chars = text.toList ∧
    ∀ before stretch after, stretches 1 text.toList = before ++ stretch :: after →
      let ahead := stretch.piece.span ++ after.flatMap Stretch.chars
      (∀ token, stretch.piece.item = .ok token → token.is .endOfText = false →
        token.lexeme.toList <+: ahead ∧ Lexeme token.lexeme.toList token.kind ∧
        (∀ lexeme kind, Lexeme lexeme kind → lexeme <+: ahead →
          lexeme <+: token.lexeme.toList) ∧
        ∀ kind, Lexeme token.lexeme.toList kind → kind = token.kind) ∧
      ∀ trivia, trivia <:+ stretch.trivia → Trivia trivia ahead → trivia ++ ahead ≠ [] →
        ((trivia = [] ∧ ∃ char line, stretch.piece.item = .error ⟨.unexpected char, line⟩) ↔
          (∀ lexeme kind, Lexeme lexeme kind → ¬lexeme <+: trivia ++ ahead) ∧
            ¬TriviaBegins (trivia ++ ahead) ∧ ¬OpensUnclosed (trivia ++ ahead)) := by
  refine ⟨?_, stretches_chars 1 text.toList, ?_⟩
  · rw [Token.scan, ← stretches_pieces, List.map_map]
  intro before stretch after split ahead
  obtain ⟨_, here⟩ := Stretch.head_cases split
  constructor
  · intro token found inside
    obtain ⟨lexeme, kind⟩ := Piece.lexeme_item found
    rw [lexeme, String.toList_ofList]
    rcases here with ⟨ending, _⟩ | ⟨first, rest, _, _, cause, span, _, behind⟩
    · rw [kind, Except.ok.injEq] at ending
      rw [Token.is, ending] at inside
      cases inside
    · have covered : ahead = first :: rest := by
        rw [← cut_covers first rest, ← span, ← behind]
      have shown : Lexeme stretch.piece.span token.kind := by
        rw [span]
        exact cut_lexeme (cause ▸ kind)
      refine ⟨List.prefix_append _ _, shown, ?_, fun _ other => other.unique shown⟩
      rintro lexeme kind longer ⟨more, split⟩
      obtain ⟨_, extra, _, taken, _⟩ := longer.takes (covered.symm.trans split.symm)
      rw [span, taken]
      exact List.prefix_append _ _
  · intro trivia _ shown present
    by_cases none : trivia = []
    · subst none
      rcases here with ⟨_, span, rfl, _⟩ | ⟨first, rest, _, solid, cause, span, _, behind⟩
      · have empty : ahead = [] := List.append_eq_nil_iff.mpr ⟨span, rfl⟩
        exact absurd empty present
      · have covered : ahead = first :: rest := by
          rw [← cut_covers first rest, ← span, ← behind]
        rw [List.nil_append, covered, and_left_comm, ← cut_unexpected_iff, ← cause,
          Stretch.unexpected_iff split covered]
        exact and_congr_left' (iff_of_true rfl solid)
    · have begins : TriviaBegins (trivia ++ ahead) := ⟨trivia, ahead, rfl, none, shown⟩
      constructor
      · rintro ⟨same, _⟩
        exact absurd same none
      · rintro ⟨_, solid, _⟩
        exact absurd begins solid

end Scan
end Script
