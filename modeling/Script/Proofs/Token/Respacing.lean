import Script.Proofs.Parsing.Outcome
import Script.Proofs.Token.Lexeme

/-! Lexemes written anew. A lexeme in front of a blank or a line end is cut as it is by itself, so
the lexemes of a text with any such characters between neighbours are the tokens that they were. -/

namespace Script
namespace Scan

/-- What may stand between two lexemes so that they stay two. -/
def IsSpace (char : Char) : Prop := isBlank char = true ∨ char = '\n'

/-- A text that has the words in their order, with spaces between neighbours and nowhere else. -/
inductive Spaced : List String → List Char → Prop where
  | none : Spaced [] []
  | one (word : String) : Spaced [word] word.toList
  | more {word next : String} {words : List String} {gap text : List Char} (nonempty : gap ≠ [])
      (blank : ∀ char ∈ gap, IsSpace char) (others : Spaced (next :: words) text) :
      Spaced (word :: next :: words) (word.toList ++ gap ++ text)

theorem IsSpace.cases {char : Char} (space : IsSpace char) :
    char = ' ' ∨ char = '\r' ∨ char = '\t' ∨ char = '\n' := by
  rcases space with blank | lineEnd
  · rcases isBlank_iff.mp blank with rfl | rfl | rfl <;> simp
  · exact .inr (.inr (.inr lineEnd))

theorem IsSpace.breaks {char : Char} (space : IsSpace char) : Breaks char := by
  rcases space.cases with rfl | rfl | rfl | rfl <;> exact ⟨by decide, by decide, by decide⟩

/-- No token begins with a space. -/
theorem IsSpace.cut_eq {char : Char} (space : IsSpace char) (rest : List Char) :
    cut char rest = ⟨.error (.unexpected char), [char], rest⟩ := by
  rcases space.cases with rfl | rfl | rfl | rfl <;> rfl

theorem skipTrivia_spaces {gap : List Char} (blank : ∀ char ∈ gap, IsSpace char) (line : Nat)
    (text : List Char) : skipTrivia line (gap ++ text) = skipTrivia (line + newlines gap) text := by
  induction gap generalizing line with
  | nil => rfl
  | cons char gap ih =>
    obtain ⟨space, others⟩ := List.forall_mem_cons.mp blank
    rw [List.cons_append]
    by_cases ends : char = '\n'
    · subst ends
      rw [skipTrivia, ih others, newlines_cons_end, Nat.add_right_comm, Nat.add_assoc]
    · rw [skipTrivia_blank (space.resolve_right ends), ih others, newlines_cons ends]

/-- Spaces in front of a text move its items down by the lines that they end. -/
theorem pieces_spaces {gap : List Char} (blank : ∀ char ∈ gap, IsSpace char) (line : Nat)
    (text : List Char) : pieces line (gap ++ text) = pieces (line + newlines gap) text := by
  rw [pieces_eq, skipTrivia_spaces blank, ← pieces_eq]

section Lexeme

variable {first : Char} {rest behind : List Char} {kind : Kind}

/-- A lexeme in front of a space is cut whole, as what it is. -/
theorem Lexeme.cut_spaced (shown : Lexeme (first :: rest) kind)
    (apart : ∀ stop ∈ behind.head?, IsSpace stop) :
    cut first (rest ++ behind) = ⟨.ok kind, first :: rest, behind⟩ := by
  cases behind with
  | nil => rw [List.append_nil, shown.cut_alone]
  | cons stop behind =>
    have alone := shown.cut_alone
    have closed : (cut first rest).found ≠ .error .unterminatedString := by simp [alone]
    rw [cut_break (apart stop rfl).breaks behind closed, alone]
    rfl

/-- A lexeme in front of a space begins no trivia; above all a slash there begins no comment. -/
theorem Lexeme.skipTrivia_spaced (shown : Lexeme (first :: rest) kind)
    (apart : ∀ stop ∈ behind.head?, IsSpace stop) (line : Nat) :
    skipTrivia line (first :: (rest ++ behind)) = (line, first :: (rest ++ behind)) := by
  have alone := shown.cut_alone
  have solid : ¬IsSpace first := by
    intro space
    rw [space.cut_eq] at alone
    cases alone
  apply skipTrivia_stop (fun ends => solid (.inr ends)) _ (fun blank => solid (.inl blank))
  rintro others rfl slashes
  have single : rest = [] := congrArg Cut.rest alone
  subst single
  have slash := apart '/' (by rw [List.nil_append] at slashes; rw [slashes]; rfl)
  rcases slash.cases with same | same | same | same <;> cases same

theorem Lexeme.pieces_spaced (shown : Lexeme (first :: rest) kind)
    (apart : ∀ stop ∈ behind.head?, IsSpace stop) (line : Nat) :
    pieces line (first :: (rest ++ behind)) =
      ⟨.ok kind, first :: rest, line + newlines (first :: rest)⟩ ::
        pieces (line + newlines (first :: rest)) behind := by
  rw [pieces_eq, shown.skipTrivia_spaced apart]
  dsimp only
  rw [shown.cut_spaced apart]
  rfl

end Lexeme

end Scan

namespace Token

open Scan

/-- What a token is and how it is written, apart from its line. -/
def content (token : Token) : Kind × String := (token.kind, token.lexeme)

/-- Items without any error: tokens of this content, on whatever lines, and the end of the text. -/
def Reread (tokens : List Token) (items : List (Except LexError Token)) : Prop :=
  ∃ reread : List Token, items = reread.map .ok ∧
    reread.map content = tokens.map content ++ [(.plain .endOfText, "")]

/-- A lexeme in front of a space is read, and then whatever is read behind it. -/
theorem Reread.cons {token : Token} {tokens : List Token} {behind : List Char}
    (lexeme : Lexeme token.lexeme.toList token.kind)
    (apart : ∀ stop ∈ behind.head?, IsSpace stop)
    (others : ∀ line, Reread tokens ((pieces line behind).map Piece.item)) (line : Nat) :
    Reread (token :: tokens)
      ((pieces line (token.lexeme.toList ++ behind)).map Piece.item) := by
  obtain ⟨first, rest, spelled⟩ := List.exists_cons_of_ne_nil lexeme.ne_nil
  have word : String.ofList (first :: rest) = token.lexeme := by
    rw [← spelled, String.ofList_toList]
  rw [spelled] at lexeme
  obtain ⟨reread, items, same⟩ := others (line + newlines (first :: rest))
  rw [spelled, List.cons_append, lexeme.pieces_spaced apart, List.map_cons, items]
  refine ⟨⟨token.kind, token.lexeme, line + newlines (first :: rest)⟩ :: reread, ?_, ?_⟩
  · rw [Piece.item, word]
    rfl
  · rw [List.map_cons, same]
    rfl

/-- Lexemes with spaces between neighbours are read one by one. -/
theorem reread_of_spaced {tokens : List Token} {text : List Char}
    (lexemes : ∀ token ∈ tokens, Lexeme token.lexeme.toList token.kind)
    (spaced : Spaced (tokens.map Token.lexeme) text) (line : Nat) :
    Reread tokens ((pieces line text).map Piece.item) := by
  induction tokens generalizing line text with
  | nil =>
    cases spaced
    rw [pieces_eq, skipTrivia]
    exact ⟨[⟨.plain .endOfText, "", line⟩], rfl, rfl⟩
  | cons token tokens ih =>
    obtain ⟨own, others⟩ := List.forall_mem_cons.mp lexemes
    cases tokens with
    | nil =>
      cases spaced
      rw [← List.append_nil token.lexeme.toList]
      exact Reread.cons own (by simp) (ih others .none) line
    | cons next tokens =>
      cases spaced with
      | @more _ _ _ gap text nonempty blank spaced =>
        rw [List.append_assoc]
        refine Reread.cons own ?_ (fun line => ?_) line
        · obtain ⟨stop, gap, rfl⟩ := List.exists_cons_of_ne_nil nonempty
          simpa using blank stop List.mem_cons_self
        · rw [pieces_spaces blank]
          exact ih others spaced _

/-- A scanned token is the end of the text or has a lexeme of its category. -/
theorem lexeme_of_scan {text : String} {token : Token} (among : .ok token ∈ Token.scan text)
    (proper : token.is .endOfText = false) : Lexeme token.lexeme.toList token.kind := by
  obtain ⟨piece, inside, item⟩ := List.mem_map.mp among
  obtain ⟨lexeme, found⟩ := Piece.lexeme_item item
  rw [← stretches_pieces] at inside
  obtain ⟨stretch, here, rfl⟩ := List.mem_map.mp inside
  obtain ⟨earlier, later, around⟩ := List.append_of_mem here
  obtain ⟨_, ⟨ending, _⟩ | ⟨first, rest, _, _, cause, span, _⟩⟩ := Stretch.head_cases around
  · rw [found] at ending
    rw [Token.is_iff.mpr (Except.ok.inj ending)] at proper
    cases proper
  · rw [lexeme, String.toList_ofList, span]
    exact cut_lexeme (cause ▸ found)

/-- What a text without errors is read as: lexemes, and then the end of the text. -/
theorem lexemes_of_scan {text : String} {tokens : List Token}
    (scanned : Token.scan text = tokens.map .ok) :
    ∃ lexemes last, tokens = lexemes ++ [⟨.plain .endOfText, "", last⟩] ∧
      ∀ token ∈ lexemes, token.is .endOfText = false ∧
        Lexeme token.lexeme.toList token.kind := by
  obtain ⟨before, last, split, proper⟩ := pieces_end 1 text.toList
  have parted := scanned
  rw [Token.scan, split, List.map_append] at parted
  obtain ⟨lexemes, ending, rfl, items, alone⟩ := List.map_eq_append_iff.mp parted.symm
  obtain ⟨final, rfl, same⟩ := List.map_eq_singleton_iff.mp alone
  cases same
  refine ⟨lexemes, last, rfl, fun token member => ?_⟩
  have among : Except.ok token ∈ before.map Piece.item := items ▸ List.mem_map_of_mem member
  obtain ⟨piece, inside, item⟩ := List.mem_map.mp among
  have unended : token.is .endOfText = false := by
    apply Bool.eq_false_iff.mpr
    intro ending
    apply proper piece inside
    rw [(Piece.lexeme_item item).2, Token.is_iff.mp ending]
  have listed : Except.ok token ∈ Token.scan text := by
    rw [scanned]
    exact List.mem_map_of_mem (List.mem_append_left _ member)
  exact ⟨unended, lexeme_of_scan listed unended⟩

/-- If a text is read without error, then the lexemes of its tokens, written in their order with any
blanks and line ends between neighbours, at least one, are read without error as tokens of the same
categories, literals and lexemes. -/
theorem respaced_lexemes_rescan {text respaced : String}
    (faultless : Token.faults (Token.scan text) = [])
    (spaced : Spaced (((Token.good (Token.scan text)).filter (!·.is .endOfText)).map Token.lexeme)
      respaced.toList) :
    Token.faults (Token.scan respaced) = [] ∧
      (Token.good (Token.scan respaced)).map Token.content =
        (Token.good (Token.scan text)).map Token.content := by
  obtain ⟨lexemes, last, split, proper⟩ := lexemes_of_scan (eq_good_of_faultless faultless)
  have kept : (Token.good (Token.scan text)).filter (!·.is .endOfText) = lexemes := by
    have all : lexemes.filter (!·.is .endOfText) = lexemes := by
      apply List.filter_eq_self.mpr
      intro token member
      rw [(proper token member).1]
      rfl
    rw [split, List.filter_append, all]
    exact List.append_nil lexemes
  rw [kept] at spaced
  obtain ⟨reread, items, same⟩ :=
    reread_of_spaced (fun token member => (proper token member).2) spaced 1
  rw [Token.scan, items, Token.faults_ok, Token.good_ok, same, split, List.map_append]
  exact ⟨rfl, rfl⟩

/-- A number, a point, a slash and a string of slashes. -/
theorem respaced_lexemes_rescan_slashes :
    let text := "1./\"//\""
    let respaced := "1 .\n/\t\r\"//\""
    Token.faults (Token.scan text) = [] ∧ Token.faults (Token.scan respaced) = [] ∧
      (Token.good (Token.scan respaced)).map Token.content =
        (Token.good (Token.scan text)).map Token.content := by
  intro text respaced
  have faultless : Token.faults (Token.scan text) = [] := by decide +kernel
  have words : ((Token.good (Token.scan text)).filter (!·.is .endOfText)).map Token.lexeme =
      ["1", ".", "/", "\"//\""] := by decide +kernel
  have written : respaced.toList =
      "1".toList ++ [' '] ++ (".".toList ++ ['\n'] ++ ("/".toList ++ ['\t', '\r'] ++
        "\"//\"".toList)) := by decide
  have spaced : Spaced ["1", ".", "/", "\"//\""] respaced.toList := by
    rw [written]
    refine .more (by simp) ?_ (.more (by simp) ?_ (.more (by simp) ?_ (.one _))) <;>
      simp [IsSpace, isBlank]
  exact ⟨faultless, respaced_lexemes_rescan faultless (words ▸ spaced)⟩

end Token
end Script
