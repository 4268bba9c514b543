import Script.Proofs.Token.Cursor

/-! Scanning loses nothing. The spans of the items and the trivia between them put together are
the text byte for byte, each item tells the line its span ends on, and the end of the text is
given once and last. -/

namespace Script
namespace Scan

open Utf8

/-- What an item spans in front of the text behind it: the end of the text nothing at its end, a
lexeme at least a character, a fault the one character that begins nothing, or all that follows a
quote that is never closed. -/
inductive Spans : Except LexCause Kind → List Char → List Char → Prop where
  | ending : Spans (.ok (.plain .endOfText)) [] []
  | lexeme {kind : Kind} {span behind : List Char} (nonempty : span ≠ [])
      (inside : kind.tag? ≠ some .endOfText) : Spans (.ok kind) span behind
  | unexpected (char : Char) (behind : List Char) :
      Spans (.error (.unexpected char)) [char] behind
  | unterminated {body : List Char} (unclosed : '"' ∉ body) :
      Spans (.error .unterminatedString) ('"' :: body) []

theorem cut_error {first : Char} {rest : List Char} {cause : LexCause}
    (fault : (cut first rest).found = .error cause) :
    Spans (.error cause) (cut first rest).span (cut first rest).rest := by
  unfold cut at fault ⊢
  split at fault
  · cases fault
  · split at fault <;> cases fault
  · split at fault
    · rename_i quotes
      rw [if_pos quotes]
      unfold cutString at fault ⊢
      cases found : rest.dropWhile (· != '"') with
      | nil =>
        rw [found] at fault
        cases fault
        have body := List.takeWhile_append_dropWhile (p := (· != '"')) (l := rest)
        rw [found, List.append_nil] at body
        apply Spans.unterminated
        intro closed
        rw [← body] at closed
        have kept := Cursor.all_takeWhile (· != '"') rest _ closed
        simp at kept
      | cons quote after =>
        rw [found] at fault
        cases fault
    · rename_i noQuote
      split at fault
      · rcases Numeral.cutNumber_cases (first :: rest) with ⟨_, _, _, _, same⟩ | ⟨_, same⟩ <;>
          rw [same] at fault <;> cases fault
      · rename_i noDigit
        split at fault
        · cases fault
        · rename_i noWord
          cases fault
          rw [if_neg noQuote, if_neg noDigit, if_neg noWord]
          exact .unexpected first rest

theorem cut_spans (first : Char) (rest : List Char) :
    Spans (cut first rest).found (cut first rest).span (cut first rest).rest := by
  have proper := cut_ne_endOfText first rest
  have taken := cut_rest_length first rest
  have covered := congrArg List.length (cut_covers first rest)
  cases found : (cut first rest).found with
  | error cause => exact cut_error found
  | ok kind =>
    rw [found] at proper
    apply Spans.lexeme
    · intro none
      rw [none, List.nil_append, List.length_cons] at covered
      omega
    · intro ending
      cases kind with
      | string text => cases ending
      | number value => cases ending
      | plain tag =>
        cases ending
        exact proper rfl

/-- The line that an item tells. -/
def itemLine : Except LexError Token → Nat
  | .ok token => token.line
  | .error error => error.line

theorem Piece.itemLine_item (piece : Piece) : itemLine piece.item = piece.line := by
  unfold Piece.item
  split <;> rfl

/-- A stretch stands between others in a text: its trivia and its span are what they should be in
front of the text behind, the span is a slice of the text between characters and the lexeme of a
token, and the line counts the newline bytes up to the end of the span. -/
structure Stretch.Exact (text : String) (before : List Stretch) (stretch : Stretch)
    (after : List Stretch) : Prop where
  trivia : Trivia stretch.trivia (stretch.piece.span ++ after.flatMap Stretch.chars)
  spans : Spans stretch.piece.found stretch.piece.span (after.flatMap Stretch.chars)
  slice :
    slice? text (spell (before.flatMap Stretch.chars ++ stretch.trivia)).length
        (spell ((before ++ [stretch]).flatMap Stretch.chars)).length =
      some (String.ofList stretch.piece.span)
  lexeme : ∀ token, stretch.piece.item = .ok token →
    token.lexeme = String.ofList stretch.piece.span ∧ stretch.piece.found = .ok token.kind
  line :
    itemLine stretch.piece.item =
      1 + ((encode text).take (spell ((before ++ [stretch]).flatMap Stretch.chars)).length).count
        '\n'.toUInt8

theorem Piece.lexeme_item {piece : Piece} {token : Token} (found : piece.item = .ok token) :
    token.lexeme = String.ofList piece.span ∧ piece.found = .ok token.kind := by
  unfold Piece.item at found
  split at found
  · rename_i kind same
    cases found
    exact ⟨rfl, same⟩
  · cases found

variable {text : String} {before after : List Stretch} {stretch : Stretch}

/-- What stands at a stretch: the head of the stretches of the text from there on. -/
theorem Stretch.head_cases (split : stretches 1 text.toList = before ++ stretch :: after) :
    stretch.piece.line = 1 + newlines ((before ++ [stretch]).flatMap Stretch.chars) ∧
    ((stretch.piece.found = .ok (.plain .endOfText) ∧ stretch.piece.span = [] ∧ after = [] ∧
      Trivia stretch.trivia []) ∨
    ∃ first rest, Trivia stretch.trivia (first :: rest) ∧ ¬TriviaBegins (first :: rest) ∧
      stretch.piece.found = (cut first rest).found ∧
      stretch.piece.span = (cut first rest).span ∧
      after = stretches stretch.piece.line (cut first rest).rest ∧
      after.flatMap Stretch.chars = (cut first rest).rest) := by
  have chars : (before ++ [stretch]).flatMap Stretch.chars =
      before.flatMap Stretch.chars ++ stretch.chars := by
    rw [List.flatMap_append, List.flatMap_singleton]
  have here := stretches_split split
  rw [chars, newlines_append, ← Nat.add_assoc]
  rcases stretches_cases (1 + newlines (before.flatMap Stretch.chars))
      (stretch.chars ++ after.flatMap Stretch.chars) with
    ⟨shown, same⟩ | ⟨trivia, first, rest, covered, shown, solid, same⟩
  · rw [here, List.cons.injEq] at same
    obtain ⟨alone, none⟩ := same
    subst none
    rw [List.flatMap_nil, List.append_nil] at shown alone
    have same : stretch.trivia = stretch.chars := congrArg Stretch.trivia alone
    refine ⟨congrArg (Piece.line ∘ Stretch.piece) alone, .inl ⟨?_, ?_, rfl, ?_⟩⟩
    · exact congrArg (Piece.found ∘ Stretch.piece) alone
    · exact congrArg (Piece.span ∘ Stretch.piece) alone
    · rw [same]
      exact shown
  · rw [here, List.cons.injEq] at same
    obtain ⟨alone, others⟩ := same
    refine ⟨by rw [alone]; rfl, .inr ⟨first, rest, ?_, solid, ?_, ?_, ?_, ?_⟩⟩
    · rw [alone]
      exact shown
    · rw [alone]
    · rw [alone]
    · rw [alone]
      exact others
    · rw [others]
      exact stretches_chars _ _

theorem Stretch.exact_of_split (split : stretches 1 text.toList = before ++ stretch :: after) :
    Stretch.Exact text before stretch after := by
  have whole : text.toList =
      before.flatMap Stretch.chars ++ stretch.trivia ++
        (stretch.piece.span ++ after.flatMap Stretch.chars) := by
    have chars := stretches_chars 1 text.toList
    rw [split, List.flatMap_append, List.flatMap_cons] at chars
    rw [← chars, Stretch.chars]
    simp only [List.append_assoc]
  have chars : (before ++ [stretch]).flatMap Stretch.chars =
      before.flatMap Stretch.chars ++ stretch.trivia ++ stretch.piece.span := by
    rw [List.flatMap_append, List.flatMap_singleton, Stretch.chars, List.append_assoc]
  obtain ⟨line, here⟩ := Stretch.head_cases split
  constructor
  case trivia =>
    rcases here with ⟨_, span, rfl, shown⟩ | ⟨first, rest, shown, _, _, span, _, behind⟩
    · rw [span]
      exact shown
    · rw [span, behind, cut_covers]
      exact shown
  case spans =>
    rcases here with ⟨found, span, rfl, _⟩ | ⟨first, rest, _, _, found, span, _, behind⟩
    · rw [found, span]
      exact .ending
    · rw [found, span, behind]
      exact cut_spans first rest
  case slice =>
    rw [chars, spell_append _ stretch.piece.span, List.length_append]
    exact slice?_spell whole
  case lexeme =>
    intro token found
    exact Piece.lexeme_item found
  case line =>
    have upTo : (encode text).take (spell ((before ++ [stretch]).flatMap Stretch.chars)).length =
        spell ((before ++ [stretch]).flatMap Stretch.chars) := by
      rw [encode_eq, whole, ← List.append_assoc, ← chars, spell_append, List.take_left]
    rw [Piece.itemLine_item, line, upTo, count_spell]
    rfl

/-- An unclosed string is the last item but the end of the text. -/
theorem Stretch.unterminated_last
    (split : stretches 1 text.toList = before ++ stretch :: after)
    (unclosed : stretch.piece.found = .error .unterminatedString) :
    after = [⟨[], ⟨.ok (.plain .endOfText), [], stretch.piece.line⟩⟩] := by
  have spans := (Stretch.exact_of_split split).spans
  have none : after.flatMap Stretch.chars = [] := by
    rw [unclosed] at spans
    generalize stretch.piece.span = span, after.flatMap Stretch.chars = behind at spans ⊢
    cases spans
    rfl
  obtain ⟨_, ⟨found, _⟩ | ⟨first, rest, _, _, _, _, same, behind⟩⟩ := Stretch.head_cases split
  · rw [unclosed] at found
    cases found
  · rw [none] at behind
    rw [same, ← behind, stretches, skipTrivia]

/-- Scanning a text is a lossless and line-exact partition of it. The calls of the cursor take no
slice that would split a character: they give the items and then nothing more. The stretches of
the text have these items and put together are its bytes. The end of the text is the last item and
no other is. Every stretch is exact where it stands, and after an unclosed string, of which there
is no other, only the end of the text follows. -/
theorem scan_partition (text : String) :
    (∀ more, Cursor.calls? text ((Token.scan text).length + more) Cursor.start =
      some ((Token.scan text).map some ++ List.replicate more none)) ∧
    (stretches 1 text.toList).map (Piece.item ∘ Stretch.piece) = Token.scan text ∧
    (stretches 1 text.toList).flatMap (spell ∘ Stretch.chars) = encode text ∧
    (∃ items line, Token.scan text = items ++ [.ok ⟨.plain .endOfText, "", line⟩] ∧
      ∀ token, .ok token ∈ items → token.is .endOfText = false) ∧
    ∀ before stretch after, stretches 1 text.toList = before ++ stretch :: after →
      Stretch.Exact text before stretch after ∧
      (stretch.piece.found = .error .unterminatedString →
        after.map (Piece.item ∘ Stretch.piece) =
          [.ok ⟨.plain .endOfText, "", stretch.piece.line⟩] ∧
        ∀ earlier ∈ before, earlier.piece.found ≠ .error .unterminatedString) := by
  have items : (stretches 1 text.toList).map (Piece.item ∘ Stretch.piece) = Token.scan text := by
    rw [Token.scan, ← stretches_pieces, List.map_map]
  refine ⟨?_, items, ?_, ?_, ?_⟩
  · intro more
    have parts : text.toList = [] ++ text.toList := rfl
    rw [Token.scan, List.length_map, List.map_map]
    exact Cursor.calls?_spell parts 1 more
  · rw [encode_eq]
    conv => rhs; rw [← stretches_chars 1 text.toList]
    exact List.flatMap_assoc.symm
  · obtain ⟨pieces, last, same, others⟩ := pieces_end 1 text.toList
    refine ⟨pieces.map Piece.item, last, ?_, ?_⟩
    · rw [Token.scan, same, List.map_append]
      rfl
    · intro token among
      obtain ⟨piece, member, found⟩ := List.mem_map.mp among
      have proper := others piece member
      rw [(Piece.lexeme_item found).2] at proper
      apply beq_eq_false_iff_ne.mpr
      intro ending
      apply proper
      cases kind : token.kind with
      | string text => rw [kind] at ending; cases ending
      | number value => rw [kind] at ending; cases ending
      | plain tag => rw [kind] at ending; cases ending; rfl
  · intro before stretch after split
    refine ⟨Stretch.exact_of_split split, ?_⟩
    intro unclosed
    constructor
    · rw [Stretch.unterminated_last split unclosed]
      rfl
    · intro earlier member unclosed'
      obtain ⟨first, rest, rfl⟩ := List.append_of_mem member
      have whole : stretches 1 text.toList = first ++ earlier :: (rest ++ stretch :: after) := by
        rw [split, List.append_assoc, List.cons_append]
      have last := Stretch.unterminated_last whole unclosed'
      have among : stretch ∈ rest ++ stretch :: after :=
        List.mem_append_right rest List.mem_cons_self
      rw [last, List.mem_singleton] at among
      rw [among] at unclosed
      cases unclosed

end Scan
end Script
