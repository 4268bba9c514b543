import Script.Proofs.Token.Respacing

/-! Characters that begin nothing act as blanks. A text with a blank in place of each of them is
scanned to the items of the text without its reports of them. -/

namespace Script
namespace Scan

/-- Whether what was found is a character that begins nothing. -/
def isUnexpected : Except LexCause Kind → Bool
  | .error (.unexpected _) => true
  | _ => false

/-- The text of a stretch, with a blank for the character if it reports one. -/
def Stretch.blanked (stretch : Stretch) : List Char :=
  stretch.trivia ++ if isUnexpected stretch.piece.found then [' '] else stretch.piece.span

/-- The text with a blank for each character that is reported as unexpected. -/
def blanked (line : Nat) (text : List Char) : List Char :=
  (stretches line text).flatMap Stretch.blanked

theorem isUnexpected_iff {found : Except LexCause Kind} :
    isUnexpected found = true ↔ ∃ char, found = .error (.unexpected char) := by
  constructor
  · intro unexpected
    unfold isUnexpected at unexpected
    split at unexpected
    · exact ⟨_, rfl⟩
    · cases unexpected
  · rintro ⟨char, rfl⟩
    rfl

/-- A character that begins nothing is cut by itself. -/
theorem cut_of_isUnexpected {first : Char} {rest : List Char}
    (unexpected : isUnexpected (cut first rest).found = true) :
    cut first rest = ⟨.error (.unexpected first), [first], rest⟩ := by
  obtain ⟨char, found⟩ := isUnexpected_iff.mp unexpected
  have spans := cut_error found
  have covered := cut_covers first rest
  generalize cut first rest = whole at found spans covered ⊢
  obtain ⟨result, span, behind⟩ := whole
  dsimp only at found spans covered
  cases spans
  cases covered
  rw [found]
  rfl

/-- A character that begins nothing goes on with nothing. -/
theorem breaks_of_isUnexpected {first : Char} {rest : List Char}
    (unexpected : isUnexpected (cut first rest).found = true) : Breaks first := by
  have alone := cut_of_isUnexpected unexpected
  have noToken (kind : Kind) : (cut first rest).found ≠ .ok kind := by simp [alone]
  constructor
  · apply Bool.eq_false_iff.mpr
    intro continues
    rw [continuesWord, Bool.or_eq_true] at continues
    rcases continues with begins | digit
    · exact noToken _ (congrArg Cut.found (cut_word begins rest))
    · rw [cut_digit digit] at noToken
      rcases Numeral.cutNumber_cases (first :: rest) with ⟨_, _, _, _, same⟩ | ⟨_, same⟩ <;>
        exact noToken _ (congrArg Cut.found same)
  · rintro rfl
    exact noToken _ rfl
  · rintro rfl
    cases rest with
    | nil => exact noToken _ rfl
    | cons next after =>
      by_cases equals : next = '='
      · subst equals
        exact noToken _ rfl
      · exact noToken (.plain .equal) (by simp [cut, mark?, equalsPair?, equals])

/-- Trivia in front of what is no line end is trivia in front of anything. -/
theorem Trivia.before {trivia rest : List Char} {first : Char}
    (shown : Trivia trivia (first :: rest)) (noEnd : first ≠ '\n') (behind : List Char) :
    Trivia trivia behind := by
  generalize same : first :: rest = ahead at shown
  induction shown with
  | nothing => exact .nothing behind
  | blank blank more ih => exact .blank blank (ih same)
  | lineEnd more ih => exact .lineEnd (ih same)
  | @comment body trivia _ inside ends more ih =>
    subst same
    refine .comment inside ?_ (ih rfl)
    cases trivia with
    | nil => exact absurd (ends first rfl) noEnd
    | cons char trivia => exact ends

/-- Trivia is skipped, and the lines that it ends are counted. -/
theorem Trivia.skipTrivia_append {trivia behind : List Char} (shown : Trivia trivia behind)
    (line : Nat) :
    skipTrivia line (trivia ++ behind) = skipTrivia (line + newlines trivia) behind := by
  induction shown generalizing line with
  | nothing => rfl
  | @blank char trivia behind blank more ih =>
    have noEnd : char ≠ '\n' := by rcases blank with rfl | rfl | rfl <;> decide
    rw [List.cons_append, skipTrivia_blank (isBlank_iff.mpr blank), ih, newlines_cons noEnd]
  | lineEnd more ih =>
    rw [List.cons_append, skipTrivia, ih, newlines_cons_end, Nat.add_right_comm, Nat.add_assoc]
  | @comment body trivia behind inside ends more ih =>
    have all : ∀ char ∈ body, (char != '\n') = true := by
      intro char member
      apply bne_iff_ne.mpr
      rintro rfl
      exact inside member
    have left : (trivia ++ behind).dropWhile (· != '\n') = trivia ++ behind := by
      cases found : trivia ++ behind with
      | nil => rfl
      | cons next after =>
        rw [found] at ends
        rw [ends next rfl, List.dropWhile_cons_of_neg (by decide)]
    have none : newlines body = 0 := List.count_eq_zero.mpr inside
    rw [List.cons_append, List.cons_append, List.append_assoc, skipTrivia,
      List.dropWhile_append_of_pos all, left, ih, newlines_cons (by decide),
      newlines_cons (by decide), newlines_append, none, Nat.zero_add]

theorem Trivia.pieces_append {trivia behind : List Char} (shown : Trivia trivia behind)
    (line : Nat) : pieces line (trivia ++ behind) = pieces (line + newlines trivia) behind := by
  rw [pieces_eq, shown.skipTrivia_append, ← pieces_eq]

/-- Nothing but trivia is left as it is. -/
theorem blanked_trivia {line last : Nat} {text : List Char}
    (same : stretches line text = [⟨text, ⟨.ok (.plain .endOfText), [], last⟩⟩]) :
    blanked line text = text := by
  rw [blanked, same]
  simp [Stretch.blanked, isUnexpected]

/-- One step of blanking: the trivia stays, and so does what is cut behind it, unless it is a
character that begins nothing. -/
theorem blanked_cases (line : Nat) (text : List Char) :
    (Trivia text [] ∧ blanked line text = text) ∨
    ∃ trivia first rest, text = trivia ++ first :: rest ∧ Trivia trivia (first :: rest) ∧
      ¬TriviaBegins (first :: rest) ∧
      blanked line text =
        trivia ++ (if isUnexpected (cut first rest).found then [' '] else (cut first rest).span) ++
          blanked (line + newlines (trivia ++ (cut first rest).span)) (cut first rest).rest := by
  rcases stretches_cases line text with ⟨shown, same⟩ | ⟨trivia, first, rest, split, shown, solid,
    same⟩
  · left
    exact ⟨shown, blanked_trivia same⟩
  · right
    refine ⟨trivia, first, rest, split, shown, solid, ?_⟩
    rw [blanked, same, List.flatMap_cons]
    rfl

/-- A text with blanks for some characters: it is the same text up to the first of them. -/
theorem blanked_agrees (line : Nat) (text : List Char) :
    blanked line text = text ∨
    ∃ kept stop others others', text = kept ++ stop :: others ∧
      blanked line text = kept ++ ' ' :: others' ∧ Breaks stop := by
  induction total : text.length using Nat.strongRecOn generalizing line text with
  | ind size ih =>
    rcases blanked_cases line text with ⟨_, same⟩ | ⟨trivia, first, rest, split, _, _, same⟩
    · exact .inl same
    · have taken := cut_rest_length first rest
      have shorter : (cut first rest).rest.length < size := by
        rw [← total, split, List.length_append, List.length_cons]
        omega
      by_cases unexpected : isUnexpected (cut first rest).found = true
      · right
        rw [if_pos unexpected, List.append_assoc] at same
        exact ⟨trivia, first, rest, _, split, same, breaks_of_isUnexpected unexpected⟩
      · rw [if_neg unexpected] at same
        have covered : text = trivia ++ (cut first rest).span ++ (cut first rest).rest := by
          rw [List.append_assoc, cut_covers, split]
        rcases ih _ shorter _ _ rfl with
          equal | ⟨kept, stop, others, others', before, after, breaks⟩
        · left
          rw [same, equal, ← covered]
        · right
          refine ⟨trivia ++ (cut first rest).span ++ kept, stop, others, others', ?_, ?_, breaks⟩
          · rw [covered, before, List.append_assoc _ kept]
          · rw [same, after, List.append_assoc _ kept]

theorem blanked_nil (line : Nat) : blanked line [] = [] := by
  rcases blanked_agrees line [] with same | ⟨kept, stop, others, _, split, _⟩
  · exact same
  · exact absurd split.symm (by simp)

/-- A token is cut as what it is with blanks for characters behind it. -/
theorem cut_blanked_token {first : Char} {rest : List Char} {kind : Kind}
    (found : (cut first rest).found = .ok kind) (line : Nat) :
    ∃ body, (cut first rest).span = first :: body ∧
      cut first (body ++ blanked line (cut first rest).rest) =
        ⟨.ok kind, first :: body, blanked line (cut first rest).rest⟩ := by
  have shown := cut_lexeme found
  have covered := cut_covers first rest
  obtain ⟨head, body, spelled⟩ := List.exists_cons_of_ne_nil shown.ne_nil
  rw [spelled, List.cons_append, List.cons.injEq] at covered
  obtain ⟨rfl, covered⟩ := covered
  have whole : cut head rest = ⟨.ok kind, head :: body, (cut head rest).rest⟩ := by
    rw [← found, ← spelled]
  refine ⟨body, spelled, ?_⟩
  rcases blanked_agrees line (cut head rest).rest with
    same | ⟨kept, stop, others, others', before, after, breaks⟩
  · rw [same, covered, ← whole]
  · -- Both texts are cut like the part that they share, which goes up to a break.
    rw [spelled] at shown
    obtain ⟨other, _, taken, _⟩ :=
      shown.takes (@List.cons_append _ head body kept).symm
    have closed : (cut head (body ++ kept)).found ≠ .error .unterminatedString := by simp [taken]
    have ahead := cut_break breaks others closed
    rw [List.append_assoc, ← before, covered, whole, Cut.before, Cut.mk.injEq] at ahead
    obtain ⟨sameFound, sameSpan, sameRest⟩ := ahead
    rw [before] at sameRest
    have left := List.append_cancel_right sameRest
    have breaksBlank : Breaks ' ' := ⟨by decide, by decide, by decide⟩
    rw [after, ← List.append_assoc, cut_break breaksBlank others' closed, Cut.before, ← sameFound,
      ← sameSpan, ← left]

/-- What is cut is cut so with blanks for characters behind it, unless it is one of these. -/
theorem cut_blanked {first : Char} {rest : List Char}
    (kept : ¬isUnexpected (cut first rest).found = true) (line : Nat) :
    ∃ body, (cut first rest).span = first :: body ∧
      cut first (body ++ blanked line (cut first rest).rest) =
        ⟨(cut first rest).found, first :: body, blanked line (cut first rest).rest⟩ := by
  cases found : (cut first rest).found with
  | ok kind => exact cut_blanked_token found line
  | error cause =>
    have spans := cut_error found
    have covered := cut_covers first rest
    rw [found] at kept
    generalize same : cut first rest = whole at found spans covered ⊢
    obtain ⟨result, span, behind⟩ := whole
    dsimp only at found spans covered ⊢
    subst found
    cases spans with
    | unexpected char => exact absurd rfl kept
    | unterminated unclosed =>
      rw [List.append_nil, List.cons.injEq] at covered
      obtain ⟨rfl, rfl⟩ := covered
      exact ⟨_, rfl, by rw [blanked_nil, List.append_nil, same]⟩

/-- No trivia begins at a token, whatever characters behind it are blanks. -/
theorem skipTrivia_blanked {first : Char} {body rest : List Char}
    (solid : ¬TriviaBegins (first :: (body ++ rest))) (line next : Nat) :
    skipTrivia line (first :: (body ++ blanked next rest)) =
      (line, first :: (body ++ blanked next rest)) := by
  have noEnd : first ≠ '\n' := by
    rintro rfl
    exact solid ⟨['\n'], _, rfl, by simp, .lineEnd (.nothing _)⟩
  have noBlank : ¬isBlank first = true := fun blank =>
    solid ⟨[first], _, rfl, by simp, .blank (isBlank_iff.mp blank) (.nothing _)⟩
  have noSlash (slash : first = '/') : (body ++ rest).head? ≠ some '/' := by
    intro twice
    obtain ⟨after, same⟩ := List.head?_eq_some_iff.mp twice
    subst slash
    rw [same] at solid
    refine solid ⟨'/' :: '/' :: (after.takeWhile (· != '\n') ++ []), after.dropWhile (· != '\n'),
      ?_, by simp, .comment (lineEnd_not_mem_takeWhile after) ?_ (.nothing _)⟩
    · rw [List.append_nil, List.cons_append, List.cons_append, List.takeWhile_append_dropWhile]
    · rw [List.nil_append]
      exact head?_dropWhile_lineEnd after
  apply skipTrivia_stop noEnd _ noBlank
  intro others slash twice
  apply noSlash slash
  -- The first character behind the token is a blank now only if it was no slash.
  rcases blanked_agrees next rest with same | ⟨kept, stop, _, _, before, after, _⟩
  · rw [← same, twice]
    rfl
  · rw [after, ← List.append_assoc] at twice
    rw [before, ← List.append_assoc]
    cases shared : body ++ kept with
    | nil =>
      rw [shared] at twice
      cases twice
    | cons head tail =>
      rw [shared] at twice
      cases twice
      rfl

/-- The first piece of a text with blanks for its unexpected characters: it is the first piece of
the text, unless that is such a character. -/
theorem pieces_blanked_cons {trivia rest : List Char} {first : Char} (line next : Nat)
    (shown : Trivia trivia (first :: rest)) (solid : ¬TriviaBegins (first :: rest)) :
    pieces line
        (trivia ++ (if isUnexpected (cut first rest).found then [' '] else (cut first rest).span) ++
          blanked next (cut first rest).rest) =
      [⟨(cut first rest).found, (cut first rest).span,
          line + newlines (trivia ++ (cut first rest).span)⟩].filter (!isUnexpected ·.found) ++
        pieces (line + newlines (trivia ++ (cut first rest).span))
          (blanked next (cut first rest).rest) := by
  have noEnd : first ≠ '\n' := by
    rintro rfl
    exact solid ⟨['\n'], _, rfl, by simp, .lineEnd (.nothing _)⟩
  by_cases unexpected : isUnexpected (cut first rest).found = true
  · have blank : ∀ char ∈ [' '], IsSpace char := List.forall_mem_singleton.mpr (.inl rfl)
    rw [if_pos unexpected, List.append_assoc, (shown.before noEnd _).pieces_append,
      pieces_spaces blank, List.filter_cons_of_neg (by simp [unexpected]), List.filter_nil,
      cut_of_isUnexpected unexpected, newlines_append, newlines_cons noEnd]
    rfl
  · obtain ⟨body, spelled, same⟩ := cut_blanked unexpected next
    have covered := cut_covers first rest
    rw [spelled, List.cons_append, List.cons.injEq] at covered
    rw [← covered.2] at solid
    rw [if_neg unexpected, List.append_assoc, spelled, List.cons_append,
      (shown.before noEnd _).pieces_append, pieces_eq, skipTrivia_blanked solid]
    dsimp only
    rw [same, List.filter_cons_of_pos (by simp [unexpected]), newlines_append, ← Nat.add_assoc]
    rfl

/-- The pieces of a text with blanks for its unexpected characters are its other pieces. -/
theorem pieces_blanked (line : Nat) (text : List Char) :
    pieces line (blanked line text) = (pieces line text).filter (!isUnexpected ·.found) := by
  induction total : text.length using Nat.strongRecOn generalizing line text with
  | ind size ih =>
    rcases stretches_cases line text with
      ⟨_, same⟩ | ⟨trivia, first, rest, split, shown, solid, same⟩
    · rw [blanked_trivia same, ← stretches_pieces, same]
      rfl
    · have taken := cut_rest_length first rest
      have shorter : (cut first rest).rest.length < size := by
        rw [← total, split, List.length_append, List.length_cons]
        omega
      have step := pieces_blanked_cons line (line + newlines (trivia ++ (cut first rest).span))
        shown solid
      rw [ih _ shorter _ _ rfl, ← List.filter_append] at step
      rw [← stretches_pieces line text, blanked, same, List.map_cons, stretches_pieces,
        List.flatMap_cons, ← blanked]
      exact step

end Scan

namespace Token

open Scan

/-- The text with a blank for each character that is reported as unexpected. -/
def blanked (text : String) : String := String.ofList (Scan.blanked 1 text.toList)

/-- Whether an item reports a character that begins nothing. -/
def reportsUnexpected : Except LexError Token → Bool
  | .error error => isUnexpected (.error error.cause)
  | .ok _ => false

theorem reportsUnexpected_item (piece : Piece) :
    reportsUnexpected piece.item = isUnexpected piece.found := by
  unfold Piece.item
  split <;> rename_i found <;> rw [found] <;> rfl

theorem good_reported (items : List (Except LexError Token)) :
    good (items.filter (!reportsUnexpected ·)) = good items := by
  induction items with
  | nil => rfl
  | cons item items ih =>
    cases item with
    | ok token => exact congrArg (token :: ·) ih
    | error error =>
      rw [List.filter_cons]
      split
      · exact ih
      · exact ih

theorem faults_reported (items : List (Except LexError Token)) :
    faults (items.filter (!reportsUnexpected ·)) =
      (faults items).filter (·.cause = .unterminatedString) := by
  induction items with
  | nil => rfl
  | cons item items ih =>
    rcases item with ⟨cause | _, line⟩ | token
    · exact ih
    · exact congrArg (_ :: ·) ih
    · exact ih

/-- Unexpected characters act as blanks. The text that has one blank in place of each code point
that is reported, and is else the same, is scanned without any such report to the other items of
the text: to the same tokens on the same lines, and to the same unclosed string if there is one. -/
theorem unexpected_act_as_blanks (text : String) :
    ((stretches 1 text.toList).flatMap Stretch.chars = text.toList ∧
      (blanked text).toList = (stretches 1 text.toList).flatMap Stretch.blanked ∧
      ∀ stretch ∈ stretches 1 text.toList, ∀ char,
        stretch.piece.found = .error (.unexpected char) → stretch.piece.span = [char]) ∧
    scan (blanked text) = (scan text).filter (!reportsUnexpected ·) ∧
    (∀ error ∈ faults (scan (blanked text)), error.cause = .unterminatedString) ∧
    good (scan (blanked text)) = good (scan text) ∧
    faults (scan (blanked text)) =
      (faults (scan text)).filter (·.cause = .unterminatedString) := by
  have items : scan (blanked text) = (scan text).filter (!reportsUnexpected ·) := by
    rw [scan, blanked, String.toList_ofList, pieces_blanked, scan, List.filter_map]
    simp only [Function.comp_def, reportsUnexpected_item]
  refine ⟨⟨stretches_chars 1 text.toList, String.toList_ofList, ?_⟩, items, ?_, ?_, ?_⟩
  · intro stretch member char found
    obtain ⟨before, after, split⟩ := List.append_of_mem member
    have spans := (Stretch.exact_of_split split).spans
    rw [found] at spans
    generalize stretch.piece.span = span at spans
    cases spans
    rfl
  · intro error member
    rw [items, faults_reported, List.mem_filter] at member
    simpa using member.2
  · rw [items, good_reported]
  · rw [items, faults_reported]

/-- Inside strings and comments no character is unexpected. -/
example : blanked "a#b \"#\" // #" = "a b \"#\" // #" := by decide +kernel

end Token
end Script
