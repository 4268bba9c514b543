import Script.Proofs.Token.Concatenation

/-! A text taken apart without loss: its items in the order they are read, each behind the trivia
in front of it. What stands behind an item is taken apart like a text of its own. -/

namespace Script
namespace Scan

/-- What separates items: blanks, line ends, and comments that run to a line end or to the end of
the text. The second text is what stands behind. -/
inductive Trivia : List Char → List Char → Prop where
  | nothing (behind : List Char) : Trivia [] behind
  | blank {char : Char} {trivia behind : List Char}
      (blank : char = ' ' ∨ char = '\r' ∨ char = '\t') (more : Trivia trivia behind) :
      Trivia (char :: trivia) behind
  | lineEnd {trivia behind : List Char} (more : Trivia trivia behind) :
      Trivia ('\n' :: trivia) behind
  | comment {body trivia behind : List Char} (inside : '\n' ∉ body)
      (ends : ∀ next ∈ (trivia ++ behind).head?, next = '\n') (more : Trivia trivia behind) :
      Trivia ('/' :: '/' :: (body ++ trivia)) behind

/-- Trivia begins at the head of a text. -/
def TriviaBegins (text : List Char) : Prop :=
  ∃ trivia behind, text = trivia ++ behind ∧ trivia ≠ [] ∧ Trivia trivia behind

theorem isBlank_iff {char : Char} :
    isBlank char = true ↔ char = ' ' ∨ char = '\r' ∨ char = '\t' := by
  simp only [isBlank, Bool.or_eq_true, beq_iff_eq, or_assoc]

theorem head?_dropWhile_lineEnd (text : List Char) :
    ∀ next ∈ (text.dropWhile (· != '\n')).head?, next = '\n' := by
  intro next found
  have stops := List.head?_dropWhile_not (· != '\n') text
  rw [found] at stops
  simpa using stops

theorem lineEnd_not_mem_takeWhile (text : List Char) : '\n' ∉ text.takeWhile (· != '\n') := by
  intro among
  have kept := List.all_eq_true.mp List.all_takeWhile _ among
  simp at kept

/-- What is skipped is trivia. -/
theorem skipTrivia_split (line : Nat) (text : List Char) :
    ∃ trivia, text = trivia ++ (skipTrivia line text).2 ∧
      Trivia trivia (skipTrivia line text).2 := by
  fun_induction skipTrivia line text with
  | case1 => exact ⟨[], rfl, .nothing _⟩
  | case2 line rest ih =>
    obtain ⟨trivia, split, shown⟩ := ih
    exact ⟨'\n' :: trivia, congrArg ('\n' :: ·) split, .lineEnd shown⟩
  | case3 line rest ih =>
    obtain ⟨trivia, split, shown⟩ := ih
    refine ⟨'/' :: '/' :: (rest.takeWhile (· != '\n') ++ trivia), ?_, ?_⟩
    · rw [List.cons_append, List.cons_append, List.append_assoc, ← split,
        List.takeWhile_append_dropWhile]
    · refine .comment (lineEnd_not_mem_takeWhile rest) ?_ shown
      rw [← split]
      exact head?_dropWhile_lineEnd rest
  | case4 line char rest _ _ blank ih =>
    obtain ⟨trivia, split, shown⟩ := ih
    exact ⟨char :: trivia, congrArg (char :: ·) split, .blank (isBlank_iff.mp blank) shown⟩
  | case5 => exact ⟨[], rfl, .nothing _⟩

/-- Nothing that could be skipped is left. -/
theorem skipTrivia_solid (line : Nat) (text : List Char) :
    ¬TriviaBegins (skipTrivia line text).2 := by
  rintro ⟨trivia, behind, split, nonempty, shown⟩
  fun_induction skipTrivia line text with
  | case1 =>
    rw [List.nil_eq_append_iff] at split
    exact nonempty split.1
  | case2 line rest ih => exact ih split
  | case3 line rest ih => exact ih split
  | case4 line char rest _ _ blank ih => exact ih split
  | case5 line char rest noEnd noComment solid =>
    cases shown with
    | nothing => exact nonempty rfl
    | blank blank more =>
      rw [List.cons_append, List.cons.injEq] at split
      rw [split.1] at solid
      exact solid (isBlank_iff.mpr blank)
    | lineEnd more =>
      rw [List.cons_append, List.cons.injEq] at split
      exact noEnd split.1
    | comment inside ends more =>
      rw [List.cons_append, List.cons.injEq] at split
      exact noComment _ split.1 split.2

/-- An item of a text with the trivia in front of it. -/
structure Stretch where
  trivia : List Char
  piece : Piece

/-- The text that a stretch covers. -/
def Stretch.chars (stretch : Stretch) : List Char := stretch.trivia ++ stretch.piece.span

/-- The items of a text that starts on `line`, each with the trivia in front of it. -/
def stretches (line : Nat) (text : List Char) : List Stretch :=
  match _trimmed : skipTrivia line text with
  | (last, []) => [⟨text, ⟨.ok (.plain .endOfText), [], last⟩⟩]
  | (start, first :: rest) =>
    let next := cut first rest
    let stop := start + next.span.count '\n'
    ⟨text.take (text.length - (first :: rest).length), ⟨next.found, next.span, stop⟩⟩ ::
      stretches stop next.rest
  termination_by text.length
  decreasing_by
    have kept := skipTrivia_length line text
    have taken := cut_rest_length first rest
    simp only [_trimmed, List.length_cons] at kept
    omega

/-- The first stretch of a text is its trivia and what is cut behind it, or all of the text if it
is trivia only. -/
theorem stretches_cases (line : Nat) (text : List Char) :
    (Trivia text [] ∧
      stretches line text = [⟨text, ⟨.ok (.plain .endOfText), [], line + newlines text⟩⟩]) ∨
    ∃ trivia first rest, text = trivia ++ first :: rest ∧ Trivia trivia (first :: rest) ∧
      ¬TriviaBegins (first :: rest) ∧
      stretches line text =
        ⟨trivia, ⟨(cut first rest).found, (cut first rest).span,
          line + newlines (trivia ++ (cut first rest).span)⟩⟩ ::
        stretches (line + newlines (trivia ++ (cut first rest).span)) (cut first rest).rest := by
  obtain ⟨trivia, split, shown⟩ := skipTrivia_split line text
  have solid := skipTrivia_solid line text
  have count := skipTrivia_count line text
  rw [stretches]
  split
  · rename_i last trimmed
    rw [trimmed] at split shown count
    dsimp only at split shown count
    left
    rw [List.append_nil] at split
    have line : last = line + newlines text := count
    exact ⟨split ▸ shown, by rw [line]⟩
  · rename_i start first rest trimmed
    rw [trimmed] at split shown count solid
    dsimp only at split shown count solid
    right
    refine ⟨trivia, first, rest, split, shown, solid, ?_⟩
    have taken : text.take (text.length - (first :: rest).length) = trivia := by
      rw [split, List.length_append, Nat.add_sub_cancel, List.take_left]
    have stop : start + (cut first rest).span.count '\n' =
        line + newlines (trivia ++ (cut first rest).span) := by
      rw [split, newlines_append] at count
      rw [newlines_append]
      change start + newlines (cut first rest).span = _
      omega
    dsimp only
    rw [taken, stop]

/-- A stretch of items is made of the pieces of the text. -/
theorem stretches_pieces (line : Nat) (text : List Char) :
    (stretches line text).map Stretch.piece = pieces line text := by
  fun_induction stretches line text with
  | case1 line text last trimmed => rw [pieces_eq, trimmed]; rfl
  | case2 line text start first rest trimmed next stop ih =>
    rw [pieces_eq, trimmed, List.map_cons, ih]

/-- The stretches of a text put together are the text. -/
theorem stretches_chars (line : Nat) (text : List Char) :
    (stretches line text).flatMap Stretch.chars = text := by
  induction total : text.length using Nat.strongRecOn generalizing line text with
  | ind size ih =>
    rcases stretches_cases line text with
      ⟨_, same⟩ | ⟨trivia, first, rest, split, _, _, same⟩
    · rw [same]
      simp [Stretch.chars]
    · have taken := cut_rest_length first rest
      have shorter : (cut first rest).rest.length < size := by
        rw [← total, split, List.length_append, List.length_cons]
        omega
      rw [same, List.flatMap_cons, ih _ shorter _ _ rfl, Stretch.chars, List.append_assoc,
        cut_covers, split]

/-- A stretch and those behind it are the stretches of the text from there on. -/
theorem stretches_split {line : Nat} {text : List Char} {before after : List Stretch}
    {stretch : Stretch} (split : stretches line text = before ++ stretch :: after) :
    stretches (line + newlines (before.flatMap Stretch.chars))
      (stretch.chars ++ after.flatMap Stretch.chars) = stretch :: after := by
  induction before generalizing line text with
  | nil =>
    have whole := stretches_chars line text
    rw [split, List.nil_append, List.flatMap_cons] at whole
    rw [whole]
    exact split
  | cons head before ih =>
    rcases stretches_cases line text with ⟨_, same⟩ | ⟨trivia, first, rest, _, _, _, same⟩
    · rw [same] at split
      simp at split
    · rw [same, List.cons_append, List.cons.injEq] at split
      obtain ⟨here, behind⟩ := split
      have next := ih behind
      rw [Nat.add_assoc, ← newlines_append] at next
      rw [List.flatMap_cons, ← here]
      exact next

end Scan
end Script
