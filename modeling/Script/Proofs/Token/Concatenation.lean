import Script.Source

/-! Texts in a row. A line end cuts every item but an unclosed string, so a text, a line end and
another text are scanned to the items of the two, the later ones on later lines. -/

namespace Script

namespace Token

theorem good_append (items others : List (Except LexError Token)) :
    good (items ++ others) = good items ++ good others := List.filterMap_append

theorem faults_append (items others : List (Except LexError Token)) :
    faults (items ++ others) = faults items ++ faults others := List.filterMap_append

theorem good_ok (tokens : List Token) : good (tokens.map .ok) = tokens := by
  induction tokens with
  | nil => rfl
  | cons token rest ih => exact congrArg (token :: ·) ih

theorem faults_ok (tokens : List Token) : faults (tokens.map .ok) = [] := by
  induction tokens with
  | nil => rfl
  | cons token rest ih => exact ih

/-- Items among which no error is are tokens. -/
theorem eq_good_of_faultless {items : List (Except LexError Token)}
    (faultless : faults items = []) :
    items = (good items).map .ok := by
  induction items with
  | nil => rfl
  | cons item items ih =>
    cases item with
    | error error => cases faultless
    | ok token => exact congrArg (.ok token :: ·) (ih faultless)

theorem mem_faults {items : List (Except LexError Token)} {error : LexError} :
    error ∈ faults items ↔ .error error ∈ items := by
  rw [faults, List.mem_filterMap]
  constructor
  · rintro ⟨item, member, found⟩
    cases item with
    | error other =>
      cases found
      exact member
    | ok token => cases found
  · intro member
    exact ⟨_, member, rfl⟩

end Token

namespace Scan

/-- How many lines a text ends. -/
def newlines (text : List Char) : Nat := text.count '\n'

variable {keep : Char → Bool}

/-- A character that no word, number or operator goes on with. -/
structure Breaks (stop : Char) : Prop where
  word : continuesWord stop = false
  point : stop ≠ '.'
  equals : stop ≠ '='

theorem Breaks.digit {stop : Char} (breaks : Breaks stop) : isDigit stop = false :=
  (Bool.or_eq_false_iff.mp breaks.word).2

theorem breaks_lineEnd : Breaks '\n' := ⟨by decide, by decide, by decide⟩

variable {stop : Char}

theorem takeWhile_break (text behind : List Char) (stops : keep stop = false) :
    (text ++ stop :: behind).takeWhile keep = text.takeWhile keep := by
  induction text with
  | nil => simp [stops]
  | cons first rest ih =>
    rw [List.cons_append, List.takeWhile_cons, List.takeWhile_cons, ih]

theorem dropWhile_break (text behind : List Char) (stops : keep stop = false) :
    (text ++ stop :: behind).dropWhile keep = text.dropWhile keep ++ stop :: behind := by
  induction text with
  | nil => simp [stops]
  | cons first rest ih =>
    rw [List.cons_append, List.dropWhile_cons, List.dropWhile_cons, ih]
    split <;> rfl

/-- The same cut with more text behind it. -/
def Cut.before (behind : List Char) (cut : Cut) : Cut := { cut with rest := cut.rest ++ behind }

theorem cutWord_break (breaks : Breaks stop) (text behind : List Char) :
    cutWord (text ++ stop :: behind) = (cutWord text).before (stop :: behind) := by
  simp only [cutWord, Cut.before, takeWhile_break text behind breaks.word,
    dropWhile_break text behind breaks.word]

/-- A point in front of a break is no part of a number. -/
theorem cutNumber_break (breaks : Breaks stop) (text behind : List Char) :
    cutNumber (text ++ stop :: behind) = (cutNumber text).before (stop :: behind) := by
  unfold cutNumber
  rw [takeWhile_break text behind breaks.digit, dropWhile_break text behind breaks.digit]
  cases text.dropWhile isDigit with
  | nil => simp [breaks.point, Cut.before]
  | cons point after =>
    by_cases dotted : point = '.'
    · subst dotted
      cases after with
      | nil => simp [breaks.digit, Cut.before]
      | cons digit others =>
        have fraction : (digit :: (others ++ stop :: behind)).takeWhile isDigit =
            (digit :: others).takeWhile isDigit :=
          takeWhile_break (digit :: others) behind breaks.digit
        have left : (digit :: (others ++ stop :: behind)).dropWhile isDigit =
            (digit :: others).dropWhile isDigit ++ stop :: behind :=
          dropWhile_break (digit :: others) behind breaks.digit
        simp only [List.cons_append, fraction, left, Cut.before]
        split <;> rfl
    · simp [dotted, Cut.before]

/-- A string that is closed ends at its quote, whatever stands behind. -/
theorem cutString_before {text : List Char} (behind : List Char)
    (closed : (cutString text).found ≠ .error .unterminatedString) :
    cutString (text ++ behind) = (cutString text).before behind := by
  unfold cutString at closed ⊢
  cases found : text.dropWhile (· != '"') with
  | nil =>
    rw [found] at closed
    exact absurd rfl closed
  | cons quote rest =>
    have whole := congrArg List.length
      (List.takeWhile_append_dropWhile (p := (· != '"')) (l := text))
    rw [List.length_append, found, List.length_cons] at whole
    have short : (text.takeWhile (· != '"')).length ≠ text.length := by omega
    simp only [List.dropWhile_append, found, List.takeWhile_append, short, ↓reduceIte,
      List.isEmpty_cons, Bool.false_eq_true]
    rfl

/-- What is cut before a break does not depend on what stands behind it. -/
theorem cut_break (breaks : Breaks stop) {first : Char} {rest : List Char} (behind : List Char)
    (closed : (cut first rest).found ≠ .error .unterminatedString) :
    cut first (rest ++ stop :: behind) = (cut first rest).before (stop :: behind) := by
  unfold cut at closed ⊢
  cases marked : mark? first with
  | some tag => rfl
  | none =>
    cases paired : equalsPair? first with
    | some pair =>
      obtain ⟨single, double⟩ := pair
      cases rest with
      | nil => simp [breaks.equals, Cut.before]
      | cons next after =>
        by_cases equals : next = '='
        · subst equals
          rfl
        · simp [equals, Cut.before]
    | none =>
      simp only [marked, paired] at closed
      dsimp only
      by_cases quotes : first = '"'
      · rw [if_pos quotes] at closed ⊢
        rw [if_pos quotes]
        exact cutString_before (stop :: behind) closed
      · rw [if_neg quotes, if_neg quotes]
        split
        · exact cutNumber_break breaks (first :: rest) behind
        · split
          · exact cutWord_break breaks (first :: rest) behind
          · rfl

theorem newlines_append (first second : List Char) :
    newlines (first ++ second) = newlines first + newlines second := List.count_append

theorem newlines_cons_end (rest : List Char) : newlines ('\n' :: rest) = newlines rest + 1 :=
  List.count_cons_self

theorem newlines_cons {char : Char} (other : char ≠ '\n') (rest : List Char) :
    newlines (char :: rest) = newlines rest :=
  List.count_cons_of_ne other

/-- A comment ends no line. -/
theorem newlines_dropWhile (rest : List Char) :
    newlines (rest.dropWhile (· != '\n')) = newlines rest := by
  have none : newlines (rest.takeWhile (· != '\n')) = 0 := by
    apply List.count_eq_zero.mpr
    intro member
    have kept := List.all_eq_true.mp List.all_takeWhile _ member
    simp at kept
  have parts := congrArg newlines
    (List.takeWhile_append_dropWhile (p := (· != '\n')) (l := rest))
  rw [newlines_append, none, Nat.zero_add] at parts
  exact parts

theorem skipTrivia_blank {char : Char} (blank : isBlank char = true) (line : Nat)
    (rest : List Char) : skipTrivia line (char :: rest) = skipTrivia line rest := by
  rw [skipTrivia]
  · rw [if_pos blank]
  · rintro rfl
    cases blank
  · rintro _ rfl
    cases blank

theorem skipTrivia_stop {char : Char} {rest : List Char} (noEnd : char = '\n' → False)
    (noComment : ∀ others, char = '/' → rest = '/' :: others → False)
    (solid : ¬isBlank char = true) (line : Nat) :
    skipTrivia line (char :: rest) = (line, char :: rest) := by
  rw [skipTrivia]
  · rw [if_neg solid]
  · exact noEnd
  · exact noComment

theorem skipTrivia_count (line : Nat) (text : List Char) :
    (skipTrivia line text).1 + newlines (skipTrivia line text).2 = line + newlines text := by
  fun_induction skipTrivia line text with
  | case1 line => rfl
  | case2 line rest ih =>
    rw [ih, newlines_cons_end]
    omega
  | case3 line rest ih =>
    rw [ih, newlines_dropWhile, newlines_cons (by decide), newlines_cons (by decide)]
  | case4 line char rest noEnd _ _ ih => rw [ih, newlines_cons noEnd]
  | case5 => rfl

/-- Trivia in front of a line end. If nothing else stands there, the line end is trivia too. -/
theorem skipTrivia_line_end (line : Nat) (text behind : List Char) :
    skipTrivia line (text ++ '\n' :: behind) =
      match skipTrivia line text with
      | (last, []) => skipTrivia (last + 1) behind
      | (start, first :: rest) => (start, first :: (rest ++ '\n' :: behind)) := by
  fun_induction skipTrivia line text with
  | case1 line => rw [List.nil_append, skipTrivia]
  | case2 line rest ih => rw [List.cons_append, skipTrivia, ih]
  | case3 line rest ih =>
    rw [List.cons_append, List.cons_append, skipTrivia, dropWhile_break rest behind (by decide),
      ih]
  | case4 line char rest noEnd noComment blank ih =>
    rw [List.cons_append, skipTrivia_blank blank, ih]
  | case5 line char rest noEnd noComment solid =>
    rw [List.cons_append]
    apply skipTrivia_stop noEnd _ solid
    intro others slash same
    cases rest with
    | nil => cases same
    | cons next after =>
      cases same
      exact noComment after slash rfl

theorem pieces_ne_nil (line : Nat) (text : List Char) : pieces line text ≠ [] := by
  rw [pieces_eq]
  split <;> simp

/-- The items of a text, a line end and another text, if no string is open at the line end. -/
theorem pieces_line_end {line : Nat} {text : List Char} (behind : List Char)
    (closed : ∀ piece ∈ pieces line text, piece.found ≠ .error .unterminatedString) :
    pieces line (text ++ '\n' :: behind) =
      (pieces line text).dropLast ++ pieces (line + newlines text + 1) behind := by
  -- The induction is on the length of what is left of the first text.
  induction size : text.length using Nat.strongRecOn generalizing line text with
  | ind size ih =>
    have count := skipTrivia_count line text
    have shorter := skipTrivia_length line text
    have joined := skipTrivia_line_end line text behind
    rw [pieces_eq line text] at closed ⊢
    rw [pieces_eq line (text ++ '\n' :: behind), joined]
    generalize skipTrivia line text = trimmed at count shorter closed ⊢
    obtain ⟨start, left⟩ := trimmed
    dsimp only at count shorter
    cases left with
    | nil =>
      have same : line + newlines text = start := count.symm
      rw [same]
      dsimp only
      rw [← pieces_eq, List.dropLast_singleton, List.nil_append]
    | cons first rest =>
      obtain ⟨here, others⟩ := List.forall_mem_cons.mp closed
      have covered := congrArg newlines (cut_covers first rest)
      have taken := cut_rest_length first rest
      rw [newlines_append] at covered
      rw [List.length_cons] at shorter
      dsimp only
      rw [cut_break breaks_lineEnd behind here]
      dsimp only [Cut.before]
      rw [ih _ (by omega) others rfl, List.dropLast_cons_of_ne_nil (pieces_ne_nil _ _),
        List.cons_append]
      have line : start + (cut first rest).span.count '\n' + newlines (cut first rest).rest =
          line + newlines text := by
        change start + newlines (cut first rest).span + _ = _
        omega
      rw [line]

def Piece.shift (lines : Nat) (piece : Piece) : Piece :=
  { piece with line := piece.line + lines }

theorem skipTrivia_shift (lines line : Nat) (text : List Char) :
    skipTrivia (line + lines) text =
      ((skipTrivia line text).1 + lines, (skipTrivia line text).2) := by
  fun_induction skipTrivia line text with
  | case1 line => rw [skipTrivia]
  | case2 line rest ih => rw [skipTrivia, ← ih, Nat.add_right_comm]
  | case3 line rest ih => rw [skipTrivia, ih]
  | case4 line char rest _ _ blank ih => rw [skipTrivia_blank blank, ih]
  | case5 line char rest noEnd noComment solid => rw [skipTrivia_stop noEnd noComment solid]

/-- The same text further down. -/
theorem pieces_shift (lines line : Nat) (text : List Char) :
    pieces (line + lines) text = (pieces line text).map (Piece.shift lines) := by
  induction size : text.length using Nat.strongRecOn generalizing line text with
  | ind size ih =>
    have shorter := skipTrivia_length line text
    rw [pieces_eq, pieces_eq line, skipTrivia_shift]
    generalize skipTrivia line text = trimmed at shorter ⊢
    obtain ⟨start, left⟩ := trimmed
    cases left with
    | nil => rfl
    | cons first rest =>
      have taken := cut_rest_length first rest
      rw [List.length_cons] at shorter
      dsimp only
      rw [Nat.add_right_comm, ih _ (by omega) _ _ rfl]
      rfl

theorem wordTag_ne_endOfText (word : String) : wordTag word ≠ .endOfText := by
  unfold wordTag
  cases found : keywords.lookup word with
  | none => simp
  | some tag =>
    obtain ⟨before, after, split, _⟩ := List.lookup_eq_some_iff.mp found
    have member : (word, tag) ∈ keywords := by simp [split]
    have tags : ∀ entry ∈ keywords, entry.2 ≠ .endOfText := by decide
    exact tags _ member

/-- No item of a text but the last is its end. -/
theorem cut_ne_endOfText (first : Char) (rest : List Char) :
    (cut first rest).found ≠ .ok (.plain .endOfText) := by
  have mark (tag : Tag) (found : mark? first = some tag) : tag ≠ .endOfText := by
    unfold mark? at found
    split at found <;> cases found <;> decide
  have pair (single double : Tag) (found : equalsPair? first = some (single, double)) :
      single ≠ .endOfText ∧ double ≠ .endOfText := by
    unfold equalsPair? at found
    split at found <;> cases found <;> decide
  unfold cut
  split
  · rename_i tag found
    simpa using mark tag found
  · rename_i single double _ found
    obtain ⟨noSingle, noDouble⟩ := pair single double found
    split
    · simpa using noDouble
    · simpa using noSingle
  · split
    · unfold cutString
      split <;> simp
    · split
      · unfold cutNumber
        split
        · split <;> simp
        · simp
      · split
        · simpa [cutWord] using wordTag_ne_endOfText _
        · simp

/-- The end of the text is the last item, and no other. -/
theorem pieces_end (line : Nat) (text : List Char) :
    ∃ before last, pieces line text = before ++ [⟨.ok (.plain .endOfText), [], last⟩] ∧
      ∀ piece ∈ before, piece.found ≠ .ok (.plain .endOfText) := by
  induction size : text.length using Nat.strongRecOn generalizing line text with
  | ind size ih =>
    have shorter := skipTrivia_length line text
    rw [pieces_eq]
    generalize skipTrivia line text = trimmed at shorter ⊢
    obtain ⟨start, left⟩ := trimmed
    cases left with
    | nil => exact ⟨[], start, rfl, by simp⟩
    | cons first rest =>
      have taken := cut_rest_length first rest
      rw [List.length_cons] at shorter
      obtain ⟨before, last, same, others⟩ :=
        ih _ (by omega) (start + (cut first rest).span.count '\n') (cut first rest).rest rfl
      refine ⟨_ :: before, last, congrArg (_ :: ·) same, ?_⟩
      exact List.forall_mem_cons.mpr ⟨cut_ne_endOfText first rest, others⟩

end Scan
end Script
