import Script.Token

/-! Texts of words and of lists in parentheses, a blank between neighbours. Such a text can be taken
apart in one way only. -/

namespace Script

/-- A word, or a list in parentheses with its head right before them; most heads are empty. -/
inductive Bracketed where
  | word (text : String)
  | list (head : String) (parts : List Bracketed)

namespace Bracketed

mutual

def chars : Bracketed → List Char
  | .word text => text.toList
  | .list head [] => head.toList ++ ['(', ')']
  | .list head (first :: rest) => head.toList ++ '(' :: (first.chars ++ behind rest)

/-- The rest of a list, from the blank before it to the closing parenthesis. -/
def behind : List Bracketed → List Char
  | [] => [')']
  | first :: rest => ' ' :: (first.chars ++ behind rest)

end

/-- A list behind its opening parenthesis. -/
def inside : List Bracketed → List Char
  | [] => [')']
  | first :: rest => first.chars ++ behind rest

theorem chars_list (head : String) (parts : List Bracketed) :
    (list head parts).chars = head.toList ++ '(' :: inside parts := by
  cases parts with
  | nil => rw [chars, inside]
  | cons first rest => rw [chars, inside]

/-- A character of words. -/
def isPlain (char : Char) : Bool := char != ' ' && char != '(' && char != ')'

/-- No word is empty, and no word or head has a blank or a parenthesis in it. -/
inductive Solid : Bracketed → Prop where
  | word {text : String} (nonempty : text.toList ≠ [])
      (plain : ∀ char ∈ text.toList, isPlain char = true) : Solid (.word text)
  | list {head : String} {parts : List Bracketed}
      (plain : ∀ char ∈ head.toList, isPlain char = true) (each : ∀ part ∈ parts, Solid part) :
      Solid (.list head parts)

theorem Solid.literal {text : String} (nonempty : text.toList ≠ [])
    (plain : text.toList.all isPlain = true) : Solid (.word text) :=
  .word nonempty (List.all_eq_true.mp plain)

/-- What may stand behind a part: a blank, a closing parenthesis or nothing. -/
def Ends (text : List Char) : Prop := ∀ char ∈ text.head?, char = ' ' ∨ char = ')'

variable {part : Bracketed} {parts others : List Bracketed} {text : String}
  {first second left right : List Char}

theorem ends_behind (rest : List Bracketed) (left : List Char) : Ends (behind rest ++ left) := by
  cases rest <;> simp [Ends, behind]

theorem Ends.isPlain (ends : Ends left) : ∀ char ∈ left.head?, isPlain char = false := by
  intro char member
  rcases ends char member with rfl | rfl <;> rfl

/-- No part begins as a list ends. -/
theorem Solid.chars_cons (solid : part.Solid) :
    ∃ char rest, part.chars = char :: rest ∧ char ≠ ')' := by
  have begins {text : List Char} (plain : ∀ char ∈ text, Bracketed.isPlain char = true)
      (nonempty : text ≠ []) : ∃ char rest, text = char :: rest ∧ char ≠ ')' := by
    obtain ⟨char, rest, rfl⟩ := List.exists_cons_of_ne_nil nonempty
    refine ⟨char, rest, rfl, ?_⟩
    rintro rfl
    exact absurd (plain ')' List.mem_cons_self) (by decide)
  cases solid with
  | word nonempty plain => exact begins plain nonempty
  | @list head parts plain each =>
    rw [chars_list]
    by_cases empty : head.toList = []
    · rw [empty]
      exact ⟨'(', _, rfl, by decide⟩
    · obtain ⟨char, rest, same, other⟩ := begins plain empty
      rw [same]
      exact ⟨char, _, rfl, other⟩

/-- Words end where their characters do. -/
theorem split_plain (plain : ∀ char ∈ first, isPlain char = true)
    (plain' : ∀ char ∈ second, isPlain char = true)
    (stops : ∀ char ∈ left.head?, isPlain char = false)
    (stops' : ∀ char ∈ right.head?, isPlain char = false)
    (same : first ++ left = second ++ right) : first = second ∧ left = right := by
  have taken {word behind : List Char} (plain : ∀ char ∈ word, isPlain char = true)
      (stops : ∀ char ∈ behind.head?, isPlain char = false) :
      (word ++ behind).takeWhile isPlain = word := by
    rw [List.takeWhile_append_of_pos plain]
    cases behind with
    | nil => exact List.append_nil word
    | cons char rest =>
      rw [List.takeWhile_cons_of_neg (by simp [stops char rfl]), List.append_nil]
  have words : first = second := by rw [← taken plain stops, same, taken plain' stops']
  rw [words] at same
  exact ⟨words, List.append_cancel_left same⟩

/-- A part is found at the head of a text in one way only. -/
def Readable (part : Bracketed) : Prop :=
  ∀ (other : Bracketed) (left right : List Char), other.Solid → Ends left → Ends right →
    part.chars ++ left = other.chars ++ right → part = other ∧ left = right

theorem readable_word (plain : ∀ char ∈ text.toList, isPlain char = true) :
    Readable (.word text) := by
  intro other left right solid ends ends' same
  cases solid with
  | word nonempty plain' =>
    obtain ⟨texts, rests⟩ := split_plain plain plain' ends.isPlain ends'.isPlain same
    rw [String.toList_inj.mp texts]
    exact ⟨rfl, rests⟩
  | list plain' each =>
    rw [chars_list, List.append_assoc] at same
    obtain ⟨-, rests⟩ := split_plain plain plain' ends.isPlain (by simp [isPlain]) same
    rw [rests] at ends
    exact absurd (ends '(' rfl) (by decide)

theorem readable_behind (each : ∀ part ∈ parts, Readable part)
    (solid : ∀ other ∈ others, other.Solid) (same : behind parts ++ left = behind others ++ right) :
    parts = others ∧ left = right := by
  induction parts generalizing others with
  | nil =>
    cases others with
    | nil => exact ⟨rfl, List.tail_eq_of_cons_eq same⟩
    | cons other others => simp [behind] at same
  | cons part parts ih =>
    cases others with
    | nil => simp [behind] at same
    | cons other others =>
      rw [List.forall_mem_cons] at each solid
      rw [behind, behind, List.cons_append, List.cons_append, List.append_assoc,
        List.append_assoc] at same
      obtain ⟨rfl, rests⟩ := each.1 other _ _ solid.1 (ends_behind parts left)
        (ends_behind others right) (List.tail_eq_of_cons_eq same)
      obtain ⟨rfl, rfl⟩ := ih each.2 solid.2 rests
      exact ⟨rfl, rfl⟩

theorem readable_inside (each : ∀ part ∈ parts, part.Solid ∧ Readable part)
    (solid : ∀ other ∈ others, other.Solid) (same : inside parts ++ left = inside others ++ right) :
    parts = others ∧ left = right := by
  cases parts with
  | nil =>
    cases others with
    | nil => exact ⟨rfl, List.tail_eq_of_cons_eq same⟩
    | cons other others =>
      obtain ⟨char, rest, begins, open'⟩ := (solid other List.mem_cons_self).chars_cons
      rw [inside, inside, begins] at same
      exact absurd (List.head_eq_of_cons_eq same).symm open'
  | cons part parts =>
    cases others with
    | nil =>
      obtain ⟨char, rest, begins, open'⟩ := (each part List.mem_cons_self).1.chars_cons
      rw [inside, inside, begins] at same
      exact absurd (List.head_eq_of_cons_eq same) open'
    | cons other others =>
      rw [List.forall_mem_cons] at each solid
      rw [inside, inside, List.append_assoc, List.append_assoc] at same
      obtain ⟨rfl, rests⟩ := each.1.2 other _ _ solid.1 (ends_behind parts left)
        (ends_behind others right) same
      obtain ⟨rfl, rfl⟩ := readable_behind (fun part member => (each.2 part member).2) solid.2 rests
      exact ⟨rfl, rfl⟩

theorem Solid.readable (solid : part.Solid) : Readable part := by
  induction solid with
  | word nonempty plain => exact readable_word plain
  | @list head parts plain each ih =>
    intro other left right solid here there same
    have opens {text : List Char} : ∀ char ∈ ('(' :: text).head?, isPlain char = false := by
      simp [isPlain]
    rw [chars_list, List.append_assoc] at same
    cases solid with
    | word nonempty plain' =>
      obtain ⟨-, rests⟩ := split_plain plain plain' opens there.isPlain same
      rw [← rests] at there
      exact absurd (there '(' rfl) (by decide)
    | list plain' each' =>
      rw [chars_list, List.append_assoc] at same
      obtain ⟨heads, rests⟩ := split_plain plain plain' opens opens same
      have both : ∀ part ∈ parts, part.Solid ∧ Readable part :=
        fun part member => ⟨each part member, ih part member⟩
      obtain ⟨rfl, rfl⟩ := readable_inside both each' (List.tail_eq_of_cons_eq rests)
      rw [String.toList_inj.mp heads]
      exact ⟨rfl, rfl⟩

/-- A text is that of one part at most. -/
theorem Solid.chars_injective {other : Bracketed} (solid : part.Solid) (solid' : other.Solid)
    (same : part.chars = other.chars) : part = other := by
  have nothing : Ends [] := nofun
  exact (solid.readable other [] [] solid' nothing nothing (by rw [same])).1

end Bracketed
end Script
