import Script.Token.Numeral

/-! The numerals of the language as a number reader takes them: digits, with a point and more
digits behind it or without, spell the double nearest to their decimal. -/

namespace Script
namespace Numeral

open Scan

theorem digit_bounds {char : Char} (digit : isDigit char = true) :
    48 ≤ char.toNat ∧ char.toNat ≤ 57 := by
  rw [isDigit, Bool.and_eq_true, decide_eq_true_iff, decide_eq_true_iff] at digit
  exact digit

theorem digit_ne {char other : Char} (digit : isDigit char = true)
    (noDigit : isDigit other = false) : char ≠ other := by
  rintro rfl
  rw [digit] at noDigit
  cases noDigit

theorem toLower_digit {char : Char} (digit : isDigit char = true) : char.toLower = char := by
  have bounds := digit_bounds digit
  have noUpper : ¬(char.val ≥ 'A'.val ∧ char.val ≤ 'Z'.val) := by
    rintro ⟨above, _⟩
    have above : 65 ≤ char.toNat := above
    omega
  exact dif_neg noUpper

/-- A text that begins with a digit has no sign and is no name. -/
theorem value?_digit {first : Char} (digit : isDigit first = true) (rest : List Char) :
    value? (first :: rest) = (decimal? (first :: rest)).map Decimal.toFloat := by
  have noName (name : String) (char : Char) (others : List Char)
      (spelled : name.toList = char :: others) (letter : isDigit char = false) :
      String.ofList ((first :: rest).map Char.toLower) ≠ name := by
    intro same
    have heads := congrArg String.toList same
    rw [String.toList_ofList, spelled, List.map_cons, toLower_digit digit, List.cons.injEq] at heads
    exact digit_ne digit letter heads.1
  rw [value?]
  · rw [magnitude?, if_neg, if_neg]
    · exact noName "nan" 'n' ['a', 'n'] rfl rfl
    · rintro (same | same)
      · exact noName "inf" 'i' ['n', 'f'] rfl rfl same
      · exact noName "infinity" 'i' ['n', 'f', 'i', 'n', 'i', 't', 'y'] rfl rfl same
  · rintro text same
    exact digit_ne digit rfl (List.cons.inj same).1
  · rintro text same
    exact digit_ne digit rfl (List.cons.inj same).1

theorem takeWhile_digits {digits : List Char} (all : ∀ digit ∈ digits, isDigit digit = true) :
    digits.takeWhile isDigit = digits ∧ digits.dropWhile isDigit = [] := by
  have taken : (digits ++ []).takeWhile isDigit = digits ++ [] :=
    List.takeWhile_append_of_pos all
  have dropped : (digits ++ []).dropWhile isDigit = [] := List.dropWhile_append_of_pos all
  rw [List.append_nil] at taken dropped
  exact ⟨taken, dropped⟩

theorem decimal?_whole {whole : List Char} (nonempty : whole ≠ [])
    (all : ∀ digit ∈ whole, isDigit digit = true) :
    decimal? whole = some ⟨digitsValue whole, 0⟩ := by
  obtain ⟨taken, dropped⟩ := takeWhile_digits all
  rw [decimal?, taken, dropped]
  dsimp only
  rw [List.append_nil, if_neg nonempty, exponent?]
  rfl

theorem decimal?_fraction {whole fraction : List Char} (nonempty : whole ≠ [])
    (all : ∀ digit ∈ whole, isDigit digit = true)
    (behind : ∀ digit ∈ fraction, isDigit digit = true) :
    decimal? (whole ++ '.' :: fraction) =
      some ⟨digitsValue (whole ++ fraction), -(fraction.length : Int)⟩ := by
  have taken : (whole ++ '.' :: fraction).takeWhile isDigit = whole := by
    rw [List.takeWhile_append_of_pos all, List.takeWhile_cons_of_neg (by decide), List.append_nil]
  have dropped : (whole ++ '.' :: fraction).dropWhile isDigit = '.' :: fraction := by
    rw [List.dropWhile_append_of_pos all, List.dropWhile_cons_of_neg (by decide)]
  obtain ⟨kept, left⟩ := takeWhile_digits behind
  have present : whole ++ fraction ≠ [] := by simp [nonempty]
  rw [decimal?, taken, dropped]
  simp only [kept, left]
  rw [if_neg present, exponent?, Option.map_some, Int.zero_sub]

/-- A row of digits. -/
theorem value?_whole {whole : List Char} (nonempty : whole ≠ [])
    (all : ∀ digit ∈ whole, isDigit digit = true) :
    value? whole = some (numberValue whole []) := by
  have read := decimal?_whole nonempty all
  obtain ⟨first, rest, rfl⟩ := List.exists_cons_of_ne_nil nonempty
  rw [value?_digit (all first List.mem_cons_self), read, numberValue, List.append_nil]
  rfl

/-- Digits on both sides of a point. -/
theorem value?_fraction {whole fraction : List Char} (nonempty : whole ≠ [])
    (all : ∀ digit ∈ whole, isDigit digit = true)
    (behind : ∀ digit ∈ fraction, isDigit digit = true) :
    value? (whole ++ '.' :: fraction) = some (numberValue whole fraction) := by
  have read := decimal?_fraction nonempty all behind
  obtain ⟨first, rest, rfl⟩ := List.exists_cons_of_ne_nil nonempty
  rw [List.cons_append] at read ⊢
  rw [value?_digit (all first List.mem_cons_self), read]
  rfl

/-- A number takes the digits at the head of a text, and a point behind them if a digit follows
it, with the digits there. -/
theorem cutNumber_cases (text : List Char) :
    (∃ digit others, text.dropWhile isDigit = '.' :: digit :: others ∧ isDigit digit = true ∧
      cutNumber text =
        ⟨.ok (.number (numberValue (text.takeWhile isDigit)
            ((digit :: others).takeWhile isDigit))),
          text.takeWhile isDigit ++ '.' :: (digit :: others).takeWhile isDigit,
          (digit :: others).dropWhile isDigit⟩) ∨
    ((¬∃ digit others, text.dropWhile isDigit = '.' :: digit :: others ∧ isDigit digit = true) ∧
      cutNumber text =
        ⟨.ok (.number (numberValue (text.takeWhile isDigit) [])), text.takeWhile isDigit,
          text.dropWhile isDigit⟩) := by
  unfold cutNumber
  split
  · rename_i digit others found
    by_cases more : isDigit digit = true
    · left
      exact ⟨digit, others, found, more, by rw [if_pos more]⟩
    · right
      refine ⟨?_, by rw [if_neg more, found]⟩
      rintro ⟨digit', others', same, more'⟩
      rw [found, List.cons.injEq, List.cons.injEq] at same
      rw [same.2.1] at more
      exact more more'
  · rename_i noPoint
    right
    refine ⟨?_, rfl⟩
    rintro ⟨digit, others, found, _⟩
    exact noPoint digit others found

end Numeral
end Script
