import Mathlib.Data.Nat.Cast.Field
import Script.Proofs.Number.Rounding
import Script.Proofs.Token.Numeral
import Script.Tree.PrefixForm

/-! What a written number reads back as. A decimal reads back as itself, and so the texts of finite
numbers are distinct. -/

namespace Script

open Scan (isDigit digitsValue)

namespace Numeral

theorem digitsValue_eq (digits : List Char) :
    digitsValue digits = Nat.ofDigitChars 10 digits 0 := by
  rw [Nat.ofDigitChars_eq_foldl, digitsValue]
  simp only [mul_comm]

theorem digitsValue_append (first second : List Char) :
    digitsValue (first ++ second) = Nat.ofDigitChars 10 second (digitsValue first) := by
  rw [digitsValue_eq, digitsValue_eq, Nat.ofDigitChars_append]

theorem digitsValue_toDigits (number : Nat) : digitsValue (Nat.toDigits 10 number) = number := by
  rw [digitsValue_eq, Nat.ofDigitChars_ten_toDigits]

theorem digitsValue_zeros (digits : List Char) (count : Nat) :
    digitsValue (digits ++ List.replicate count '0') = digitsValue digits * 10 ^ count := by
  rw [digitsValue_append, Nat.ofDigitChars_replicate_zero, mul_comm]

theorem digitsValue_leading (digits : List Char) (count : Nat) :
    digitsValue (List.replicate count '0' ++ digits) = digitsValue digits := by
  rw [digitsValue_append, digitsValue_eq, digitsValue_eq, Nat.ofDigitChars_replicate_zero, mul_zero]

theorem isDigit_toDigits {number : Nat} : ∀ digit ∈ Nat.toDigits 10 number, isDigit digit = true :=
  fun _ member => Nat.isDigit_of_mem_toDigits (by decide) (by decide) member

theorem isDigit_zeros {count : Nat} : ∀ digit ∈ List.replicate count '0', isDigit digit = true := by
  intro digit member
  rw [List.eq_of_mem_replicate member]
  rfl

end Numeral

theorem zeros_toList (count : Nat) : (zeros count).toList = List.replicate count '0' :=
  String.toList_ofList

theorem toString_toList (number : Nat) : (toString number).toList = Nat.toDigits 10 number := by
  rw [Nat.toString_eq_ofList_toDigits, String.toList_ofList]

open Numeral

/-- Digits, with a point and more digits behind it or without, and the number they stand for. -/
inductive Spells : List Char → ℚ → Prop where
  | whole {digits : List Char} (nonempty : digits ≠ [])
      (all : ∀ digit ∈ digits, isDigit digit = true) : Spells digits (digitsValue digits)
  | fraction {whole digits : List Char} (nonempty : whole ≠ [])
      (all : ∀ digit ∈ whole, isDigit digit = true)
      (behind : ∀ digit ∈ digits, isDigit digit = true) :
      Spells (whole ++ '.' :: digits)
        (digitsValue (whole ++ digits) * 10 ^ (-(digits.length : Int)))

namespace Spells

variable {text : List Char} {number other : ℚ}

theorem reads (spells : Spells text number) :
    ∃ decimal, decimal? text = some decimal ∧ decimal.rational = number := by
  cases spells with
  | whole nonempty all =>
    refine ⟨_, decimal?_whole nonempty all, ?_⟩
    rw [Decimal.rational, zpow_zero, mul_one]
  | fraction nonempty all behind => exact ⟨_, decimal?_fraction nonempty all behind, rfl⟩

theorem unique (spells : Spells text number) (spells' : Spells text other) : number = other := by
  obtain ⟨decimal, read, rfl⟩ := spells.reads
  obtain ⟨decimal', read', rfl⟩ := spells'.reads
  cases read.symm.trans read'
  rfl

theorem chars (spells : Spells text number) : ∀ char ∈ text, isDigit char = true ∨ char = '.' := by
  cases spells with
  | whole nonempty all => exact fun char member => .inl (all char member)
  | fraction nonempty all behind =>
    rw [List.forall_mem_append, List.forall_mem_cons]
    exact ⟨fun char member => .inl (all char member), .inr rfl,
      fun char member => .inl (behind char member)⟩

theorem head (spells : Spells text number) :
    ∃ digit rest, text = digit :: rest ∧ isDigit digit = true := by
  cases spells with
  | whole nonempty all =>
    obtain ⟨digit, rest, rfl⟩ := List.exists_cons_of_ne_nil nonempty
    exact ⟨digit, rest, rfl, all digit List.mem_cons_self⟩
  | fraction nonempty all behind =>
    obtain ⟨digit, rest, rfl⟩ := List.exists_cons_of_ne_nil nonempty
    exact ⟨digit, _, rfl, all digit List.mem_cons_self⟩

end Spells

variable (number : Nat) {places : Nat}

/-- The digits of a number with zeros behind them. -/
theorem spells_zeros (count : Nat) :
    Spells (Nat.toDigits 10 number ++ List.replicate count '0') (number * 10 ^ count) := by
  have all : ∀ digit ∈ Nat.toDigits 10 number ++ List.replicate count '0',
      isDigit digit = true := by
    rw [List.forall_mem_append]
    exact ⟨isDigit_toDigits, isDigit_zeros⟩
  have spells := Spells.whole (by simp [Nat.toDigits_ne_nil]) all
  rw [digitsValue_zeros, digitsValue_toDigits] at spells
  exact_mod_cast spells

/-- The digits of a number with a point among them. -/
theorem spells_split (inside : places < (Nat.toDigits 10 number).length) :
    Spells
      ((Nat.toDigits 10 number).take ((Nat.toDigits 10 number).length - places) ++
        '.' :: (Nat.toDigits 10 number).drop ((Nat.toDigits 10 number).length - places))
      (number * 10 ^ (-(places : Int))) := by
  generalize cut : (Nat.toDigits 10 number).length - places = whole
  have present : (Nat.toDigits 10 number).take whole ≠ [] := by
    rw [List.ne_nil_iff_length_pos, List.length_take]
    omega
  have behind : ((Nat.toDigits 10 number).drop whole).length = places := by
    rw [List.length_drop]
    omega
  have all : ∀ digit ∈ Nat.toDigits 10 number, isDigit digit = true := isDigit_toDigits
  have spells := Spells.fraction present
    (fun digit member => all digit (List.mem_of_mem_take member))
    (fun digit (member : digit ∈ (Nat.toDigits 10 number).drop whole) =>
      all digit (List.mem_of_mem_drop member))
  rw [List.take_append_drop, digitsValue_toDigits, behind] at spells
  exact spells

/-- The digits of a number behind a point and zeros. -/
theorem spells_padded (outside : (Nat.toDigits 10 number).length ≤ places) :
    Spells
      ('0' :: '.' :: (List.replicate (places - (Nat.toDigits 10 number).length) '0' ++
        Nat.toDigits 10 number))
      (number * 10 ^ (-(places : Int))) := by
  generalize cut : places - (Nat.toDigits 10 number).length = missing
  have length : (List.replicate missing '0' ++ Nat.toDigits 10 number).length = places := by
    rw [List.length_append, List.length_replicate]
    omega
  have behind : ∀ digit ∈ List.replicate missing '0' ++ Nat.toDigits 10 number,
      isDigit digit = true := by
    rw [List.forall_mem_append]
    exact ⟨isDigit_zeros, isDigit_toDigits⟩
  have leading : digitsValue (['0'] ++ (List.replicate missing '0' ++ Nat.toDigits 10 number)) =
      number := by
    have value := digitsValue_leading (Nat.toDigits 10 number) (missing + 1)
    rwa [List.replicate_succ, digitsValue_toDigits] at value
  have digit : ∀ char ∈ ['0'], isDigit char = true := List.forall_mem_singleton.mpr rfl
  have spells := Spells.fraction (List.cons_ne_nil '0' []) digit behind
  rw [leading, length] at spells
  exact spells

/-- A decimal in positional notation spells itself. -/
theorem Decimal.spells_positional (decimal : Decimal) :
    Spells decimal.positional.toList decimal.rational := by
  obtain ⟨digits, exponent⟩ := decimal
  have shown : (toString digits).toList = Nat.toDigits 10 digits := toString_toList digits
  have length : (toString digits).length = (Nat.toDigits 10 digits).length := by
    rw [← shown, String.length_toList]
  unfold positional rational
  dsimp only
  split
  · rename_i trailing
    rw [String.toList_append, shown, zeros_toList, Int.ofNat_eq_natCast, zpow_natCast]
    exact spells_zeros digits trailing
  · rename_i below
    rw [length, shown]
    split
    · rename_i inside
      rw [String.toList_append, String.toList_append, String.toList_ofList, String.toList_ofList,
        String.toList_ofList, List.append_assoc]
      exact spells_split digits inside
    · rename_i outside
      rw [String.toList_append, String.toList_append, zeros_toList, shown, List.append_assoc]
      exact spells_padded digits (not_lt.mp outside)

/-- A whole number with a zero behind its point spells itself. -/
theorem spells_whole : Spells (toString number ++ ".0").toList number := by
  have spells := Spells.fraction Nat.toDigits_ne_nil (@isDigit_toDigits number)
    (@isDigit_zeros 1)
  have value : ((number * 10 ^ 1 : Nat) : ℚ) * 10 ^ (-((List.replicate 1 '0').length : Int)) =
      number := by
    rw [List.length_replicate, Nat.cast_one, zpow_neg_one]
    push_cast
    ring
  rw [digitsValue_zeros, digitsValue_toDigits, value] at spells
  rw [String.toList_append, toString_toList]
  exact spells

namespace Binary64

/-- A number that is neither infinite nor none at all. -/
def IsFinite (number : Binary64) : Prop :=
  ∃ negative significand exponent, number = .finite negative significand exponent

/-- Without a fraction, a double is its integer part. -/
theorem integerPart_of_isWhole {significand : Nat} {exponent : Int}
    (whole : isWhole significand exponent = true) :
    (integerPart significand exponent : ℚ) = significand * 2 ^ exponent := by
  cases exponent with
  | ofNat up =>
    rw [integerPart, Nat.pow_eq, Int.ofNat_eq_natCast, zpow_natCast]
    push_cast
    rfl
  | negSucc down =>
    have divides : 2 ^ (down + 1) ∣ significand := Nat.dvd_of_mod_eq_zero (beq_iff_eq.mp whole)
    have nonzero : ((2 ^ (down + 1) : Nat) : ℚ) ≠ 0 := by positivity
    rw [integerPart, Nat.pow_eq, zpow_negSucc, ← div_eq_mul_inv, Nat.cast_div divides nonzero]
    push_cast
    rfl

theorem isWhole_zero (exponent : Int) : isWhole 0 exponent = true := by
  cases exponent with
  | ofNat up => rfl
  | negSucc down => exact beq_iff_eq.mpr (Nat.zero_mod _)

end Binary64

namespace Literal

open Binary64 (ofFloat)

variable {number other : Float} {negative : Bool} {significand : Nat} {exponent : Int}

/-- A finite number is written with its sign, and behind it a number that rounds to it. -/
theorem numberStyle_write (finite : ofFloat number = .finite negative significand exponent) :
    ∃ text value, (numberStyle.write number).toList = (if negative then ['-'] else []) ++ text ∧
      Spells text value ∧ (Decimal.Interval.around significand exponent).Within value := by
  have sign : (if negative then "-" else "").toList = if negative then ['-'] else [] := by
    cases negative <;> rfl
  unfold NumberStyle.write
  simp only [finite, numberStyle, Bool.true_or, Bool.and_true, Option.all_none]
  split
  · rename_i whole
    refine ⟨(toString (Binary64.integerPart significand exponent) ++ ".0").toList, _, ?_,
      spells_whole _, ?_⟩
    · rw [String.append_assoc, String.toList_append, sign]
    · rw [Binary64.integerPart_of_isWhole whole]
      exact Decimal.Interval.around_within_self significand exponent
  · rename_i parted
    have present : significand ≠ 0 := by
      rintro rfl
      exact parted (Binary64.isWhole_zero exponent)
    refine ⟨_, _, ?_, Decimal.spells_positional _,
      (Binary64.canonical_of_ofBits finite).shortest_within present .up⟩
    rw [String.toList_append, sign]

/-- Finite numbers are written apart. -/
theorem numberStyle_write_injective (finite : (ofFloat number).IsFinite)
    (finite' : (ofFloat other).IsFinite)
    (same : numberStyle.write number = numberStyle.write other) : number = other := by
  obtain ⟨negative, significand, exponent, finite⟩ := finite
  obtain ⟨negative', significand', exponent', finite'⟩ := finite'
  obtain ⟨text, value, written, spells, near⟩ := numberStyle_write finite
  obtain ⟨text', value', written', spells', near'⟩ := numberStyle_write finite'
  rw [← same, written] at written'
  have unsigned {text : List Char} {value : ℚ} (spells : Spells text value) (behind : List Char) :
      text ≠ '-' :: behind := by
    obtain ⟨digit, rest, rfl, isDigit⟩ := spells.head
    intro same
    rw [List.head_eq_of_cons_eq same] at isDigit
    exact absurd isDigit (by decide)
  have texts : negative = negative' ∧ text = text' := by
    cases negative with
    | false =>
      cases negative' with
      | false => exact ⟨rfl, written'⟩
      | true => exact absurd written' (unsigned spells text')
    | true =>
      cases negative' with
      | false => exact absurd written'.symm (unsigned spells' text)
      | true => exact ⟨rfl, List.tail_eq_of_cons_eq written'⟩
  obtain ⟨rfl, rfl⟩ := texts
  cases spells.unique spells'
  obtain ⟨rfl, rfl⟩ := (Binary64.canonical_of_ofBits finite).unique
    (Binary64.canonical_of_ofBits finite') near near'
  exact Binary64.ofFloat_injective finite finite'

end Literal
end Script
